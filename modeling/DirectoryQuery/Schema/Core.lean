import DirectoryQuery.Schema.Definition

/-!
# The core schema

The attribute types that nearly every directory uses, with their syntaxes and matching rules.
-/

set_option autoImplicit false

namespace DirectoryQuery
namespace CoreSchema

/-- Identifier of the syntax of text in any script. -/
def directoryString : String := "1.3.6.1.4.1.1466.115.121.1.15"

/-- Identifier of the syntax of ASCII text. -/
def ia5String : String := "1.3.6.1.4.1.1466.115.121.1.26"

/-- Identifier of the syntax of integers. -/
def integer : String := "1.3.6.1.4.1.1466.115.121.1.27"

/-- Identifier of the syntax of pictures. -/
def jpeg : String := "1.3.6.1.4.1.1466.115.121.1.28"

/-- Identifier of the syntax of object identifiers. -/
def objectIdentifier : String := "1.3.6.1.4.1.1466.115.121.1.38"

/-- Identifier of the syntax of arbitrary bytes. -/
def octetString : String := "1.3.6.1.4.1.1466.115.121.1.40"

/-- The core syntaxes. -/
def syntaxes : List ValueSyntax := [
  ⟨directoryString, "Directory String", true⟩,
  ⟨ia5String, "IA5 String", true⟩,
  ⟨integer, "INTEGER", true⟩,
  ⟨jpeg, "JPEG", false⟩,
  ⟨objectIdentifier, "OID", true⟩,
  ⟨octetString, "Octet String", false⟩]

/-- The core matching rules. -/
def rules : List MatchingRule := [
  ⟨"2.5.13.0", "objectIdentifierMatch", .squeezedLower, .lexical⟩,
  ⟨"2.5.13.2", "caseIgnoreMatch", .squeezedLower, .lexical⟩,
  ⟨"2.5.13.3", "caseIgnoreOrderingMatch", .squeezedLower, .lexical⟩,
  ⟨"2.5.13.4", "caseIgnoreSubstringsMatch", .squeezedLower, .lexical⟩,
  ⟨"2.5.13.5", "caseExactMatch", .squeezed, .lexical⟩,
  ⟨"2.5.13.14", "integerMatch", .unspaced, .integer⟩,
  ⟨"2.5.13.15", "integerOrderingMatch", .unspaced, .integer⟩,
  ⟨"2.5.13.17", "octetStringMatch", .identity, .bytes⟩,
  ⟨"1.3.6.1.4.1.1466.109.114.2", "caseIgnoreIA5Match", .squeezedLower, .lexical⟩,
  ⟨"1.3.6.1.4.1.1466.109.114.3", "caseIgnoreIA5SubstringsMatch", .squeezedLower, .lexical⟩]

/-- A type that inherits everything from `name`. -/
def nameLike (oid : String) (names : List String) : AttributeType :=
  ⟨oid, names, some "name", none, none, none, none, none⟩

/-- The core attribute types. -/
def types : List AttributeType := [
  ⟨"2.5.4.0", ["objectClass"], none, some objectIdentifier, some "objectIdentifierMatch", none,
    none, none⟩,
  ⟨"2.5.4.41", ["name"], none, some directoryString, some "caseIgnoreMatch",
    some "caseIgnoreOrderingMatch", some "caseIgnoreSubstringsMatch", none⟩,
  nameLike "2.5.4.3" ["cn", "commonName"],
  nameLike "2.5.4.4" ["sn", "surname"],
  nameLike "2.5.4.42" ["givenName"],
  nameLike "2.5.4.11" ["ou", "organizationalUnitName"],
  nameLike "2.5.4.12" ["title"],
  ⟨"2.5.4.13", ["description"], none, some directoryString, some "caseIgnoreMatch", none,
    some "caseIgnoreSubstringsMatch", none⟩,
  ⟨"0.9.2342.19200300.100.1.1", ["uid", "userid"], none, some directoryString,
    some "caseIgnoreMatch", none, some "caseIgnoreSubstringsMatch", none⟩,
  ⟨"0.9.2342.19200300.100.1.3", ["mail"], none, some ia5String, some "caseIgnoreIA5Match", none,
    some "caseIgnoreIA5SubstringsMatch", none⟩,
  ⟨"1.3.6.1.1.1.1.0", ["uidNumber"], none, some integer, some "integerMatch",
    some "integerOrderingMatch", none, none⟩,
  ⟨"2.5.4.35", ["userPassword"], none, some octetString, some "octetStringMatch", none, none,
    none⟩,
  ⟨"0.9.2342.19200300.100.1.60", ["jpegPhoto"], none, some jpeg, none, none, none, none⟩]

/-- The core schema as a definition. -/
def definition : SchemaDefinition := ⟨syntaxes, rules, types⟩

end CoreSchema

namespace Registry

/-- The registry of the core schema, whose elements have distinct spellings. -/
def core : Registry := (empty.addAll CoreSchema.definition).toOption.getD empty

end Registry
end DirectoryQuery
