import DirectoryQuery.MatchingRule

/-!
# Attribute types

A schema describes the attributes an entry may hold.  An attribute type has an object identifier,
names, a superior type whose syntax and rules it inherits, and of its own a syntax and up to four
matching rules, all of them given by reference.
-/

set_option autoImplicit false

namespace DirectoryQuery

/-- The syntax of the values of an attribute type: text that people read, or bytes. -/
structure ValueSyntax where
  oid : String
  description : String
  humanReadable : Bool
deriving DecidableEq, Repr

/-- The uses an attribute type has for matching rules. -/
inductive RuleSlot where
  | equality
  | ordering
  | substring
  | approximate
deriving DecidableEq, Repr

namespace RuleSlot

/-- The slots in the order in which a schema is checked. -/
def all : List RuleSlot := [equality, ordering, substring, approximate]

/-- The name of a slot. -/
def name : RuleSlot → String
  | equality => "equality"
  | ordering => "ordering"
  | substring => "substring"
  | approximate => "approximate"

end RuleSlot

/-- An attribute type.  The preferred name stands first among the names. -/
structure AttributeType where
  oid : String
  names : List String
  superior : Option String
  syntaxOid : Option String
  equality : Option String
  ordering : Option String
  substring : Option String
  approximate : Option String
deriving DecidableEq, Repr

namespace AttributeType

/-- The preferred name, or the object identifier of a type without a name. -/
def name (t : AttributeType) : String := t.names.headD t.oid

/-- Whether the type is called so, by identifier or name, the case of A to Z aside. -/
def hasName (t : AttributeType) (name : String) : Bool :=
  Text.sameIgnoringAsciiCase t.oid name || t.names.any fun n ↦ Text.sameIgnoringAsciiCase n name

/-- The reference to a matching rule that the type itself makes. -/
def declaredRule (t : AttributeType) : RuleSlot → Option String
  | .equality => t.equality
  | .ordering => t.ordering
  | .substring => t.substring
  | .approximate => t.approximate

/-- The spellings under which a schema knows the type: the identifier first, then the names. -/
def keys (t : AttributeType) : List String := (t.oid :: t.names).map Text.lower

end AttributeType

/-! ## JSON -/

namespace ValueSyntax

/-- The syntax in JSON. -/
def toJson (s : ValueSyntax) : Json :=
  .object [("oid", .string s.oid), ("description", .string s.description),
    ("human_readable", .bool s.humanReadable)]

/-- Reads a syntax; the description may be missing. -/
def ofJson? (j : Json) : Option ValueSyntax := do
  match ← j.record? ["oid", "description", "human_readable"] with
  | [oid, description, humanReadable] =>
    some {
      oid := ← Json.required? Json.string? oid
      description := ← Json.optional? "" Json.string? description
      humanReadable := ← Json.required? Json.bool? humanReadable }
  | _ => none

end ValueSyntax

namespace AttributeType

/-- The type in JSON, with `null` for what it does not declare. -/
def toJson (t : AttributeType) : Json :=
  let reference := Json.orNull Json.string
  .object [("oid", .string t.oid), ("names", .list .string t.names),
    ("superior", reference t.superior), ("syntax", reference t.syntaxOid),
    ("equality", reference t.equality), ("ordering", reference t.ordering),
    ("substring", reference t.substring), ("approximate", reference t.approximate)]

/-- Reads a type; everything but the identifier may be missing. -/
def ofJson? (j : Json) : Option AttributeType := do
  let reference := Json.optional? none (Json.nullable? Json.string?)
  match ← j.record? ["oid", "names", "superior", "syntax", "equality", "ordering", "substring",
      "approximate"] with
  | [oid, names, superior, syntaxOid, equality, ordering, substring, approximate] =>
    some {
      oid := ← Json.required? Json.string? oid
      names := ← Json.optional? [] (Json.list? Json.string?) names
      superior := ← reference superior
      syntaxOid := ← reference syntaxOid
      equality := ← reference equality
      ordering := ← reference ordering
      substring := ← reference substring
      approximate := ← reference approximate }
  | _ => none

end AttributeType
end DirectoryQuery
