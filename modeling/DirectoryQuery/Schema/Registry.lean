import Std.Data.ExtTreeMap
import DirectoryQuery.Schema.AttributeType
import DirectoryQuery.Schema.Error

/-!
# The schema registry

A registry holds syntaxes by identifier, matching rules by identifier and name, and attribute types
by identifier, together with the spellings under which a type is found.  Rules and types are looked
up by the lower-cased spelling, syntaxes by the exact one.

An element is registered as a whole or not at all: if one of its spellings is taken, nothing
changes.  Several spellings of one element may coincide.
-/

set_option autoImplicit false

namespace DirectoryQuery

open Std

/-- The elements of a schema and the spellings under which they are found. -/
structure Registry where
  /-- Syntaxes by identifier. -/
  syntaxes : ExtTreeMap String ValueSyntax
  /-- Matching rules by lower-cased identifier and by lower-cased name. -/
  rules : ExtTreeMap String MatchingRule
  /-- Attribute types by identifier. -/
  types : ExtTreeMap String AttributeType
  /-- Identifiers of attribute types by lower-cased identifier and by lower-cased names. -/
  spellings : ExtTreeMap String String

namespace Registry

/-- The registry without elements. -/
def empty : Registry := ⟨∅, ∅, ∅, ∅⟩

/-- Registers a syntax. -/
def addSyntax (r : Registry) (s : ValueSyntax) : Except SchemaError Registry :=
  if r.syntaxes.contains s.oid then .error (.duplicate s.oid)
  else .ok { r with syntaxes := r.syntaxes.insert s.oid s }

/-- Registers a matching rule under its identifier and its name. -/
def addRule (r : Registry) (rule : MatchingRule) : Except SchemaError Registry :=
  let keys := [Text.lower rule.oid, Text.lower rule.name]
  match keys.find? r.rules.contains with
  | some taken => .error (.duplicate taken)
  | none => .ok { r with rules := keys.foldl (fun rules key ↦ rules.insert key rule) r.rules }

/-- Registers an attribute type under its identifier and its names. -/
def addType (r : Registry) (t : AttributeType) : Except SchemaError Registry :=
  match t.keys.find? r.spellings.contains with
  | some taken => .error (.duplicate taken)
  | none => .ok { r with
      types := r.types.insert t.oid t
      spellings := t.keys.foldl (fun spellings key ↦ spellings.insert key t.oid) r.spellings }

/-- The attribute type found under a spelling. -/
def find? (r : Registry) (name : String) : Option AttributeType :=
  r.spellings[Text.lower name]?.bind fun oid ↦ r.types[oid]?

/-- The attribute type found under a spelling, or the failure that there is none. -/
def resolve (r : Registry) (name : String) : Except SchemaError AttributeType :=
  match r.find? name with
  | some t => .ok t
  | none => .error (.unknownAttributeType name)

/-- The matching rule found under a reference that the given type makes or inherits. -/
def rule (r : Registry) (t : AttributeType) (reference : String) :
    Except SchemaError MatchingRule :=
  match r.rules[Text.lower reference]? with
  | some rule => .ok rule
  | none => .error (.unknownMatchingRule t.name reference)

/-- The attribute types in the order of their identifiers. -/
def typeList (r : Registry) : List AttributeType := r.types.values

/-- The number of attribute types. -/
def typeCount (r : Registry) : Nat := r.types.size

end Registry
end DirectoryQuery
