import DirectoryQuery.Schema.Hierarchy

/-!
# Schema definitions

A definition lists the elements of a schema.  Adding one registers its syntaxes, then its rules,
then its attribute types, each kind in the order of the list; a registry built from a definition is
checked at the end.  Superiors may therefore be defined after the types that name them.
-/

set_option autoImplicit false

namespace DirectoryQuery

/-- The elements of a schema, as listed. -/
structure SchemaDefinition where
  syntaxes : List ValueSyntax
  rules : List MatchingRule
  types : List AttributeType

namespace SchemaDefinition

/-- Reads a definition; each list may be missing. -/
def ofJson? (j : Json) : Option SchemaDefinition := do
  match ← j.record? ["syntaxes", "matching_rules", "attribute_types"] with
  | [syntaxes, rules, types] =>
    some {
      syntaxes := ← Json.optional? [] (Json.list? ValueSyntax.ofJson?) syntaxes
      rules := ← Json.optional? [] (Json.list? MatchingRule.ofJson?) rules
      types := ← Json.optional? [] (Json.list? AttributeType.ofJson?) types }
  | _ => none

end SchemaDefinition

namespace Registry

/-- Registers the elements of a definition. -/
def addAll (r : Registry) (d : SchemaDefinition) : Except SchemaError Registry := do
  let r ← d.syntaxes.foldlM addSyntax r
  let r ← d.rules.foldlM addRule r
  d.types.foldlM addType r

/-- The registry of a definition whose references all resolve. -/
def ofDefinition (d : SchemaDefinition) : Except SchemaError Registry := do
  let r ← empty.addAll d
  r.validate
  return r

/-- The reason given for text that is not JSON of the wanted form. -/
def invalidJson : String := "invalid JSON"

/-- Builds the registry of a definition in JSON. -/
def ofText (text : String) : Except SchemaError Registry :=
  match (Json.read? text).bind SchemaDefinition.ofJson? with
  | some d => ofDefinition d
  | none => .error (.malformed "<inline>" invalidJson)

end Registry
end DirectoryQuery
