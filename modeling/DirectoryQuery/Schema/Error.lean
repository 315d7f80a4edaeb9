/-!
# Schema failures

What can be wrong with a schema or with a question to it, and how each failure reads.
-/

set_option autoImplicit false

namespace DirectoryQuery

/-- Why a schema could not be built or could not answer. -/
inductive SchemaError where
  /-- No attribute type has that identifier or name. -/
  | unknownAttributeType (name : String)
  /-- Neither the type nor a superior of it declares a syntax. -/
  | missingSyntax (typeName : String)
  /-- The type refers to a syntax that the schema does not have. -/
  | unknownSyntax (typeName reference : String)
  /-- The type refers to a matching rule that the schema does not have. -/
  | unknownMatchingRule (typeName reference : String)
  /-- An identifier or name is already taken. -/
  | duplicate (key : String)
  /-- A definition, or the type of that name, cannot be made sense of. -/
  | malformed (origin reason : String)
deriving DecidableEq, Repr

namespace SchemaError

/-- The text of a failure. -/
def message : SchemaError → String
  | unknownAttributeType name => "Unknown attribute type: " ++ name
  | missingSyntax typeName => "Attribute type " ++ typeName ++ " has no syntax"
  | unknownSyntax typeName reference =>
    "Attribute type " ++ typeName ++ " references unknown syntax " ++ reference
  | unknownMatchingRule typeName reference =>
    "Attribute type " ++ typeName ++ " references unknown matching rule " ++ reference
  | duplicate key => "Duplicate schema element: " ++ key
  | malformed origin reason => "Malformed schema " ++ origin ++ ": " ++ reason

end SchemaError
end DirectoryQuery
