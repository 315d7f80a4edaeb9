import DirectoryQuery.Filter.Basic
import DirectoryQuery.Json.Printer

/-!
# Filters in JSON

A filter is an object with one member, whose key says which part it is.  The members of a
conjunction or disjunction are a list, the member of a negation is a filter, and a clause is a
record.

JSON can be read in two ways that differ in one point.  Read straight from text, every clause may be
written as an array of its fields.  Taken from a value that was read before (`Reading.value`), only
a wildcard clause may.
-/

set_option autoImplicit false

namespace DirectoryQuery

/-- Where the JSON of a filter comes from. -/
inductive Reading where
  /-- It is being read from text. -/
  | text
  /-- It is a value that was read before. -/
  | value
deriving DecidableEq, Repr

/-! ## Writing -/

namespace Clause

/-- The fields of a clause as they stand in an object, `null` for a missing end of a wildcard
shape. -/
def members (c : Clause) : List (String × Json) :=
  ("attribute", .string c.name) ::
    match c.condition with
    | .present => []
    | .shaped shape => [("initial", Json.orNull .string shape.head),
        ("any", .list .string shape.middles), ("final", Json.orNull .string shape.tail)]
    | .equalTo v | .atLeast v | .atMost v | .approximately v => [("value", v.toJson)]

/-- The clause in JSON. -/
def toJson (c : Clause) : Json := .object [(c.condition.kind, .object c.members)]

end Clause

namespace Filter

mutual
/-- The filter in JSON. -/
def toJson : Filter → Json
  | .all parts => .object [("and", .array (toJsonEach parts))]
  | .any parts => .object [("or", .array (toJsonEach parts))]
  | .not part => .object [("not", toJson part)]
  | .leaf c => c.toJson
/-- The filters in JSON. -/
def toJsonEach : List Filter → List Json
  | [] => []
  | part :: parts => toJson part :: toJsonEach parts
end

end Filter

/-! ## Reading -/

namespace Clause

/-- The fields of a clause that may have to be an object. -/
def fields? (reading : Reading) (names : List String) (j : Json) : Option (List (Option Json)) :=
  match reading, j with
  | .value, .array _ => none
  | _, j => j.record? names

/-- Reads a clause on a value. -/
def onValue? (reading : Reading) (condition : Value → Condition) (j : Json) : Option Clause := do
  match ← fields? reading ["attribute", "value"] j with
  | [name, value] =>
    some ⟨← Json.required? Json.string? name,
      condition (← Json.required? Value.ofJson? value)⟩
  | _ => none

/-- Reads a clause that asks only for the attribute. -/
def present? (reading : Reading) (j : Json) : Option Clause := do
  match ← fields? reading ["attribute"] j with
  | [name] => some ⟨← Json.required? Json.string? name, .present⟩
  | _ => none

/-- Reads a wildcard clause; all of the shape may be missing. -/
def shaped? (j : Json) : Option Clause := do
  match ← j.record? ["attribute", "initial", "any", "final"] with
  | [name, head, middles, tail] =>
    some ⟨← Json.required? Json.string? name, .shaped {
      head := ← Json.optional? none (Json.nullable? Json.string?) head
      middles := ← Json.optional? [] (Json.list? Json.string?) middles
      tail := ← Json.optional? none (Json.nullable? Json.string?) tail }⟩
  | _ => none

/-- Reads the clause of the given kind. -/
def ofJson? (reading : Reading) (kind : String) (j : Json) : Option Clause :=
  match kind with
  | "equality" => onValue? reading .equalTo j
  | "presence" => present? reading j
  | "substring" => shaped? j
  | "greater_or_equal" => onValue? reading .atLeast j
  | "less_or_equal" => onValue? reading .atMost j
  | "approximate_match" => onValue? reading .approximately j
  | _ => none

end Clause

namespace Filter

mutual
/-- Reads a filter. -/
def ofJson? (reading : Reading) : Json → Option Filter
  | .object [("and", .array parts)] => (ofJsonEach? reading parts).map .all
  | .object [("or", .array parts)] => (ofJsonEach? reading parts).map .any
  | .object [("not", part)] => (ofJson? reading part).map .not
  | .object [(kind, fields)] => (Clause.ofJson? reading kind fields).map .leaf
  | _ => none
/-- Reads filters. -/
def ofJsonEach? (reading : Reading) : List Json → Option (List Filter)
  | [] => some []
  | part :: parts =>
    match ofJson? reading part, ofJsonEach? reading parts with
    | some f, some fs => some (f :: fs)
    | _, _ => none
end

/-- The filter that a JSON value writes. -/
def ofValue? (j : Json) : Option Filter := ofJson? .value j

/-- The filter that JSON text writes. -/
def ofText? (s : String) : Option Filter := (Json.read? s).bind (ofJson? .text)

end Filter
end DirectoryQuery
