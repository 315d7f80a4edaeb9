import DirectoryQuery.Json.Reader

/-!
# Taking JSON apart

What records, lists and keywords look like in JSON.  A record with declared fields is an object or,
equally, the array of its fields in declaration order.  In an object the order of members does not
matter and unknown members are skipped, but a declared field must not be given twice; in an array
there may be no more items than fields.  A field that is missing takes its default if it has one,
and `null` is a value like any other, so it does not stand for a missing field.

A keyword is the string that spells it or an object whose only member has that name and the value
`null`.
-/

set_option autoImplicit false

namespace DirectoryQuery
namespace Json

/-- A truth value. -/
def bool? : Json → Option Bool
  | bool b => some b
  | _ => none

/-- A string. -/
def string? : Json → Option String
  | string s => some s
  | _ => none

/-- A natural number below the bound, written without fraction and exponent. -/
def natBelow? (bound : Nat) : Json → Option Nat
  | number n => n.nat?.filter fun m ↦ m < bound
  | _ => none

/-- A list whose items all have the wanted form. -/
def list? {α : Type} (item? : Json → Option α) : Json → Option (List α)
  | array items => items.mapM item?
  | _ => none

/-- A value of the wanted form, or `null` for none. -/
def nullable? {α : Type} (value? : Json → Option α) : Json → Option (Option α)
  | null => some none
  | j => (value? j).map some

/-- One of the keywords of a table. -/
def keyword? {α : Type} (table : List (String × α)) : Json → Option α
  | string s => table.lookup s
  | object [(s, null)] => table.lookup s
  | _ => none

/-! ## Records -/

/-- The value of a field in an object, `none` within if it is missing; fails if it is repeated. -/
def field? (members : List (String × Json)) (name : String) : Option (Option Json) :=
  match members.filter fun m ↦ m.1 == name with
  | [] => some none
  | [m] => some (some m.2)
  | _ => none

/-- The values of the declared fields of a record, in declaration order. -/
def record? (names : List String) : Json → Option (List (Option Json))
  | object members => names.mapM (field? members)
  | array items =>
    if items.length ≤ names.length then
      some (items.map some ++ List.replicate (names.length - items.length) none)
    else none
  | _ => none

/-- A field that has to be given. -/
def required? {α : Type} (value? : Json → Option α) : Option Json → Option α
  | some j => value? j
  | none => none

/-- A field with a default. -/
def optional? {α : Type} (fallback : α) (value? : Json → Option α) : Option Json → Option α
  | some j => value? j
  | none => some fallback

end Json
end DirectoryQuery
