import DirectoryQuery.Json.Numeral

/-!
# JSON values

Filters, entries, schemas and configurations are written in JSON, and so are the answers.  `Json` is
the tree a text stands for.  Objects keep their members in the order of the text, repeated keys
included, because readers differ in what they do with a repetition: a record refuses it, a table of
attributes lets the last one win.

A well-formed text may hold parts that stand for no value, such as a string whose escapes name half
of a surrogate pair.  Such a part is `unreadable`: it does no harm where a reader skips it and is
refused everywhere else.

Numbers are kept as numerals, so that `1`, `1.0` and `1e0` stay apart.
-/

set_option autoImplicit false

namespace DirectoryQuery

/-- A JSON value. -/
inductive Json where
  /-- The value `null`. -/
  | null
  /-- A truth value. -/
  | bool (b : Bool)
  /-- A number. -/
  | number (n : Numeral)
  /-- A string of Unicode text. -/
  | string (s : String)
  /-- A list of values. -/
  | array (items : List Json)
  /-- Members in the order of the text, repeated keys included. -/
  | object (members : List (String × Json))
  /-- A well-formed part of a text that stands for no value. -/
  | unreadable
deriving Inhabited

namespace Json

/-- A natural number. -/
def ofNat (n : Nat) : Json := number (Numeral.ofNat n)

/-- The value, or `null` when there is none. -/
def orNull {α : Type} (write : α → Json) : Option α → Json
  | none => null
  | some a => write a

/-- A list of values written one by one. -/
def list {α : Type} (write : α → Json) (items : List α) : Json := array (items.map write)

/-- The value of the last member of that name. -/
def member? (name : String) : List (String × Json) → Option Json
  | [] => none
  | (key, value) :: rest =>
    match member? name rest with
    | some later => some later
    | none => if key = name then some value else none

/-- Leaves of every run of members with one key only the last. -/
def keepLast : List (String × Json) → List (String × Json)
  | [] => []
  | (key, value) :: rest =>
    if rest.any fun m ↦ m.1 == key then keepLast rest else (key, value) :: keepLast rest

/-! ## Values proper

A text is first read as it stands.  Where it is to be taken as a value before anything is made of
it, no part may be unreadable, every number has to be a finite one, and of the members with one key
the last counts. -/

mutual
/-- The value a tree stands for, with repeated keys resolved. -/
def value? : Json → Option Json
  | null => some null
  | bool b => some (bool b)
  | number n => if n.isFinite then some (number n) else none
  | string s => some (string s)
  | array items => (values? items).map array
  | object members => (memberValues? members).map fun ms ↦ object (keepLast ms)
  | unreadable => none
/-- The values a list of trees stands for. -/
def values? : List Json → Option (List Json)
  | [] => some []
  | item :: items =>
    match value? item, values? items with
    | some v, some vs => some (v :: vs)
    | _, _ => none
/-- The members a list of members stands for, repetitions included. -/
def memberValues? : List (String × Json) → Option (List (String × Json))
  | [] => some []
  | (key, item) :: members =>
    match value? item, memberValues? members with
    | some v, some vs => some ((key, v) :: vs)
    | _, _ => none
end

end Json
end DirectoryQuery
