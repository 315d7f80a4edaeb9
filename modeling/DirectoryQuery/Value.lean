import DirectoryQuery.Json.Decode

/-!
# Attribute values

An attribute value is text or a run of bytes.  Values are ordered: every text comes before every
binary value, texts are ordered by code points and binary values byte by byte.  This is the order of
the keys of an index.

In JSON a text is a string and a binary value an array of its bytes.
-/

set_option autoImplicit false

namespace DirectoryQuery

open Std

/-- A value of an attribute, raw or normalized. -/
inductive Value where
  | text (s : String)
  | binary (bytes : List UInt8)
deriving DecidableEq, Repr, Inhabited

namespace Value

/-- The bytes of a binary value, the UTF-8 encoding of a text. -/
def bytes : Value → List UInt8
  | text s => s.toByteArray.data.toList
  | binary bs => bs

/-- The text of a text value. -/
def text? : Value → Option String
  | text s => some s
  | binary _ => none

/-- Whether the value is text. -/
def isText : Value → Bool
  | text _ => true
  | binary _ => false

/-- How the value shows in a filter: a text as it is, a binary value by its size. -/
def display : Value → String
  | text s => s
  | binary bs => "<" ++ toString bs.length ++ " bytes>"

/-! ## The order of values -/

/-- Texts before binary values, each kind in its own order. -/
protected def compare : Value → Value → Ordering
  | text a, text b => Ord.compare a b
  | text _, binary _ => .lt
  | binary _, text _ => .gt
  | binary a, binary b => Ord.compare a b

instance : Ord Value := ⟨Value.compare⟩

theorem compare_text (a b : String) : compare (text a) (text b) = compare a b := rfl

theorem compare_binary (a b : List UInt8) : compare (binary a) (binary b) = compare a b := rfl

instance : OrientedOrd Value where
  eq_swap {a b} := by
    cases a <;> cases b
    · rw [compare_text, compare_text]; exact OrientedCmp.eq_swap
    · rfl
    · rfl
    · rw [compare_binary, compare_binary]; exact OrientedCmp.eq_swap

instance : TransOrd Value where
  isLE_trans {a b c} hab hbc :=
    match a, b, c, hab, hbc with
    | text a, text b, text c, hab, hbc =>
      (TransCmp.isLE_trans : (compare a b).isLE → (compare b c).isLE → (compare a c).isLE) hab hbc
    | binary a, binary b, binary c, hab, hbc =>
      (TransCmp.isLE_trans : (compare a b).isLE → (compare b c).isLE → (compare a c).isLE) hab hbc
    | text _, _, binary _, _, _ => rfl
    | binary _, text _, _, hab, _ => by cases hab
    | _, binary _, text _, _, hbc => by cases hbc

instance : LawfulEqOrd Value where
  eq_of_compare {a b} h := by
    cases a <;> cases b
    · rw [compare_text] at h; rw [LawfulEqCmp.eq_of_compare h]
    · cases h
    · cases h
    · rw [compare_binary] at h; rw [LawfulEqCmp.eq_of_compare h]

/-! ## Values in JSON -/

/-- The value in JSON. -/
def toJson : Value → Json
  | text s => .string s
  | binary bs => .list (fun b ↦ .ofNat b.toNat) bs

/-- One byte of a binary value. -/
def byte? (j : Json) : Option UInt8 := (j.natBelow? 256).map UInt8.ofNat

/-- The value that a JSON value writes. -/
def ofJson? : Json → Option Value
  | .string s => some (text s)
  | .array items => (items.mapM byte?).map binary
  | _ => none

end Value
end DirectoryQuery
