import DirectoryQuery.Text.Lowercase
import DirectoryQuery.Text.Integer
import DirectoryQuery.Value

/-!
# Matching rules

A matching rule says when two values of an attribute are to be taken for equal, or in which order
they stand.  It has two parts: a *normalizer*, which brings a value into the form under which it is
stored in an index, and a *comparator* of values in that form.

A normalizer changes texts only; binary values pass through.  A comparator may find two values
incomparable: texts are incomparable with binary values except byte by byte, and a text that does
not write an integer is incomparable as an integer, with itself too.
-/

set_option autoImplicit false

namespace DirectoryQuery

/-! ## Normalizers -/

/-- The forms into which a matching rule may bring a value. -/
inductive Normalizer where
  /-- The value unchanged. -/
  | identity
  /-- Words separated by single spaces. -/
  | squeezed
  /-- Words separated by single spaces, in lower case. -/
  | squeezedLower
  /-- The text without white space. -/
  | unspaced
deriving DecidableEq, Repr, Inhabited

namespace Normalizer

/-- The normal form of a text. -/
def applyText : Normalizer → String → String
  | identity, s => s
  | squeezed, s => Text.squeeze s
  | squeezedLower, s => Text.lower (Text.squeeze s)
  | unspaced, s => Text.withoutBlanks s

/-- The normal form of a value. -/
def apply (n : Normalizer) : Value → Value
  | .text s => .text (n.applyText s)
  | .binary bs => .binary bs

/-- The names of the normalizers. -/
def names : List (String × Normalizer) :=
  [("no_op", identity), ("deep_trim", squeezed), ("deep_trim_to_lower", squeezedLower),
   ("numeric_string", unspaced)]

/-- The name of a normalizer. -/
def name : Normalizer → String
  | identity => "no_op"
  | squeezed => "deep_trim"
  | squeezedLower => "deep_trim_to_lower"
  | unspaced => "numeric_string"

/-- Reads the name of a normalizer. -/
def ofJson? : Json → Option Normalizer := Json.keyword? names

@[simp]
theorem apply_binary (n : Normalizer) (bs : List UInt8) : n.apply (.binary bs) = .binary bs := rfl

@[simp]
theorem apply_identity (v : Value) : identity.apply v = v := by cases v <;> rfl

end Normalizer

/-! ## Comparators -/

/-- The orders in which a matching rule may put values. -/
inductive Comparator where
  /-- Texts by code points. -/
  | lexical
  /-- Texts by the integers they write. -/
  | integer
  /-- Values by their bytes. -/
  | bytes
deriving DecidableEq, Repr, Inhabited

namespace Comparator

/-- The order of two values, `none` if they are incomparable. -/
def compare? : Comparator → Value → Value → Option Ordering
  | lexical, .text a, .text b => some (compare a b)
  | lexical, _, _ => none
  | integer, .text a, .text b =>
    match Text.integer? a, Text.integer? b with
    | some m, some n => some (compare m n)
    | _, _ => none
  | integer, _, _ => none
  | bytes, a, b => some (compare a.bytes b.bytes)

/-- The names of the comparators. -/
def names : List (String × Comparator) :=
  [("lexical", lexical), ("integer", integer), ("bytes", bytes)]

/-- The name of a comparator. -/
def name : Comparator → String
  | lexical => "lexical"
  | integer => "integer"
  | bytes => "bytes"

/-- Reads the name of a comparator. -/
def ofJson? : Json → Option Comparator := Json.keyword? names

end Comparator

/-! ## Rules -/

/-- A matching rule, known by its object identifier and by its name. -/
structure MatchingRule where
  oid : String
  name : String
  normalizer : Normalizer
  comparator : Comparator
deriving DecidableEq, Repr

namespace MatchingRule

/-- The rule in JSON. -/
def toJson (r : MatchingRule) : Json :=
  .object [("oid", .string r.oid), ("name", .string r.name),
    ("normalizer", .string r.normalizer.name), ("comparator", .string r.comparator.name)]

/-- Reads a rule.  Without a normalizer values stay as they are, without a comparator they are
compared as texts. -/
def ofJson? (j : Json) : Option MatchingRule := do
  match ← j.record? ["oid", "name", "normalizer", "comparator"] with
  | [oid, name, normalizer, comparator] =>
    some {
      oid := ← Json.required? Json.string? oid
      name := ← Json.required? Json.string? name
      normalizer := ← Json.optional? .identity Normalizer.ofJson? normalizer
      comparator := ← Json.optional? .lexical Comparator.ofJson? comparator }
  | _ => none

end MatchingRule
end DirectoryQuery
