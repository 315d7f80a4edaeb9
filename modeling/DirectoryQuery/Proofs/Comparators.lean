import DirectoryQuery.Assertion

/-!
# The orders of values

A comparator compares two values by their keys: their texts, the integers they write, their bytes.
A value without a key is incomparable with every value, itself included.  The laws of a partial
order follow from this form alone (`PartialOrdering.of_key`): a comparison the other way round is
the reverse, values that are comparable with the same value are comparable, and of two comparisons
in a row that both do not go down the first strict one decides.

So assertions with bounds agree with each other.  From two sides they meet in equality, and together
they reach the values that are comparable with the bound; what is incomparable with it is on neither
side.
-/

set_option autoImplicit false

namespace DirectoryQuery

open Std

/-! ## Comparing by keys -/

section Keys

variable {α κ : Type}

/-- The laws of a comparison that orders part of the values. -/
structure PartialOrdering (compare? : α → α → Option Ordering) : Prop where
  /-- The other way round the result is reversed, or there is none both ways. -/
  swap : ∀ a b, compare? b a = (compare? a b).map Ordering.swap
  /-- Values that are comparable with the same value are comparable. -/
  comparable : ∀ {a b c}, (compare? a b).isSome = true → (compare? b c).isSome = true →
    (compare? a c).isSome = true
  /-- Two steps that do not go down are equal if both are, and go up otherwise. -/
  trans : ∀ {a b c o o'}, compare? a b = some o → compare? b c = some o' → o.isLE = true →
    o'.isLE = true → compare? a c = some (o.then o')

/-- The order of the keys, if there are two. -/
def compareBy [Ord κ] (key : α → Option κ) (a b : α) : Option Ordering :=
  (key a).bind fun i ↦ (key b).map fun j ↦ compare i j

variable [Ord κ]

theorem compareBy_eq_some_iff {key : α → Option κ} {a b : α} {o : Ordering} :
    compareBy key a b = some o ↔ ∃ i j, key a = some i ∧ key b = some j ∧ compare i j = o := by
  simp only [compareBy, Option.bind_eq_some_iff, Option.map_eq_some_iff]
  exact ⟨fun ⟨i, hi, j, hj, ho⟩ ↦ ⟨i, j, hi, hj, ho⟩, fun ⟨i, j, hi, hj, ho⟩ ↦ ⟨i, hi, j, hj, ho⟩⟩

theorem isSome_compareBy (key : α → Option κ) (a b : α) :
    (compareBy key a b).isSome = ((key a).isSome && (key b).isSome) := by
  rw [compareBy]
  cases key a <;> cases key b <;> rfl

variable [TransOrd κ]

/-- Of two steps that do not go down the first strict one decides. -/
theorem compare_eq_then {i j k : κ} (hij : (compare i j).isLE = true)
    (hjk : (compare j k).isLE = true) : compare i k = (compare i j).then (compare j k) := by
  cases h : compare i j with
  | lt => exact TransCmp.lt_of_lt_of_isLE h hjk
  | eq => exact TransCmp.congr_left h
  | gt => rw [h] at hij; cases hij

theorem PartialOrdering.of_key (key : α → Option κ) : PartialOrdering (compareBy key) where
  swap a b := by
    rw [compareBy, compareBy]
    cases key a with
    | none => cases key b <;> rfl
    | some i =>
      cases key b with
      | none => rfl
      | some j => exact congrArg some OrientedCmp.eq_swap
  comparable {a b c} hab hbc := by
    rw [isSome_compareBy, Bool.and_eq_true] at *
    exact ⟨hab.1, hbc.2⟩
  trans {a b c o o'} hab hbc ho ho' := by
    obtain ⟨i, j, hi, hj, rfl⟩ := compareBy_eq_some_iff.1 hab
    obtain ⟨j', k, hj', hk, rfl⟩ := compareBy_eq_some_iff.1 hbc
    obtain rfl : j = j' := Option.some.inj (hj.symm.trans hj')
    exact compareBy_eq_some_iff.2 ⟨i, k, hi, hk, compare_eq_then ho ho'⟩

end Keys

/-! ## Comparators -/

namespace Comparator

theorem compare?_lexical : lexical.compare? = compareBy Value.text? := by
  funext a b
  cases a <;> cases b <;> rfl

theorem compare?_integer :
    integer.compare? = compareBy fun v ↦ v.text?.bind Text.integer? := by
  funext a b
  cases a with
  | text s =>
    cases b with
    | text t =>
      change _ = (Text.integer? s).bind fun m ↦ (Text.integer? t).map fun n ↦ compare m n
      rw [compare?]
      cases Text.integer? s <;> cases Text.integer? t <;> rfl
    | binary bs =>
      change none = (Text.integer? s).bind fun _ ↦ none
      cases Text.integer? s <;> rfl
  | binary bs => cases b <;> rfl

theorem compare?_bytes : bytes.compare? = compareBy fun v ↦ some v.bytes := by
  funext a b
  rfl

/-- Every comparator orders the values that it can compare. -/
theorem partialOrdering (c : Comparator) : PartialOrdering c.compare? := by
  cases c with
  | lexical => rw [compare?_lexical]; exact .of_key _
  | integer => rw [compare?_integer]; exact .of_key _
  | bytes => rw [compare?_bytes]; exact .of_key _

end Comparator

/-! ## Bounds -/

namespace Assertion

variable {c : Comparator} {v k j : Value}

theorem holds_equals_iff : (equals k c).holds v = true ↔ c.compare? v k = some .eq := beq_iff_eq

theorem holds_atLeast_iff :
    (atLeast k c).holds v = true ↔ ∃ o, c.compare? v k = some o ∧ o.isGE = true := by
  rw [holds]
  cases c.compare? v k <;> simp

theorem holds_atMost_iff :
    (atMost k c).holds v = true ↔ ∃ o, c.compare? v k = some o ∧ o.isLE = true := by
  rw [holds]
  cases c.compare? v k <;> simp

/-- Turned around, a lower bound is an upper bound. -/
theorem holds_atLeast_comm : (atLeast k c).holds v = (atMost v c).holds k := by
  rw [Bool.eq_iff_iff, holds_atLeast_iff, holds_atMost_iff, c.partialOrdering.swap v k]
  cases c.compare? v k with
  | none => simp
  | some o => cases o <;> simp

/-- From two sides the bounds meet in equality. -/
theorem holds_atLeast_and_atMost (c : Comparator) (v k : Value) :
    ((atLeast k c).holds v && (atMost k c).holds v) = (equals k c).holds v := by
  rw [Bool.eq_iff_iff, Bool.and_eq_true, holds_atLeast_iff, holds_atMost_iff, holds_equals_iff]
  cases c.compare? v k with
  | none => simp
  | some o => cases o <;> simp

/-- On one side of the bound or the other is what is comparable with it. -/
theorem holds_atLeast_or_atMost (c : Comparator) (v k : Value) :
    ((atLeast k c).holds v || (atMost k c).holds v) = (c.compare? v k).isSome := by
  rw [Bool.eq_iff_iff, Bool.or_eq_true, holds_atLeast_iff, holds_atMost_iff]
  cases c.compare? v k with
  | none => simp
  | some o => cases o <;> simp

theorem holds_atMost_trans (hv : (atMost k c).holds v = true) (hk : (atMost j c).holds k = true) :
    (atMost j c).holds v = true := by
  rw [holds_atMost_iff] at *
  obtain ⟨o, hvk, ho⟩ := hv
  obtain ⟨o', hkj, ho'⟩ := hk
  exact ⟨_, c.partialOrdering.trans hvk hkj ho ho', Ordering.isLE_then_iff_and.2 ⟨ho, .inr ho'⟩⟩

/-- What is not below a bound is not below what the bound itself is not below. -/
theorem holds_atLeast_trans (hv : (atLeast k c).holds v = true)
    (hk : (atLeast j c).holds k = true) : (atLeast j c).holds v = true := by
  rw [holds_atLeast_comm] at *
  exact holds_atMost_trans hk hv

end Assertion

/-- Every comparator orders the values that it can compare, and assertions with bounds are what this
order makes of them. -/
theorem Comparator.orders (c : Comparator) :
    PartialOrdering c.compare? ∧
    (∀ v k, ((Assertion.atLeast k c).holds v && (Assertion.atMost k c).holds v) =
      (Assertion.equals k c).holds v) ∧
    (∀ v k, ((Assertion.atLeast k c).holds v || (Assertion.atMost k c).holds v) =
      (c.compare? v k).isSome) ∧
    ∀ v k j, (Assertion.atLeast k c).holds v = true → (Assertion.atLeast j c).holds k = true →
      (Assertion.atLeast j c).holds v = true :=
  ⟨c.partialOrdering, Assertion.holds_atLeast_and_atMost c, Assertion.holds_atLeast_or_atMost c,
    fun _ _ _ hv hk ↦ Assertion.holds_atLeast_trans hv hk⟩

/-- Integers in several spellings: an order reversed, a bound reached by way of another, and equal
values on one side of each other. -/
theorem Comparator.orders_spellings :
    Comparator.integer.compare? (.text "7") (.text "+6") = some .gt ∧
    (Assertion.atLeast (.text "+6") .integer).holds (.text " 007") = true ∧
    (Assertion.atMost (.text "7") .integer).holds (.text " 007") = true := by
  have hbounds := Comparator.orders .integer
  have hequal : Comparator.integer.compare? (.text "+6") (.text "7") = some .lt := by
    decide +kernel
  refine ⟨by rw [hbounds.1.swap, hequal]; rfl, ?_, ?_⟩
  · exact hbounds.2.2.2 (.text " 007") (.text "7") (.text "+6") (by decide +kernel)
      (by decide +kernel)
  · have hboth := hbounds.2.1 (.text " 007") (.text "7")
    have hsame : (Assertion.equals (.text "7") .integer).holds (.text " 007") = true := by
      decide +kernel
    rw [hsame, Bool.and_eq_true] at hboth
    exact hboth.2

end DirectoryQuery
