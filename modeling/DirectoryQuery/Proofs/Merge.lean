import Mathlib.Algebra.GroupWithZero.Nat
import DirectoryQuery.Entry

/-!
# What operands yield one after the other

A disjunction goes through its operands one by one.  From an operand it takes what the operand does
not have to skip, and an operand that has accepted an entry when another one came up with it has to
skip that entry from then on.  `merge` says what comes of this, from the lists of the operands, from
what they have to skip at the start and from what they accept.

An operand that accepts everything in its own list never repeats what has come up before
(`nodup_merge`); whatever the operands accept, nothing gets lost (`mem_or_mem_merge`).
-/

set_option autoImplicit false

namespace DirectoryQuery

/-- What a traversal depends on in an operand: the entries it yields, those it has to skip, and
those it accepts when it is asked. -/
structure Leg where
  ids : List EntryId
  skips : EntryId → Bool
  accepts : EntryId → Bool

namespace Leg

/-- What the operand contributes when `out` has come up before. -/
def fresh (out : List EntryId) (leg : Leg) : List EntryId :=
  leg.ids.filter fun i ↦ !(leg.skips i || (leg.accepts i && out.contains i))

/-- The operand accepts whatever it yields. -/
def Accepting (leg : Leg) : Prop := ∀ i ∈ leg.ids, leg.accepts i = true

/-- The operand before and after it is asked about an entry. -/
structure Told (x : EntryId) (leg leg' : Leg) : Prop where
  ids : leg'.ids = leg.ids
  accepts : leg'.accepts = leg.accepts
  skips : ∀ i ∈ leg.ids, leg'.skips i = (leg.skips i || (i == x && leg.accepts i))

variable {leg leg' : Leg} {out : List EntryId} {i x : EntryId}

theorem mem_fresh : i ∈ leg.fresh out ↔
    i ∈ leg.ids ∧ leg.skips i = false ∧ (leg.accepts i = true → i ∉ out) := by
  simp only [fresh, List.mem_filter, Bool.not_eq_true', Bool.or_eq_false_iff,
    Bool.and_eq_false_imp, List.contains_eq_mem, decide_eq_false_iff_not]

/-- It is the same whether an entry has come up or the operand was asked about it. -/
theorem Told.fresh_eq (h : Told x leg leg') (out : List EntryId) :
    leg.fresh (x :: out) = leg'.fresh out := by
  rw [fresh, fresh, h.ids, h.accepts]
  refine List.filter_congr fun i hi ↦ ?_
  rw [h.skips i hi, List.contains_cons]
  cases leg.skips i <;> cases leg.accepts i <;> cases (i == x) <;> rfl

end Leg

/-- What the operands yield one after the other when `out` has come up before. -/
def merge (out : List EntryId) : List Leg → List EntryId
  | [] => []
  | leg :: legs => leg.fresh out ++ merge (out ++ leg.fresh out) legs

variable {legs : List Leg} {out : List EntryId} {i x : EntryId}

theorem merge_told {α : Type} {leg leg' : α → Leg} {js : List α}
    (h : ∀ j ∈ js, Leg.Told x (leg j) (leg' j)) (out : List EntryId) :
    merge (x :: out) (js.map leg) = merge out (js.map leg') := by
  induction js generalizing out with
  | nil => rfl
  | cons j js ih =>
    have hrest := ih fun k hk ↦ h k (List.mem_cons_of_mem j hk)
    rw [List.map_cons, List.map_cons, merge, merge, (h j List.mem_cons_self).fresh_eq,
      List.cons_append, hrest]

theorem length_merge_le (out : List EntryId) (legs : List Leg) :
    (merge out legs).length ≤ (legs.map fun leg ↦ leg.ids.length).sum := by
  induction legs generalizing out with
  | nil => exact Nat.le_refl 0
  | cons leg legs ih =>
    rw [merge, List.length_append, List.map_cons, List.sum_cons]
    exact Nat.add_le_add (List.length_filter_le _ _) (ih _)

theorem exists_of_mem_merge (h : i ∈ merge out legs) :
    ∃ leg ∈ legs, i ∈ leg.ids ∧ leg.skips i = false := by
  induction legs generalizing out with
  | nil => exact absurd h List.not_mem_nil
  | cons leg legs ih =>
    rcases List.mem_append.1 h with hi | hi
    · obtain ⟨hmem, hskip, -⟩ := Leg.mem_fresh.1 hi
      exact ⟨leg, List.mem_cons_self, hmem, hskip⟩
    · obtain ⟨leg', hleg', hi⟩ := ih hi
      exact ⟨leg', List.mem_cons_of_mem leg hleg', hi⟩

/-- **Nothing gets lost**: what an operand yields and does not have to skip comes up. -/
theorem mem_or_mem_merge {leg : Leg} (hleg : leg ∈ legs) (hi : i ∈ leg.ids)
    (hskip : leg.skips i = false) : i ∈ out ∨ i ∈ merge out legs := by
  induction legs generalizing out with
  | nil => exact absurd hleg List.not_mem_nil
  | cons first legs ih =>
    rw [merge, List.mem_append]
    rcases List.mem_cons.1 hleg with rfl | hleg
    · by_cases hout : i ∈ out
      · exact .inl hout
      · exact .inr (.inl (Leg.mem_fresh.2 ⟨hi, hskip, fun _ ↦ hout⟩))
    · have hlater : i ∈ out ++ first.fresh out ∨ i ∈ merge (out ++ first.fresh out) legs := ih hleg
      rcases hlater with h | h
      · exact (List.mem_append.1 h).imp_right .inl
      · exact .inr (.inr h)

/-- **Nothing comes up again** if every operand accepts what it yields. -/
theorem nodup_merge (hnodup : ∀ leg ∈ legs, leg.ids.Nodup)
    (haccept : ∀ leg ∈ legs, leg.Accepting) :
    (merge out legs).Nodup ∧ ∀ i ∈ merge out legs, i ∉ out := by
  induction legs generalizing out with
  | nil => exact ⟨List.nodup_nil, fun i hi ↦ absurd hi List.not_mem_nil⟩
  | cons leg legs ih =>
    have hfresh : ∀ i ∈ leg.fresh out, i ∉ out := by
      intro i hi
      obtain ⟨hmem, -, hout⟩ := Leg.mem_fresh.1 hi
      exact hout (haccept leg List.mem_cons_self i hmem)
    obtain ⟨hrest, hnew⟩ : (merge (out ++ leg.fresh out) legs).Nodup ∧
        ∀ i ∈ merge (out ++ leg.fresh out) legs, i ∉ out ++ leg.fresh out :=
      ih (fun leg' h ↦ hnodup leg' (List.mem_cons_of_mem leg h))
        fun leg' h ↦ haccept leg' (List.mem_cons_of_mem leg h)
    refine ⟨List.nodup_append.2 ⟨(hnodup leg List.mem_cons_self).filter _, hrest, ?_⟩, ?_⟩
    · rintro i hi _ hj rfl
      exact hnew i hj (List.mem_append_right out hi)
    · intro i hi
      rcases List.mem_append.1 hi with hi | hi
      · exact hfresh i hi
      · exact fun hout ↦ hnew i hi (List.mem_append_left _ hout)

end DirectoryQuery
