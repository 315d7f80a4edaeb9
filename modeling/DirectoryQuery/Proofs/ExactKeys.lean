import Mathlib.Data.List.Sort
import DirectoryQuery.Proofs.Postings

/-!
# The cursor over one key

A leaf that asks for one value can have its candidates from an index in two ways.  One goes through
the whole index and keeps the postings under least keys that satisfy the assertion; the other reads
what the index has under the one key that the assertion comes to, and keeps everything.

The second way is taken where the values that satisfy the assertion are that key and no others
(`Test.holds_iff_of_lookupKey`).  Then every posting that satisfies it is the least of its entry,
and the postings of the key, by identifier, are the least postings, by key and identifier
(`ValueIndex.leastPostings_of_lookupKey`).  So both cursors behave as one over the same list, and
cannot be told apart by any calls (`Cursor.ofKey_agrees_ofIndex`).
-/

set_option autoImplicit false

namespace DirectoryQuery

open Std

/-! ## The postings of the key -/

theorem Posting.Before.asymm {p q : Posting} (h : p.Before q) : ¬q.Before p := by
  have hswap : compare p.key q.key = .lt → compare q.key p.key = .gt := fun hlt ↦ by
    rw [OrientedOrd.eq_swap, hlt]
    rfl
  rcases h with hkey | ⟨hkey, hid⟩
  · rintro (hkey' | ⟨hkey', -⟩)
    · rw [hswap hkey] at hkey'
      exact Ordering.noConfusion hkey'
    · rw [hkey'] at hkey
      exact p.key.not_lt_self hkey
  · rintro (hkey' | ⟨-, hid'⟩)
    · rw [hkey] at hkey'
      exact q.key.not_lt_self hkey'
    · exact UInt64.lt_asymm hid hid'

/-- There is one list of the postings in order. -/
theorem Enumerates.eq {records : Posting → Prop} {l l' : List Posting}
    (h : Enumerates Posting.Before records l) (h' : Enumerates Posting.Before records l') :
    l = l' := by
  have hirrefl : Std.Irrefl Posting.Before := ⟨Posting.not_before_self⟩
  have hantisymm : Std.Antisymm Posting.Before :=
    ⟨fun _ _ hlt hgt ↦ absurd hgt hlt.asymm⟩
  exact h.ordered.eq_of_mem_iff h'.ordered fun p ↦ (h.mem_iff p).trans (h'.mem_iff p).symm

namespace ValueIndex

variable {x : ValueIndex} {t : Test} {key : Value} {p : Posting}

/-- Where one key satisfies the assertion, a posting under it is the least of its entry. -/
theorem leastUnder_of_lookupKey {records : Posting → Prop} (h : t.lookupKey = some key) :
    LeastUnder records t.assertion p ↔ records p ∧ p.key = key := by
  have hholds := Test.holds_iff_of_lookupKey h
  constructor
  · exact fun hleast ↦ ⟨hleast.recorded, (hholds p.key).1 hleast.holds⟩
  · rintro ⟨hp, rfl⟩
    exact ⟨hp, (hholds p.key).2 rfl, fun {q} _ _ hq ↦ .inl ((hholds q.key).1 hq)⟩

/-- The least postings are those of the key. -/
theorem leastPostings_of_lookupKey (hx : x.hasReverse = true) (h : t.lookupKey = some key) :
    x.leastPostings t.assertion = x.postingsOf key := by
  have hleast : Enumerates Posting.Before (fun p ↦ p ∈ x ∧ p.key = key)
      (x.leastPostings t.assertion) :=
    ⟨fun p ↦ (mem_leastPostings hx).trans (leastUnder_of_lookupKey h), x.ordered_toList.filter _⟩
  exact hleast.eq (x.enumerates_postingsOf key)

end ValueIndex

namespace Cursor

variable {ctx : Context} {x : ValueIndex} {key : Value} {t : Test}

/-! ## Cursors that behave as the same one -/

theorem alike_of_alike {o o₁ o₂ : Except SearchError Answer} (h₁ : Alike Eq o o₁)
    (h₂ : Alike Eq o o₂) : Alike Eq o₂ o₁ := by
  rwa [eq_of_alike h₂]

/-- Cursors that behave as the same one behave as each other. -/
theorem Behaves.of_both {P : Call → Prop} {c c' other : Cursor} (h : Behaves ctx P Eq c other)
    (h' : Behaves ctx P Eq c' other) : Behaves ctx P Eq c c' := by
  refine behaves_of_simulation
    (T := fun c c' ↦ ∃ other, Behaves ctx P Eq c other ∧ Behaves ctx P Eq c' other) ?_ ?_
    ⟨other, h, h'⟩
  · rintro c c' ⟨other, h, h'⟩
    rw [h.position_eq, h'.position_eq]
  · rintro c c' ⟨other, h, h'⟩ call hcall trace' trace
    -- What the other cursor comes to does not depend on the trace that is chosen for it.
    obtain ⟨halike, hbehaves⟩ := h.step hcall trace trace
    obtain ⟨halike', hbehaves'⟩ := h'.step hcall trace trace'
    exact ⟨alike_of_alike halike halike', _, hbehaves, hbehaves'⟩

/-! ## The cursor over one key -/

/-- The cursor over one key is made without failure. -/
theorem outcome_ofKey (x : ValueIndex) (key : Value) (trace : Trace) :
    (ofKey x.index key).outcome trace =
      .ok (sieve (.fresh .keyed (ofList (x.forwardOn key)) [])) := rfl

/-- The cursor over one key behaves as one over its postings. -/
theorem behaves_ofKey (ctx : Context) (x : ValueIndex) (key : Value) :
    Behaves ctx (fun _ ↦ True) Eq (sieve (.fresh .keyed (ofList (x.forwardOn key)) []))
      (ofList (x.forwardOn key)) := by
  have hkept : ∀ c ∈ x.forwardOn key, Acceptance.keyed.kept? ctx c = some c := by
    intro c hc
    obtain ⟨q, -, rfl⟩ := List.mem_map.1 hc
    rfl
  suffices hbehaves : Behaves ctx (fun _ ↦ True) Eq
      (sieve (.fresh .keyed (ofList (x.forwardOn key)) []))
      (ofList ((x.forwardOn key).filterMap (Acceptance.keyed.kept? ctx))) by
    rwa [List.filterMap_congr hkept, List.filterMap_some] at hbehaves
  refine (sieve_behaves (behaves_listed ctx _ trivial) ?_ ?_).2
  · rintro c hc ⟨e, c', he⟩
    obtain ⟨q, -, rfl⟩ := List.mem_map.1 hc
    cases he
  · exact fun _ c hc ↦ absurd hc List.not_mem_nil

/-- **The cursor over one key and the cursor over the index agree.**  The test may be any that has a
key to ask the index for, and the changes any that an index with a reverse half can go through.
Both cursors are made, and no calls tell them apart.  What they list are the postings of the key by
identifier, or their reverse, in every pass and whatever moves were made before. -/
theorem ofKey_agrees_ofIndex (indexed : String) (changes : List ValueIndex.Change) (t : Test)
    (key : Value) (h : t.lookupKey = some key) :
    ∃ l, Enumerates Posting.Before (fun p ↦ ValueIndex.Recorded changes p ∧ p.key = key) l ∧
      ∃ c c' : Cursor,
        (∀ trace, (ofKey (ValueIndex.changed indexed changes).index key).outcome trace = .ok c) ∧
        (∀ trace, (ofIndex (ValueIndex.changed indexed changes).index t.assertion).outcome trace =
          .ok c') ∧
        ∀ ctx, Behaves ctx (fun _ ↦ True) Eq c c' ∧ Lists ctx c (l.map Posting.candidate) ∧
          Lists ctx c' (l.map Posting.candidate) := by
  have hx := ValueIndex.hasReverse_changed indexed changes
  have hrecords : (· ∈ ValueIndex.changed indexed changes) = ValueIndex.Recorded changes :=
    funext fun _ ↦ propext ValueIndex.mem_changed
  generalize ValueIndex.changed indexed changes = x at hx hrecords
  refine ⟨x.postingsOf key, ?_, _, _, outcome_ofKey x key, outcome_ofIndex hx t.assertion,
    fun ctx ↦ ?_⟩
  · rw [← hrecords]
    exact x.enumerates_postingsOf key
  · have hkey := behaves_ofKey ctx x key
    have hindex := behaves_ofIndex ctx hx t.assertion
    rw [ValueIndex.leastPostings_of_lookupKey hx h] at hindex
    exact ⟨hkey.of_both hindex, hkey.lists, hindex.lists⟩

/-- The test for a common name asks for one key, under which the index has two entries.  One of them
has another key, which is less. -/
theorem ofKey_agrees_ofIndex_names :
    let ann : Value := .text "ann"
    let bob : Value := .text "bob"
    let x := ValueIndex.changed "cn" [.insert bob 2, .insert ann 2, .insert bob 1, .erase bob 3]
    ∃ t : Test, Clause.toTest .names ⟨"cn", .equalTo (.text "Bob")⟩ = .ok t ∧
      t.lookupKey = some bob ∧ ∃ c c' : Cursor,
        (∀ trace, (ofKey x.index bob).outcome trace = .ok c) ∧
        (∀ trace, (ofIndex x.index t.assertion).outcome trace = .ok c') ∧
        ∀ ctx, Behaves ctx (fun _ ↦ True) Eq c c' ∧
          Lists ctx c [.keyed bob 1, .keyed bob 2] ∧ Lists ctx c' [.keyed bob 1, .keyed bob 2] := by
  intro ann bob x
  have hkey : (Clause.toTest .names ⟨"cn", .equalTo (.text "Bob")⟩).toOption.any
      (fun t ↦ t.lookupKey = some bob) = true := by
    decide +kernel
  obtain ⟨t, ht, hkey⟩ := (Option.any_eq_true _ _).1 hkey
  have hkey := of_decide_eq_true hkey
  obtain ⟨l, hl, c, c', hc, hc', hboth⟩ := ofKey_agrees_ofIndex "cn"
    [.insert bob 2, .insert ann 2, .insert bob 1, .erase bob 3] t bob hkey
  have hpostings : l = [⟨bob, 1⟩, ⟨bob, 2⟩] := by
    refine hl.eq ⟨fun ⟨key, i⟩ ↦ ?_, by simp [Posting.Before]⟩
    -- What is recorded, change by change.
    show _ ↔ ((((False ∨ _) ∨ _) ∨ _) ∧ _) ∧ _
    grind
  rw [hpostings] at hboth
  exact ⟨t, toOption_eq_some.1 ht, hkey, c, c', hc, hc', hboth⟩

end Cursor
end DirectoryQuery
