import DirectoryQuery.Proofs.Judgement
import DirectoryQuery.Proofs.Sources
import DirectoryQuery.Proofs.Stores

/-!
# What evaluators answer about the entries of a store

In a search over a store a candidate names an entry of the store, and if an entry is attached to the
candidate it is that one (`Store.Genuine`).  Asked about such a candidate a test cannot fail, and
its answer only depends on the entry: it is `Test.verdict`, found in the postings of the entry where
the test may read an index in reverse, and in the entry itself everywhere else.  An evaluator
answers what its formula makes of the verdicts (`Evaluator.evaluate_spec`).
-/

set_option autoImplicit false

namespace DirectoryQuery

open Std

/-- The context of searches over a store. -/
def Store.context (s : Store) (r : Registry) (config : SearchConfig) : Context :=
  ⟨s.directory, r, config⟩

variable {s : Store} {r : Registry} {config : SearchConfig}

/-! ## Reading an index in reverse -/

namespace Reel

variable {cs : List Candidate} {p : Value → Bool}

theorem findKey_spec {reel : Reel} (h : Over cs reel) {l : List Candidate}
    (hl : Listing.upcoming cs .forward reel.listing.standing.position = l) {moves : Nat}
    (hmoves : l.length < moves) :
    (findKey p moves).Ensures reel
      (fun found reel' ↦ found = (l.filterMap Candidate.value).find? p ∧ Over cs reel')
      fun _ _ ↦ False := by
  induction l generalizing reel moves with
  | nil =>
    obtain ⟨moves, rfl⟩ := Nat.exists_eq_succ_of_ne_zero (n := moves) (by omega)
    refine Act.ensures_bind ((advance_spec h .forward).imp ?_)
    intro found reel' hpost
    obtain ⟨hover, hfound⟩ := hpost
    rw [hl] at hfound
    subst hfound
    exact Act.ensures_pure ⟨rfl, hover⟩
  | cons c rest ih =>
    obtain ⟨moves, rfl⟩ := Nat.exists_eq_succ_of_ne_zero (n := moves) (by omega)
    refine Act.ensures_bind ((advance_spec h .forward).imp ?_)
    intro found reel' hpost
    obtain ⟨hover, hfound⟩ := hpost
    rw [hl] at hfound
    obtain ⟨rfl, hc, hrest⟩ := hfound
    refine Act.ensures_bind (Act.ensures_get (Act.ensures_ok_bind hc ?_))
    have hlater := ih hover hrest (Nat.lt_of_succ_lt_succ hmoves)
    cases hvalue : c.value with
    | none =>
      rw [List.filterMap_cons_none hvalue]
      exact hlater
    | some v =>
      rw [List.filterMap_cons_some hvalue]
      cases hv : p v with
      | true =>
        rw [List.find?_cons_of_pos hv, Option.filter_some_pos hv]
        exact Act.ensures_pure ⟨rfl, hover⟩
      | false =>
        rw [List.find?_cons_of_neg (by rw [hv]; decide), Option.filter_some_neg hv]
        exact hlater

/-- A reel that is not monitored is closed without failure. -/
theorem release_spec {reel : Reel} (h : reel.monitor = none) (cause : Option SearchError) :
    (release cause).Ensures reel
      (fun _ reel' ↦ reel'.monitor = none ∧ reel'.listing.standing.position.isClosed = true)
      fun _ _ ↦ False := by
  have hlisting : (onListing (Listing.release cause)).Ensures reel
      (fun _ reel' ↦ reel'.monitor = none ∧ reel'.listing.standing.position.isClosed = true)
      fun _ _ ↦ False := by
    refine ensures_onListing (Act.ensures_bind (Act.ensures_get ?_))
    cases hclosed : reel.listing.standing.position.isClosed with
    | true => exact Act.ensures_pure ⟨h, hclosed⟩
    | false =>
      refine Act.ensures_bind (Act.ensures_set (Act.ensures_effect ?_))
      exact Effect.Ensures.mono (ensures_note _ _) fun _ _ ↦ ⟨h, Standing.isClosed_close _ cause⟩
  refine Act.ensures_of ?_
  rw [h]
  exact hlisting

end Reel

/-- The least key of an entry with a property is the first of its postings that has it. -/
theorem ValueIndex.firstKey?_spec {x : ValueIndex} (hx : x.hasReverse = true) (id : EntryId)
    (p : Value → Bool) :
    Attempt.Ensures (x.index.firstKey? id p)
      (fun found ↦ found = ((x.postingsAt id).map Posting.key).find? p) fun _ ↦ False := by
  have hreverse : ofStore (x.index.reverse id) =
      .ok (Reel.ofList ((x.postingsAt id).map Posting.candidate)) := by
    show ofStore ((x.reverse id).map Reel.ofList) = _
    rw [ValueIndex.reverse, if_pos hx]
    rfl
  have hkeys : ((x.postingsAt id).map Posting.candidate).filterMap Candidate.value =
      (x.postingsAt id).map Posting.key := by
    rw [List.filterMap_map, ← List.filterMap_eq_map]
    rfl
  have hover := Reel.over_ofList ((x.postingsAt id).map Posting.candidate)
  have hfind := Reel.findKey_spec (p := p) hover rfl (Nat.lt_succ_self _)
  refine Attempt.ensures_bind (Attempt.ensures_except ?_)
  rw [hreverse]
  refine Effect.ensures_bind (Effect.Ensures.mono hfind ?_)
  rintro ⟨outcome, reel⟩ houtcome
  cases outcome with
  | error e => exact houtcome.elim
  | ok found =>
    obtain ⟨rfl, hreel⟩ := houtcome
    refine Effect.ensures_bind (Effect.Ensures.mono (Reel.release_spec hreel.monitor none) ?_)
    rintro ⟨closing, reel'⟩ hclosing
    cases closing with
    | error e => exact hclosing.elim
    | ok =>
      refine Effect.ensures_pure ?_
      show List.find? p _ = _
      rw [← hkeys]
      rfl

/-! ## Verdicts -/

/-- The candidate names an entry of the store, and no other is attached to it. -/
structure Store.Genuine (s : Store) (c : Candidate) : Prop where
  stored : ∃ e, s.entries[c.id]? = some e
  record (e : Entry) : c.record = some e → s.entries[c.id]? = some e

/-- The index that a test may read in reverse. -/
def Store.reverseIndex? (s : Store) (config : SearchConfig) (t : AttributeType) :
    Option ValueIndex :=
  if config.useReverseIndex then (s.index? t).filter ValueIndex.hasReverse else none

/-- The answer of a test about an entry of the store. -/
def Test.verdict (s : Store) (config : SearchConfig) (t : Test) (id : EntryId) : Bool :=
  match s.reverseIndex? config t.subject.type with
  | some x => (x.postingsAt id).any fun p ↦ t.assertion.holds p.key
  | none => s.entries[id]?.any t.acceptsEntry

theorem Store.reverseIndex?_context (t : AttributeType) :
    (s.context r config).reverseIndex? t =
      (s.reverseIndex? config t).map ValueIndex.index := by
  show (if config.useReverseIndex then ((s.index? t).map ValueIndex.index).filter Index.hasReverse
    else none) = _
  rw [Store.reverseIndex?]
  cases config.useReverseIndex with
  | false => rfl
  | true =>
    cases s.index? t with
    | none => rfl
    | some x =>
      show (some x.index).filter Index.hasReverse = _
      rw [Option.filter_some, Option.filter_some]
      show (if x.hasReverse = true then some x.index else none) = _
      split
      · rfl
      · rfl

theorem Store.reverseIndex?_hasReverse {t : AttributeType} {x : ValueIndex}
    (h : s.reverseIndex? config t = some x) : x.hasReverse = true := by
  rw [Store.reverseIndex?] at h
  split at h
  · exact (Option.filter_eq_some_iff.1 h).2
  · exact nomatch h

theorem Test.entryOf_spec (t : Test) {c : Candidate} (hc : s.Genuine c) :
    (t.entryOf s.directory).Ensures c
      (fun e c' ↦ s.entries[c.id]? = some e ∧ c'.id = c.id ∧ s.Genuine c') fun _ _ ↦ False := by
  refine Act.ensures_bind (Act.ensures_get ?_)
  cases hrecord : c.record with
  | some e => exact Act.ensures_pure ⟨hc.record e hrecord, rfl, hc⟩
  | none =>
    refine Act.ensures_bind (Act.ensures_tally ?_)
    obtain ⟨e, he⟩ := hc.stored
    have hlookup : s.directory.lookup c.id = .ok e := by
      show s.lookup c.id = .ok e
      rw [Store.lookup, he]
    rw [hlookup]
    refine Act.ensures_bind (Act.ensures_set (Act.ensures_pure ⟨he, rfl, hc.stored, ?_⟩))
    rintro e' ⟨⟩
    exact he

/-- A test answers its verdict. -/
theorem Test.evaluate_spec (t : Test) {c : Candidate} (hc : s.Genuine c) :
    (t.evaluate (s.context r config)).Ensures c
      (fun accepted c' ↦ accepted = t.verdict s config c.id ∧ c'.id = c.id ∧ s.Genuine c')
      fun _ _ ↦ False := by
  refine Act.ensures_bind (Act.ensures_tally ?_)
  rw [Store.reverseIndex?_context, verdict]
  cases hx : s.reverseIndex? config t.subject.type with
  | some x =>
    refine Act.ensures_bind (Act.ensures_tally (Act.ensures_bind (Act.ensures_get ?_)))
    have hkey := ValueIndex.firstKey?_spec (Store.reverseIndex?_hasReverse hx) c.id
      t.assertion.holds
    refine Act.ensures_bind (Act.ensures_attempt (hkey.mono ?_ fun _ he ↦ he))
    rintro _ rfl
    refine Act.ensures_pure ⟨?_, rfl, hc⟩
    rw [List.isSome_find?, List.any_map]
    rfl
  | none =>
    refine Act.ensures_bind ((t.entryOf_spec hc).imp ?_)
    intro e c' hpost
    obtain ⟨he, hid, hc'⟩ := hpost
    rw [he, Option.any_some, acceptsEntry]
    cases t.firstValue? e with
    | none => exact Act.ensures_pure ⟨rfl, hid, hc'⟩
    | some v =>
      cases t.assertion.isPresent with
      | true => exact Act.ensures_pure ⟨rfl, hid, hc'⟩
      | false =>
        exact Act.ensures_bind (Act.ensures_modify
          (Act.ensures_pure ⟨rfl, hid, hc'.stored, hc'.record⟩))

/-- **An evaluator answers what its formula makes of the verdicts of its tests.** -/
theorem Evaluator.evaluate_spec (e : Evaluator) {c : Candidate} (hc : s.Genuine c) :
    (e.evaluate (s.context r config)).Ensures c
      (fun accepted c' ↦ accepted = e.holds (fun t ↦ t.verdict s config c.id) ∧ c'.id = c.id ∧
        s.Genuine c')
      fun _ _ ↦ False := by
  have hleaf : ∀ t ∈ e.leaves, ∀ c', c'.id = c.id ∧ s.Genuine c' →
      (t.evaluate (s.context r config)).Ensures c'
        (fun accepted c'' ↦ accepted = t.verdict s config c.id ∧ c''.id = c.id ∧ s.Genuine c'')
        fun _ _ ↦ False := by
    intro t _ c' hpost
    obtain ⟨hid, hc'⟩ := hpost
    rw [← hid]
    exact t.evaluate_spec hc'
  exact Formula.judge_spec e ⟨rfl, hc⟩ hleaf

end DirectoryQuery
