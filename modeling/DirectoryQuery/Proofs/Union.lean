import DirectoryQuery.Proofs.Judgement
import DirectoryQuery.Proofs.Relays

/-!
# Disjunctions after any moves

A relay never forgets what its operands have to skip, and moves may go either way, stop halfway or
fail.  So after some moves an entry of one operand may have to be skipped by many operands, told by
others that came up with it.  What saves the entry is that an operand is told of it only when
another one has just come up with it without having to skip it.  Hence every entry of the operands
has an *owner*, an operand that yields it and need not skip it (`Relay.Kept.owner`).  Moves may pass
the entry on to another owner, and always leave it with one.

It follows that a traversal, whatever came before it, comes up with every entry of every operand,
and with each once (`Relay.collect_after_moves`).  Operands may be cursors of any kind.
-/

set_option autoImplicit false

namespace DirectoryQuery

variable {σ : Type} {w : Walker σ} {ctx : Context} {d : Direction} {K : Candidate → Prop}

/-! ## Operands -/

namespace Walker

/-- Moves lead from things with the property to things with the property, also when they fail; and
from each of these a traversal, in both directions, either fails or visits the entries of the list,
each as often as it is listed. -/
structure Lasting (w : Walker σ) (K : Candidate → Prop) (ids : List EntryId) (P : σ → Prop) :
    Prop where
  rewind (s : σ) (d : Direction) : P s →
    (w.rewind d).Ensures s (fun _ s' ↦ P s') fun _ s' ↦ P s'
  advance (s : σ) (d : Direction) : P s →
    (w.advance d).Ensures s
      (fun found s' ↦ P s' ∧ (found = true → ∃ i ∈ ids, ∃ c, w.current s' = .ok c ∧ Stands K i c))
      fun _ s' ↦ P s'
  ready (s : σ) (d : Direction) : P s →
    ∃ order, order.Perm ids ∧ w.Ready d (fun _ ↦ True) (Stands K) order s

/-- Whatever moves were made, a traversal either fails or visits the entries of the list. -/
def Enumerates (w : Walker σ) (K : Candidate → Prop) (ids : List EntryId) (s : σ) : Prop :=
  ∃ P, P s ∧ w.Lasting K ids P

variable {ids : List EntryId} {s : σ}

theorem Enumerates.rewind (h : w.Enumerates K ids s) (d : Direction) :
    (w.rewind d).Ensures s (fun _ s' ↦ w.Enumerates K ids s') fun _ s' ↦ w.Enumerates K ids s' := by
  obtain ⟨P, hs, hP⟩ := h
  exact (hP.rewind s d hs).mono (fun _ _ hs' ↦ ⟨P, hs', hP⟩) fun _ _ hs' ↦ ⟨P, hs', hP⟩

theorem Enumerates.advance (h : w.Enumerates K ids s) (d : Direction) :
    (w.advance d).Ensures s
      (fun found s' ↦ w.Enumerates K ids s' ∧
        (found = true → ∃ i ∈ ids, ∃ c, w.current s' = .ok c ∧ Stands K i c))
      fun _ s' ↦ w.Enumerates K ids s' := by
  obtain ⟨P, hs, hP⟩ := h
  refine (hP.advance s d hs).mono ?_ fun _ _ hs' ↦ ⟨P, hs', hP⟩
  intro found s' hpost
  obtain ⟨hs', hfound⟩ := hpost
  exact ⟨⟨P, hs', hP⟩, hfound⟩

theorem Enumerates.ready (h : w.Enumerates K ids s) (d : Direction) :
    ∃ order, order.Perm ids ∧ w.Ready d (fun _ ↦ True) (Stands K) order s := by
  obtain ⟨P, hs, hP⟩ := h
  exact hP.ready s d hs

/-- Looking for a candidate that need not be skipped. -/
theorem Enumerates.seek (h : w.Enumerates K ids s) (d : Direction)
    (skipped : Std.ExtTreeSet EntryId) :
    (w.seek d (Relay.unlessSkipped skipped)).Ensures s
      (fun found s' ↦ w.Enumerates K ids s' ∧
        ∀ c, found = some c → K c ∧ c.id ∈ ids ∧ skipped.contains c.id = false)
      fun _ s' ↦ w.Enumerates K ids s' := by
  refine Act.ensures_bind (Act.ensures_get ?_)
  generalize w.extent s + 1 = moves
  induction moves generalizing s with
  | zero => exact Act.ensures_pure ⟨h, nofun⟩
  | succ moves ih =>
    refine Act.ensures_bind ((h.advance d).imp ?_)
    intro found s' hpost
    obtain ⟨hs', hfound⟩ := hpost
    cases found with
    | false => exact Act.ensures_pure ⟨hs', nofun⟩
    | true =>
      obtain ⟨i, hi, c, hc, rfl, hK⟩ := hfound rfl
      refine Act.ensures_bind (Act.ensures_tally ?_)
      refine Act.ensures_bind (Act.ensures_get (Act.ensures_ok_bind hc ?_))
      refine Act.ensures_bind (Act.ensures_attempt (Act.ensures_on ?_))
      refine (Relay.unlessSkipped_spec skipped c).mono ?_ fun _ _ h ↦ h.elim
      intro _ c' hpost
      obtain ⟨rfl, rfl⟩ := hpost
      cases hskip : skipped.contains c'.id with
      | true => exact ih hs'
      | false =>
        refine Act.ensures_pure ⟨hs', ?_⟩
        rintro _ ⟨⟩
        exact ⟨hK, hi, hskip⟩

end Walker

/-- A reel enumerates the entries of its candidates. -/
theorem Reel.enumerates {cs : List Candidate} {r : Reel} (h : Over cs r) (hK : ∀ c ∈ cs, K c) :
    walker.Enumerates K (cs.map Candidate.id) r := by
  refine ⟨Over cs, h, fun s d hs ↦ ?_, fun s d hs ↦ ?_, fun s d hs ↦ ?_⟩
  · exact (rewind_spec (E := fun _ ↦ False) hs d).mono (fun _ _ hs' ↦ hs'.1) fun _ _ he ↦ he.elim
  · refine (advance_spec (E := fun _ ↦ False) hs d).mono ?_ fun _ _ he ↦ he.elim
    intro found s' hpost
    obtain ⟨hs', hfound⟩ := hpost
    refine ⟨hs', fun hfound' ↦ ?_⟩
    have hsub := Listing.upcoming_subset cs d s.listing.standing.position
    cases hupcoming : Listing.upcoming cs d s.listing.standing.position with
    | nil =>
      rw [hupcoming, hfound'] at hfound
      exact absurd hfound Bool.true_eq_false_eq_False
    | cons c rest =>
      rw [hupcoming] at hfound hsub
      have hc : c ∈ cs := hsub List.mem_cons_self
      exact ⟨c.id, List.mem_map_of_mem hc, c, hfound.2.1, rfl, hK c hc⟩
  · refine ⟨(d.arrange cs).map Candidate.id, (d.arrange_perm cs).map _, (ready hs).map ?_⟩
    rintro c hc _ rfl
    exact ⟨rfl, hK c ((d.arrange_perm cs).subset hc)⟩

namespace Relay

/-- The operand has a cursor that enumerates the list, without repetition, and an evaluator that
accepts the entries of the list unless it fails. -/
structure Faithful (w : Walker σ) (ctx : Context) (K : Candidate → Prop) (ids : List EntryId)
    (operand : σ × Evaluator) : Prop where
  nodup : ids.Nodup
  enumerates : w.Enumerates K ids operand.1
  accepts (c : Candidate) : K c → (operand.2.evaluate ctx).Ensures c
    (fun accepted c' ↦ K c' ∧ (c.id ∈ ids → accepted = true)) fun _ _ ↦ True

/-- The relays that moves lead to, whatever the moves come to. -/
inductive Reached (w : Walker σ) (ctx : Context) (operands : List (σ × Evaluator)) :
    Relay σ → Prop
  | fresh : Reached w ctx operands (.fresh operands)
  | rewind {r : Relay σ} (h : Reached w ctx operands r) (d : Direction) (t : Trace) :
      Reached w ctx operands (StateT.run ((rewind w d).perform r) t).1.2
  | advance {r : Relay σ} (h : Reached w ctx operands r) (d : Direction) (t : Trace) :
      Reached w ctx operands (StateT.run ((advance w ctx d).perform r) t).1.2
  | begin {r : Relay σ} (h : Reached w ctx operands r) (d : Direction) (t : Trace) :
      Reached w ctx operands
        (StateT.run ((do rewind w d; advance w ctx d : Act (Relay σ) Bool).perform r) t).1.2

variable {operands : List (σ × Evaluator)} {ids : Nat → List EntryId} {r r' : Relay σ}

/-! ## What moves keep -/

/-- What moves keep, most of all that every entry has an owner. -/
structure Kept (w : Walker σ) (K : Candidate → Prop) (operands : List (σ × Evaluator))
    (ids : Nat → List EntryId) (r : Relay σ) : Prop where
  size : r.size = operands.length
  evaluators : r.lanes.map Lane.evaluator = operands.map Prod.snd
  enumerates (j : Nat) (s : σ) : r.sources[j]? = some s → w.Enumerates K (ids j) s
  active : r.active < r.size
  isOpen : r.standing.position.isClosed = false
  owner (j : Nat) (i : EntryId) : j < r.size → i ∈ ids j →
    ∃ k < r.size, i ∈ ids k ∧ r.skips k i = false

theorem kept_fresh (hpos : 0 < operands.length)
    (h : ∀ j o, operands[j]? = some o → Faithful w ctx K (ids j) o) :
    Kept w K operands ids (.fresh operands) := by
  refine ⟨size_fresh operands, ?_, ?_, by rwa [size_fresh], rfl, ?_⟩
  · show (operands.map fun o ↦ Lane.of o.2).map Lane.evaluator = operands.map Prod.snd
    rw [List.map_map]
    rfl
  · intro j s hs
    rw [getElem?_sources_fresh, Option.map_eq_some_iff] at hs
    obtain ⟨o, ho, rfl⟩ := hs
    exact (h j o ho).enumerates
  · exact fun j i hj hi ↦ ⟨j, hj, hi, skips_fresh operands j i⟩

theorem Kept.moved {s : σ} (h : Kept w K operands ids r)
    (hs : w.Enumerates K (ids r.active) s) : Kept w K operands ids (r.moved s) := by
  have hsize := size_moved r s
  refine ⟨hsize.trans h.size, h.evaluators, fun j s' hs' ↦ ?_, ?_, h.isOpen, ?_⟩
  · rcases Decidable.eq_or_ne r.active j with rfl | hne
    · obtain rfl : s = s' := by
        have hself : (r.moved s).sources[r.active]? = some s := List.getElem?_set_self h.active
        exact Option.some.inj (hself.symm.trans hs')
      exact hs
    · exact h.enumerates j s' ((List.getElem?_set_ne hne).symm.trans hs')
  · rw [hsize]
    exact h.active
  · rw [hsize]
    exact h.owner

theorem Kept.turned {j : Nat} (h : Kept w K operands ids r) (hj : j < r.size) :
    Kept w K operands ids (r.turned j) :=
  ⟨h.size, h.evaluators, h.enumerates, hj, h.isOpen, h.owner⟩

theorem Kept.stand (h : Kept w K operands ids r) {p : Position Candidate}
    (hp : p.isClosed = false) :
    Kept w K operands ids { r with standing := r.standing.moveTo p } :=
  ⟨h.size, h.evaluators, h.enumerates, h.active, hp, h.owner⟩

/-- The others may be told of an entry that the active operand need not skip: the active operand
then owns the entry. -/
theorem Kept.told {x : EntryId} (h : Kept w K operands ids r) (hx : x ∈ ids r.active)
    (hskip : r.skips r.active x = false) (ht : Told r.inactive x r r') :
    Kept w K operands ids r' := by
  have hsize : r'.size = r.size := congrArg List.length ht.sources
  refine ⟨hsize.trans h.size, ht.evaluators.trans h.evaluators, ?_, ?_, ?_, fun j i hj hi ↦ ?_⟩
  · rw [ht.sources]
    exact h.enumerates
  · rw [ht.active, hsize]
    exact h.active
  · rw [ht.standing]
    exact h.isOpen
  · rw [hsize] at hj ⊢
    obtain ⟨k, hk, hik, hskips⟩ := h.owner j i hj hi
    rcases ht.skips k i with hsame | ⟨-, rfl, -⟩
    · exact ⟨k, hk, hik, hsame.trans hskips⟩
    · refine ⟨r.active, h.active, hx, ?_⟩
      rcases ht.skips r.active i with hsame | ⟨hin, -⟩
      · exact hsame.trans hskip
      · exact absurd (List.mem_filter.1 hin).2 (by simp)

theorem Kept.answering (h : Kept w K operands ids r)
    (hop : ∀ j o, operands[j]? = some o → Faithful w ctx K (ids j) o) :
    Answering ctx K (fun _ ↦ True) ids (fun _ _ ↦ true) r := by
  intro j lane hlane c hc
  have hlane' : (r.lanes.map Lane.evaluator)[j]? = some lane.evaluator := by
    rw [List.getElem?_map, hlane]
    rfl
  rw [h.evaluators, List.getElem?_map, Option.map_eq_some_iff] at hlane'
  obtain ⟨o, ho, he⟩ := hlane'
  rw [← he]
  refine ((o.2.evaluate_id ctx c).and ((hop j o ho).accepts c hc)).mono ?_ fun _ _ _ ↦ trivial
  intro accepted c' hpost
  obtain ⟨hid, hc', haccept⟩ := hpost
  exact ⟨hid, hc', haccept⟩

/-! ## Every move -/

theorem Kept.activate (h : Kept w K operands ids r) (d : Direction) {j : Nat} (hj : j < r.size) :
    (activate w d j).Ensures r (fun _ r' ↦ Kept w K operands ids r')
      fun _ r' ↦ Kept w K operands ids r' := by
  have hturned := h.turned hj
  have hsource : (r.turned j).sources[(r.turned j).active]? = some r.sources[j] :=
    List.getElem?_eq_getElem hj
  refine Act.ensures_bind (Act.ensures_modify (ensures_onActive (r := r.turned j) hsource ?_))
  exact ((h.enumerates j _ hsource).rewind d).mono (fun _ _ hs ↦ hturned.moved hs)
    fun _ _ hs ↦ hturned.moved hs

theorem Kept.rewind (h : Kept w K operands ids r) (d : Direction) :
    (rewind w d).Ensures r (fun _ r' ↦ Kept w K operands ids r')
      fun _ r' ↦ Kept w K operands ids r' := by
  have hfirst := firstOperand_lt (Nat.zero_lt_of_lt h.active) d
  refine Act.ensures_bind (Act.ensures_get ?_)
  refine Act.ensures_ok_bind (Standing.checkOpen_eq_ok h.isOpen _) ?_
  refine Act.ensures_bind ((h.activate d hfirst).imp fun _ _ h' ↦ ?_)
  exact Act.ensures_modify (h'.stand (by cases d <;> rfl))

section Moves

variable (hop : ∀ j o, operands[j]? = some o → Faithful w ctx K (ids j) o)

include hop

theorem Kept.seekActive (h : Kept w K operands ids r) (d : Direction) :
    (seekActive w ctx d).Ensures r (fun _ r' ↦ Kept w K operands ids r')
      fun _ r' ↦ Kept w K operands ids r' := by
  obtain ⟨source, hsource⟩ : ∃ s, r.sources[r.active]? = some s :=
    ⟨_, List.getElem?_eq_getElem h.active⟩
  have hseek := (h.enumerates r.active source hsource).seek d ((r.skippedBy? r.active).getD ∅)
  refine Act.ensures_bind (Act.ensures_get (Act.ensures_bind (ensures_onActive hsource ?_)))
  refine hseek.mono ?_ fun _ s hs ↦ h.moved hs
  intro found s hpost
  obtain ⟨hs, hfound⟩ := hpost
  cases found with
  | none => exact Act.ensures_pure (h.moved hs)
  | some c =>
    obtain ⟨hc, hid, hskip⟩ := hfound c rfl
    have hmoved := h.moved hs
    have hannounce := announce_spec r.nodup_inactive (hmoved.answering hop) hc
    refine Act.ensures_bind (hannounce.mono ?_ ?_)
    · intro c' r' hpost
      obtain ⟨-, -, ht, -⟩ := hpost
      exact Act.ensures_pure (hmoved.told hid hskip ht)
    · intro e r' hpost
      obtain ⟨-, ht⟩ := hpost
      exact hmoved.told hid hskip ht

theorem Kept.sweep (h : Kept w K operands ids r) (d : Direction) (fuel : Nat) :
    (sweep w ctx d fuel).Ensures r (fun _ r' ↦ Kept w K operands ids r')
      fun _ r' ↦ Kept w K operands ids r' := by
  induction fuel generalizing r with
  | zero => exact Act.ensures_pure h
  | succ fuel ih =>
    refine Act.ensures_bind ((h.seekActive hop d).imp ?_)
    intro found r' h'
    cases found with
    | some c => exact Act.ensures_pure h'
    | none =>
      refine Act.ensures_bind (Act.ensures_get ?_)
      obtain ⟨hnone, -⟩ | ⟨j, hj, hlt, -⟩ := nextOperand?_spec h'.active d
      · rw [hnone]
        exact Act.ensures_pure h'
      · rw [hj]
        exact Act.ensures_bind ((h'.activate d hlt).imp fun _ _ h'' ↦ ih h'')

theorem Kept.advance (h : Kept w K operands ids r) (d : Direction) :
    (advance w ctx d).Ensures r (fun _ r' ↦ Kept w K operands ids r')
      fun _ r' ↦ Kept w K operands ids r' := by
  refine ensures_advance (fun _ ↦ h) (fun _ ↦ h.rewind d) (fun _ ↦ h) fun r₁ h₁ ↦ ?_
  refine (h₁.sweep hop d r.size).imp fun found r' h' ↦ h'.stand ?_
  cases found <;> cases d <;> rfl

/-- **Every entry has an owner after any moves.** -/
theorem Reached.kept (h : Reached w ctx operands r) (hpos : 0 < operands.length) :
    Kept w K operands ids r := by
  induction h with
  | fresh => exact kept_fresh hpos hop
  | rewind _ d t ih => exact (ih.rewind d).changed t
  | advance _ d t ih => exact (ih.advance hop d).changed t
  | begin _ d t ih =>
    have hbegin := Act.ensures_bind ((ih.rewind d).imp fun _ _ h' ↦ h'.advance hop d)
    exact hbegin.changed t

end Moves

/-! ## Any traversal -/

theorem Kept.length_lanes (h : Kept w K operands ids r) : r.lanes.length = r.size := by
  rw [h.size]
  simpa only [List.length_map] using congrArg List.length h.evaluators

/-- Each operand is ready to yield its entries in some order. -/
theorem Kept.exists_order (h : Kept w K operands ids r) (d : Direction) :
    ∃ order : Nat → List EntryId, (∀ j < r.size, (order j).Perm (ids j)) ∧
      Waiting w d K (fun _ ↦ True) order r (List.range r.size) := by
  have horder : ∀ j, ∃ order : List EntryId, j < r.size → order.Perm (ids j) ∧
      ∃ s, r.sources[j]? = some s ∧ w.Ready d (fun _ ↦ True) (Stands K) order s := by
    intro j
    by_cases hj : j < r.size
    · have hget := List.getElem?_eq_getElem (l := r.sources) hj
      obtain ⟨order, hperm, hready⟩ := (h.enumerates j _ hget).ready d
      exact ⟨order, fun _ ↦ ⟨hperm, _, hget, hready⟩⟩
    · exact ⟨[], fun hj' ↦ absurd hj' hj⟩
  choose order horder using horder
  exact ⟨order, fun j hj ↦ (horder j hj).1, fun j hj ↦ (horder j (List.mem_range.1 hj)).2⟩

/-- In which order the entries of the operands come does not matter to the answers. -/
theorem Answering.reorder {E : SearchError → Prop} {accepts : Nat → EntryId → Bool}
    {order : Nat → List EntryId} (h : Answering ctx K E ids accepts r)
    (hperm : ∀ j < r.lanes.length, (order j).Perm (ids j)) :
    Answering ctx K E order accepts r := by
  intro j lane hlane c hc
  obtain ⟨hj, -⟩ := List.getElem?_eq_some_iff.1 hlane
  refine (h j lane hlane c hc).imp ?_
  intro accepted c' hpost
  obtain ⟨hid, hc', haccept⟩ := hpost
  exact ⟨hid, hc', fun hmem ↦ haccept ((hperm j hj).subset hmem)⟩

/-- If every entry has an owner, merging comes up with each entry of each operand once. -/
theorem Kept.nodup_and_mem_merge (h : Kept w K operands ids r)
    (hnodup : ∀ j < r.size, (ids j).Nodup) {order : Nat → List EntryId}
    (hperm : ∀ j < r.size, (order j).Perm (ids j)) (d : Direction) :
    let found := merge [] ((d.arrange (List.range r.size)).map (leg order (fun _ _ ↦ true) r))
    found.Nodup ∧ ∀ i, i ∈ found ↔ ∃ j < r.size, i ∈ ids j := by
  have hmem : ∀ j, j ∈ d.arrange (List.range r.size) ↔ j < r.size := fun j ↦
    (d.arrange_perm _).mem_iff.trans List.mem_range
  refine ⟨(nodup_merge ?_ ?_).1, fun i ↦ ⟨fun hi ↦ ?_, ?_⟩⟩
  · intro leg' hleg
    obtain ⟨j, hj, rfl⟩ := List.mem_map.1 hleg
    rw [hmem] at hj
    exact (hperm j hj).nodup_iff.2 (hnodup j hj)
  · intro leg' hleg
    obtain ⟨j, -, rfl⟩ := List.mem_map.1 hleg
    exact fun _ _ ↦ rfl
  · obtain ⟨leg', hleg, hi, -⟩ := exists_of_mem_merge hi
    obtain ⟨j, hj, rfl⟩ := List.mem_map.1 hleg
    rw [hmem] at hj
    exact ⟨j, hj, (hperm j hj).subset hi⟩
  · rintro ⟨j, hj, hi⟩
    obtain ⟨k, hk, hik, hskip⟩ := h.owner j i hj hi
    have hleg := List.mem_map.2 ⟨k, (hmem k).2 hk, (rfl : leg order (fun _ _ ↦ true) r k = _)⟩
    have hfound : i ∈ [] ∨ i ∈ merge [] _ :=
      mem_or_mem_merge hleg ((hperm k hk).symm.subset hik) hskip
    exact hfound.resolve_left List.not_mem_nil

/-- **A traversal comes up with every entry of every operand, and with each once, whatever moves
came before it**; or else a move of it fails. -/
theorem collect_after_moves (hpos : 0 < operands.length)
    (hop : ∀ j o, operands[j]? = some o → Faithful w ctx K (ids j) o)
    (h : Reached w ctx operands r) (d : Direction) :
    ((walker w ctx).collect d).Ensures r
      (fun found _ ↦ found.Nodup ∧ ∀ i, i ∈ found ↔ ∃ j < operands.length, i ∈ ids j)
      fun _ _ ↦ True := by
  have hkept : Kept w K operands ids r := h.kept hop hpos
  have hnodup : ∀ j < r.size, (ids j).Nodup := by
    intro j hj
    rw [hkept.size] at hj
    exact (hop j _ (List.getElem?_eq_getElem hj)).nodup
  obtain ⟨order, hperm, hwait⟩ := hkept.exists_order d
  have hlanes := hkept.length_lanes
  have hanswer : Answering ctx K (fun _ ↦ True) order (fun _ _ ↦ true) r :=
    (hkept.answering hop).reorder fun j hj ↦ hperm j (hlanes ▸ hj)
  have hready := ready hanswer hlanes (Nat.zero_lt_of_lt hkept.active) hkept.isOpen hwait
  have hident : ∀ i c, Stands K i c → c.id = id i := fun _ _ hc ↦ hc.1
  refine (Walker.collect_spec hident hready).imp ?_
  rintro found r' rfl
  rw [List.map_id, ← hkept.size]
  exact hkept.nodup_and_mem_merge hnodup hperm d

/-- Two lists with an entry in common, and evaluators that accept everything: after a move backwards
a traversal forwards still comes up with each of the three entries once. -/
theorem collect_after_moves_common_entry :
    let ctx : Context := ⟨Store.empty.directory, .empty, .standard⟩
    let operands : List (Reel × Evaluator) :=
      [(.ofList [.bare 1, .bare 2], .all []), (.ofList [.bare 2, .bare 3], .all [])]
    let moved := (StateT.run ((advance Reel.walker ctx .backward).perform (.fresh operands))
      (.start .warn false)).1.2
    ((walker Reel.walker ctx).collect .forward).Ensures moved
      (fun found _ ↦ found.Nodup ∧ ∀ i, i ∈ found ↔ ∃ j < 2, i ∈ [[1, 2], [2, 3]].getD j [])
      fun _ _ ↦ True := by
  intro ctx operands moved
  have hfaithful : ∀ cs : List Candidate, (cs.map Candidate.id).Nodup →
      Faithful Reel.walker ctx (fun _ ↦ True) (cs.map Candidate.id)
        ((.ofList cs, .all []) : Reel × Evaluator) := fun cs hcs ↦
    ⟨hcs, Reel.enumerates (Reel.over_ofList cs) fun _ _ ↦ trivial,
      fun _ _ ↦ Act.ensures_pure ⟨trivial, fun _ ↦ rfl⟩⟩
  have hop : ∀ j o, operands[j]? = some o →
      Faithful Reel.walker ctx (fun _ ↦ True) ([[1, 2], [2, 3]].getD j []) o := by
    intro j o ho
    match j, ho with
    | 0, ho =>
      obtain rfl := Option.some.inj ho
      exact hfaithful [.bare 1, .bare 2] (by decide)
    | 1, ho =>
      obtain rfl := Option.some.inj ho
      exact hfaithful [.bare 2, .bare 3] (by decide)
    | j + 2, ho => exact absurd ho (Option.some_ne_none o).symm
  have hpos : 0 < operands.length := Nat.zero_lt_two
  exact collect_after_moves hpos hop (.advance .fresh _ _) _

end Relay
end DirectoryQuery
