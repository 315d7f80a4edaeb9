import DirectoryQuery.Proofs.Releases

/-!
# Cursors put together from reels

`Cursor.Assembled` are the cursors that are put together from reels by the functions that make
cursors, with monitors and moves wherever one likes.  Each comes with its `Roll`: what the release
of it has to come upon, in the order in which it comes to it.  Operands of a disjunction come in
their own order, those of a conjunction in the order of their estimates, and of their positions
where estimates agree (`Cursor.Precedes`).

The first release of such a cursor releases everything on the roll once, whatever fails on the way,
and its outcome is the first failure on the roll (`Cursor.release_assembled`).
-/

set_option autoImplicit false

namespace DirectoryQuery

/-! ## Rolls -/

/-- What a release has to come upon. -/
structure Roll where
  /-- The labels of the monitors, in the order in which the release comes to them. -/
  labels : List String
  /-- The kinds of the cursors with others within them, in the order in which it comes to them. -/
  kinds : List String
  /-- The failures of the monitors that do not let themselves be released, in the order in which
  they occur. -/
  failures : List SearchError

namespace Roll

/-- The roll of a reel. -/
def ofReel (r : Reel) : Roll := ⟨r.labels, [], r.failure?.toList⟩

/-- The roll with a monitor in front of everything on it. -/
def behind (m : Monitor) (roll : Roll) : Roll :=
  ⟨m.label :: roll.labels, roll.kinds, roll.failures ++ m.failure?.toList⟩

/-- The roll of a cursor of the kind with the cursors of the given rolls within it. -/
def headed (kind : String) (rolls : List Roll) : Roll :=
  ⟨rolls.flatMap labels, kind :: rolls.flatMap kinds, rolls.flatMap failures⟩

/-- The roll of parts. -/
def ofParts (ps : List Part) : Roll :=
  ⟨ps.filterMap Part.label?, ps.filterMap Part.kind?, ps.filterMap Part.failure?⟩

end Roll

namespace Cursor

/-- The roll of a cursor. -/
def roll (c : Cursor) : Roll := .ofParts c.parts

theorem roll_reel (r : Reel) : (reel r).roll = .ofReel r := by
  cases hm : r.monitor with
  | none =>
    simp [roll, Roll.ofParts, Roll.ofReel, parts, Reel.parts, Reel.rested, Reel.labels,
      Reel.failure?, hm]
  | some m =>
    cases hfail : m.failure? <;>
      simp [roll, Roll.ofParts, Roll.ofReel, parts, Reel.parts, Reel.rested, Reel.labels,
        Reel.failure?, Part.label?, Part.kind?, Part.failure?, List.filterMap_cons, hm, hfail]

theorem roll_monitored (m : Monitor) (c : Cursor) : (monitored m c).roll = c.roll.behind m := by
  cases hfail : m.failure? <;>
    simp [roll, Roll.ofParts, Roll.behind, parts, Part.label?, Part.kind?, Part.failure?,
      List.filterMap_cons, hfail]

/-- The roll of a cursor that has others within it. -/
theorem ofParts_cons {part : Part} {kind : String} (h : part.kind? = some kind) (cs : List Cursor) :
    Roll.ofParts (part :: cs.flatMap parts) = .headed kind (cs.map roll) := by
  simp [Roll.ofParts, Roll.headed, h, Part.label?_of_kind? h,
    Part.failure?_of_kind? h, List.filterMap_flatMap, List.flatMap_map, roll]

variable {c : Cursor}

/-! ## The order of the operands -/

section Sorting

variable {α : Type} {key : α → Nat} {R : α → α → Prop} {l : List α}

/-- Sorting by a key leaves the elements of one key in their order. -/
theorem filter_mergeSort (k : Nat) :
    (l.mergeSort fun a b ↦ key a ≤ key b).filter (fun a ↦ key a == k) =
      l.filter fun a ↦ key a == k := by
  have hsorted : (l.filter fun a ↦ key a == k).Pairwise
      fun a b ↦ decide (key a ≤ key b) = true := by
    refine List.pairwise_of_forall_mem_list fun a ha b hb ↦ ?_
    grind
  -- The elements of one key are sorted already, so they come out of the sort in their order; and
  -- there are no others of that key.
  have hsublist := List.sublist_mergeSort (by grind) (by grind) hsorted List.filter_sublist
  have hfilter := hsublist.filter fun a ↦ key a == k
  rw [List.filter_filter] at hfilter
  simp only [Bool.and_self] at hfilter
  refine (hfilter.eq_of_length ?_).symm
  exact ((List.mergeSort_perm l _).filter _).length_eq.symm

/-- What is sorted by a key is in the order of the keys, and within one key in the order before. -/
theorem pairwise_mergeSort_key (h : l.Pairwise R) :
    (l.mergeSort fun a b ↦ key a ≤ key b).Pairwise
      fun a b ↦ key a < key b ∨ key a = key b ∧ R a b := by
  rw [List.pairwise_iff_forall_sublist] at h ⊢
  intro a b hab
  have hle : key a ≤ key b := by
    have hsorted : (l.mergeSort fun a b ↦ key a ≤ key b).Pairwise
        fun a b ↦ decide (key a ≤ key b) = true :=
      List.pairwise_mergeSort (by grind) (by grind) l
    simpa using List.pairwise_iff_forall_sublist.1 hsorted hab
  rcases Nat.lt_or_eq_of_le hle with hlt | heq
  · exact .inl hlt
  · have hfilter := hab.filter fun x ↦ key x == key b
    rw [filter_mergeSort] at hfilter
    simp only [List.filter_cons, heq, beq_self_eq_true, if_true, List.filter_nil] at hfilter
    exact .inr ⟨heq, h (hfilter.trans List.filter_sublist)⟩

end Sorting

/-- A release comes to the one operand of a conjunction before the other: it has the smaller
estimate, or the same estimate and the smaller position. -/
def Precedes (a b : Operand × Nat) : Prop :=
  driverRank a.1 < driverRank b.1 ∨ driverRank a.1 = driverRank b.1 ∧ a.2 < b.2

theorem pairwise_ranked (operands : List Operand) : (ranked operands).Pairwise Precedes := by
  refine pairwise_mergeSort_key ?_
  have hpositions : (operands.zipIdx.map Prod.snd).Pairwise (· < ·) := by
    rw [List.zipIdx_map_snd]
    exact List.pairwise_lt_range' 1
  exact List.pairwise_map.1 hpositions

/-- Each operand is ranked along with its position. -/
theorem mem_ranked {operands : List Operand} {o : Operand} {k : Nat} :
    (o, k) ∈ ranked operands ↔ operands[k]? = some o := by
  rw [ranked, List.mem_mergeSort, List.mem_zipIdx_iff_getElem?]

/-- There is one order of the operands. -/
theorem ranked_eq {operands : List Operand} {order : List (Operand × Nat)}
    (hperm : order.Perm operands.zipIdx) (hsorted : order.Pairwise Precedes) :
    ranked operands = order := by
  refine List.Perm.eq_of_pairwise ?_ (pairwise_ranked operands) hsorted
    ((List.mergeSort_perm _ _).trans hperm.symm)
  intro a b _ _ hab hba
  unfold Precedes at hab hba
  omega

/-- The operand at the position comes before all others: none has a smaller rank, and none with the
same rank is earlier. -/
def Leads {ρ : Type} [LT ρ] (rank : Operand → ρ) (operands : List Operand) (j : Nat) : Prop :=
  ∃ o, operands[j]? = some o ∧
    ∀ k o', operands[k]? = some o' → rank o < rank o' ∨ rank o = rank o' ∧ j ≤ k

/-- Only one operand comes before all others. -/
theorem Leads.unique {ρ : Type} [Preorder ρ] {rank : Operand → ρ} {operands : List Operand}
    {j k : Nat} (hj : Leads rank operands j) (hk : Leads rank operands k) : j = k := by
  obtain ⟨o, ho, hfirst⟩ := hj
  obtain ⟨o', ho', hfirst'⟩ := hk
  rcases hfirst k o' ho' with hlt | ⟨heq, hle⟩
  · rcases hfirst' j o ho with hlt' | ⟨heq', -⟩
    · exact absurd hlt' hlt.asymm
    · exact absurd heq'.symm hlt.ne
  · rcases hfirst' j o ho with hlt' | ⟨-, hle'⟩
    · exact absurd heq.symm hlt'.ne
    · exact Nat.le_antisymm hle hle'

/-- The operand that drives comes before all others by its rank. -/
theorem leads_of_ranked {operands : List Operand} {driver : Operand} {j : Nat}
    {others : List (Operand × Nat)} (h : ranked operands = (driver, j) :: others) :
    operands[j]? = some driver ∧ Leads driverRank operands j := by
  have hsorted := pairwise_ranked operands
  rw [h, List.pairwise_cons] at hsorted
  have hdriver : operands[j]? = some driver := mem_ranked.1 (h ▸ List.mem_cons_self)
  refine ⟨hdriver, driver, hdriver, fun k o ho ↦ ?_⟩
  rcases List.mem_cons.1 (h ▸ mem_ranked.2 ho) with heq | hmem
  · obtain ⟨rfl, rfl⟩ := Prod.mk.inj heq
    exact .inr ⟨rfl, Nat.le_refl _⟩
  · exact (hsorted.1 _ hmem).imp_right fun hprecedes ↦ ⟨hprecedes.1, Nat.le_of_lt hprecedes.2⟩

/-! ## Making cursors -/

/-- The log line about the making of a cursor. -/
def creationLine (kind : String) (operands : Nat) : LogLine :=
  .ofEvent .cursorCreated [("kind", kind), ("operands", toString operands)]

/-- A cursor was made that has the others within it, and that was logged. -/
structure MadeOf (part : Part) (cs : List Cursor) (c : Cursor) (p : Footprint) : Prop where
  parts : c.parts = part :: cs.flatMap parts
  isOpen : part.isClosed = false
  footprint : ∃ kind operands, p = .ofLine (creationLine kind operands)

theorem made_sieve (x : Acceptance) (source : Cursor) (idle : List Cursor) (kind : String)
    (n : Nat) : MadeOf (.sieve x false) (source :: idle) (sieve (.fresh x source idle))
      (.ofLine (creationLine kind n)) :=
  ⟨by rw [parts_sieve, partsOf_eq_flatMap]; rfl, rfl, kind, n, rfl⟩

theorem made_relay (operands : List Operand) (kind : String) (n : Nat) :
    MadeOf (.relay false) (operands.map Operand.cursor)
      (relay (.fresh (operands.map fun o ↦ (o.cursor, o.evaluator))))
      (.ofLine (creationLine kind n)) := by
  refine ⟨?_, rfl, kind, n, rfl⟩
  rw [parts_relay, ← List.flatMap_def]
  simp [Relay.fresh, Standing.fresh, Position.isClosed, Function.comp_def]

theorem MadeOf.roll {part : Part} {kind : String} {cs : List Cursor} {c : Cursor} {p : Footprint}
    (h : MadeOf part cs c p) (hkind : part.kind? = some kind) :
    c.roll = .headed kind (cs.map Cursor.roll) := by
  rw [Cursor.roll, h.parts, ofParts_cons hkind]

theorem scan_madeOf (source : Cursor) (e : Evaluator) :
    Effect.Leaves (scan source e) (MadeOf (.sieve (.matching e) false) [source]) :=
  Effect.leaves_bind (Effect.leaves_note (Effect.leaves_pure (made_sieve ..)))

theorem negation_madeOf (source : Cursor) (e : Evaluator) :
    Effect.Leaves (negation source e) (MadeOf (.sieve (.rejecting e) false) [source]) :=
  Effect.leaves_bind (Effect.leaves_note (Effect.leaves_pure (made_sieve ..)))

theorem ofIndex_madeOf (x : Index) (a : Assertion) :
    Attempt.Leaves (ofIndex x a)
      (fun c p ↦ ∃ r, x.forward = .ok r ∧ MadeOf (.sieve (.indexed x a) false) [reel r] c p)
      fun _ p ↦ p = .nothing := by
  unfold ofIndex
  cases x.hasReverse with
  | false => exact Effect.leaves_pure rfl
  | true =>
    refine Attempt.leaves_bind (Attempt.leaves_except ?_)
    cases hr : x.forward with
    | error e => exact rfl
    | ok r =>
      refine Attempt.leaves_bind (Attempt.leaves_effect (Effect.leaves_note ?_))
      exact Attempt.leaves_pure ⟨r, rfl, made_sieve ..⟩

theorem ofKey_madeOf (x : Index) (key : Value) :
    Attempt.Leaves (ofKey x key)
      (fun c p ↦ ∃ r, x.forwardOn key = .ok r ∧ MadeOf (.sieve .keyed false) [reel r] c p)
      fun _ p ↦ p = .nothing := by
  refine Attempt.leaves_bind (Attempt.leaves_except ?_)
  cases hr : x.forwardOn key with
  | error e => exact rfl
  | ok r =>
    refine Attempt.leaves_bind (Attempt.leaves_effect (Effect.leaves_note ?_))
    exact Attempt.leaves_pure ⟨r, rfl, made_sieve ..⟩

theorem conjunction_madeOf (operands : List Operand) :
    Attempt.Leaves (conjunction operands)
      (fun c p ↦ ∃ position evaluators, MadeOf (.sieve (.joint position evaluators) false)
        ((ranked operands).map fun o ↦ o.1.cursor) c p)
      fun _ p ↦ p = .nothing := by
  unfold conjunction
  cases ranked operands with
  | nil => exact Effect.leaves_pure rfl
  | cons driver others =>
    refine Attempt.leaves_bind (Attempt.leaves_effect (Effect.leaves_note ?_))
    exact Attempt.leaves_pure ⟨driver.2, _, made_sieve ..⟩

theorem disjunction_madeOf (operands : List Operand) :
    Attempt.Leaves (disjunction operands)
      (fun c p ↦ MadeOf (.relay false) (operands.map Operand.cursor) c p)
      fun _ p ↦ p = .nothing := by
  unfold disjunction
  by_cases h : operands.length < 2
  · rw [if_pos h]
    exact Effect.leaves_pure rfl
  · rw [if_neg h]
    refine Attempt.leaves_bind (Attempt.leaves_effect (Effect.leaves_note ?_))
    exact Attempt.leaves_pure (made_relay ..)

/-! ## Putting cursors together -/

/-- The cursor is put together from reels and has the roll.  There may be a monitor in front of any
cursor, and cursors may be moved before others are put on top of them. -/
inductive Assembled : Cursor → Roll → Prop
  | reel (r : Reel) : Assembled (reel r) (.ofReel r)
  | monitored {c : Cursor} {roll : Roll} (m : Monitor) (h : Assembled c roll) :
      Assembled (monitored m c) (roll.behind m)
  | scan {source : Cursor} {roll : Roll} (h : Assembled source roll) (e : Evaluator)
      (t : Trace) : Assembled (StateT.run (Cursor.scan source e) t).1 (.headed "scan" [roll])
  | negation {source : Cursor} {roll : Roll} (h : Assembled source roll) (e : Evaluator)
      (t : Trace) : Assembled (StateT.run (Cursor.negation source e) t).1 (.headed "not" [roll])
  | index {x : Index} {r : Reel} (hr : x.forward = .ok r) {a : Assertion} {t : Trace} {c : Cursor}
      (hc : (ofIndex x a).outcome t = .ok c) :
      Assembled c (.headed "index" [.ofReel r])
  | key {x : Index} {key : Value} {r : Reel} (hr : x.forwardOn key = .ok r) {t : Trace} {c : Cursor}
      (hc : (ofKey x key).outcome t = .ok c) :
      Assembled c (.headed "index" [.ofReel r])
  | conjunction (operands : List Operand) (rolls : Nat → Roll)
      (hparts : ∀ o ∈ operands.zipIdx, Assembled o.1.cursor (rolls o.2))
      {order : List (Operand × Nat)} (hperm : order.Perm operands.zipIdx)
      (hsorted : order.Pairwise Precedes) {t : Trace} {c : Cursor}
      (hc : (Cursor.conjunction operands).outcome t = .ok c) :
      Assembled c (.headed "and" (order.map fun o ↦ rolls o.2))
  | disjunction (operands : List Operand) (rolls : Nat → Roll)
      (hparts : ∀ o ∈ operands.zipIdx, Assembled o.1.cursor (rolls o.2)) {t : Trace} {c : Cursor}
      (hc : (Cursor.disjunction operands).outcome t = .ok c) :
      Assembled c (.headed "or" (operands.zipIdx.map fun o ↦ rolls o.2))
  | moved {c : Cursor} {roll : Roll} (h : Assembled c roll) (ctx : Context) {call : Call}
      (hcall : call.IsMove) (t : Trace) : Assembled (call.run ctx t c).2 roll

/-- Moves leave the parts as they are. -/
theorem parts_run {ctx : Context} {call : Call} (hcall : call.IsMove) (t : Trace) (c : Cursor) :
    (call.run ctx t c).2.parts = c.parts :=
  lasting_parts.run hcall t c

/-- The cursor is not closed anywhere and has the roll. -/
structure OpenWith (c : Cursor) (roll : Roll) : Prop where
  isOpen : c.IsOpen
  roll : c.roll = roll

theorem openWith_reel (r : Reel) : (reel r).OpenWith (.ofReel r) := ⟨isOpen_reel r, roll_reel r⟩

section MadeOf

variable {part : Part} {kind : String} {p : Footprint} (hkind : part.kind? = some kind)

include hkind

/-- What was made of cursors in which nothing is closed has their rolls on its own. -/
theorem MadeOf.openWith_map {ι : Type} {l : List ι} {f : ι → Cursor} {g : ι → Roll}
    (h : MadeOf part (l.map f) c p) (hl : ∀ i ∈ l, (f i).OpenWith (g i)) :
    c.OpenWith (.headed kind (l.map g)) where
  isOpen part' hpart := by
    rw [h.parts, List.mem_cons, List.mem_flatMap] at hpart
    rcases hpart with rfl | ⟨c', hc', hpart⟩
    · exact h.isOpen
    · obtain ⟨i, hi, rfl⟩ := List.mem_map.1 hc'
      exact (hl i hi).isOpen part' hpart
  roll := by
    have hrolls : (l.map f).map Cursor.roll = l.map g := by
      rw [List.map_map]
      exact List.map_congr_left fun i hi ↦ (hl i hi).roll
    rw [h.roll hkind, hrolls]

theorem MadeOf.openWith {source : Cursor} {roll : Roll} (h : MadeOf part [source] c p)
    (hsource : source.OpenWith roll) : c.OpenWith (.headed kind [roll]) :=
  MadeOf.openWith_map (l := [()]) (f := fun _ ↦ source) (g := fun _ ↦ roll) hkind h
    fun _ _ ↦ hsource

end MadeOf

/-- A cursor that is put together is not closed anywhere, and has the roll it is said to have. -/
theorem Assembled.openWith {roll : Roll} (h : Assembled c roll) : c.OpenWith roll := by
  induction h with
  | reel r => exact openWith_reel r
  | monitored m _ ih => exact ⟨isOpen_monitored.2 ih.isOpen, by rw [roll_monitored, ih.roll]⟩
  | scan _ e t ih =>
    obtain ⟨p, -, hmade⟩ := (scan_madeOf _ e).run t
    exact hmade.openWith rfl ih
  | negation _ e t ih =>
    obtain ⟨p, -, hmade⟩ := (negation_madeOf _ e).run t
    exact hmade.openWith rfl ih
  | index hr hc =>
    obtain ⟨p, r, hr', hmade⟩ := (ofIndex_madeOf _ _).run_ok hc
    obtain rfl := Except.ok.inj (hr.symm.trans hr')
    exact hmade.openWith rfl (openWith_reel _)
  | key hr hc =>
    obtain ⟨p, r, hr', hmade⟩ := (ofKey_madeOf _ _).run_ok hc
    obtain rfl := Except.ok.inj (hr.symm.trans hr')
    exact hmade.openWith rfl (openWith_reel _)
  | conjunction _ _ _ hperm hsorted hc ih =>
    obtain ⟨p, position, evaluators, hmade⟩ := (conjunction_madeOf _).run_ok hc
    rw [ranked_eq hperm hsorted] at hmade
    exact hmade.openWith_map rfl fun o ho ↦ ih o (hperm.mem_iff.1 ho)
  | disjunction operands _ _ hc ih =>
    obtain ⟨p, hmade⟩ := (disjunction_madeOf _).run_ok hc
    have hcursors : operands.map Operand.cursor = operands.zipIdx.map fun o ↦ o.1.cursor := by
      calc operands.map Operand.cursor
          = (operands.zipIdx.map Prod.fst).map Operand.cursor := by rw [List.zipIdx_map_fst]
        _ = operands.zipIdx.map fun o ↦ o.1.cursor := List.map_map
    rw [hcursors] at hmade
    exact hmade.openWith_map rfl ih
  | @moved c _ _ ctx call hcall t ih =>
    have hparts : (call.run ctx t c).2.parts = c.parts := parts_run hcall t c
    exact ⟨by rw [IsOpen, hparts]; exact ih.isOpen, by rw [Cursor.roll, hparts]; exact ih.roll⟩

/-- **The first release of a cursor that is put together.**  It releases every monitor once,
whatever fails on the way, and comes to the first failure if there is one.  Every cursor is closed
afterwards, and of those with others within them the closing was logged once. -/
theorem release_assembled {roll : Roll} (h : Assembled c roll) (cause : Option SearchError) :
    Effect.Leaves ((release cause).perform c) fun r p ↦
      r.1 = firstFailure roll.failures ∧
      p.releases = roll.labels.reverse ∧
      p.lines.filter (fun l ↦ !l.isAside) = (roll.kinds.map (closingLine cause)).reverse ∧
      r.2.ClosedThroughout := by
  obtain ⟨hopen, rfl⟩ := h.openWith
  refine Effect.Leaves.mono (releaseTree_leaves cause c hopen) fun r p hpost ↦ ?_
  obtain ⟨hreleased, hclosed⟩ := hpost
  exact ⟨hreleased.outcome, hreleased.clears.releases, hreleased.clears.lines, hclosed⟩

/-- Of three operands the second one, a disjunction, has the smallest estimate and the third one has
none.  So the failure in the disjunction comes before that of the first operand. -/
theorem release_assembled_disjunction_first :
    let watched (label : String) (failsToClose : Bool) : Reel :=
      ⟨.ofList [.bare 1], some ⟨label, none, failsToClose, 0⟩⟩
    let either : Cursor := relay (.fresh
      [(.reel (watched "b" true), .all []), (.reel (watched "c" false), .all [])])
    let operands : List Operand := [⟨.reel (watched "a" true), .all [], some 5⟩,
      ⟨either, .all [], some 2⟩, ⟨.reel (watched "d" false), .all [], none⟩]
    ∃ c, (Cursor.conjunction operands).outcome (.start .warn false) = .ok c ∧
      Effect.Leaves ((release none).perform c) fun r p ↦
        r.1 = .error (.evaluation "b" "refused to close" none) ∧
        p.releases = ["d", "a", "c", "b"] ∧
        p.lines.filter (fun l ↦ !l.isAside) = [closingLine none "or", closingLine none "and"] ∧
        r.2.ClosedThroughout := by
  intro watched either operands
  have hreel (label : String) (failsToClose : Bool) :
      Assembled (.reel (watched label failsToClose)) (.ofReel (watched label failsToClose)) :=
    .reel _
  have heither : Assembled either (.headed "or"
      [.ofReel (watched "b" true), .ofReel (watched "c" false)]) := by
    refine .disjunction [⟨.reel (watched "b" true), .all [], none⟩,
      ⟨.reel (watched "c" false), .all [], none⟩]
      (fun i ↦ if i = 0 then .ofReel (watched "b" true) else .ofReel (watched "c" false)) ?_
      (t := .start .warn false) rfl
    simp [hreel]
  let order : List (Operand × Nat) := [(⟨either, .all [], some 2⟩, 1),
    (⟨.reel (watched "a" true), .all [], some 5⟩, 0),
    (⟨.reel (watched "d" false), .all [], none⟩, 2)]
  have hperm : order.Perm operands.zipIdx := List.Perm.swap _ _ _
  have hsorted : order.Pairwise Precedes := by
    simp [order, Precedes, driverRank, greatestEstimate, UInt64.size]
  have hc : (Cursor.conjunction operands).outcome (.start .warn false) =
      .ok (sieve (.fresh (.joint 1 [.all [], .all []]) either
        [.reel (watched "a" true), .reel (watched "d" false)])) := by
    rw [Cursor.conjunction, ranked_eq hperm hsorted]
    rfl
  have hassembled : Assembled _ _ := .conjunction operands
    (fun i ↦ if i = 0 then .ofReel (watched "a" true) else if i = 1 then .headed "or"
      [.ofReel (watched "b" true), .ofReel (watched "c" false)] else .ofReel (watched "d" false))
    (by simp [operands, hreel, heither]) hperm hsorted hc
  exact ⟨_, hc, release_assembled hassembled none⟩

end Cursor
end DirectoryQuery
