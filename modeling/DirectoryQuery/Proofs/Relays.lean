import Mathlib.Algebra.Order.BigOperators.Group.List
import Mathlib.Algebra.Order.Group.Nat
import DirectoryQuery.Cursor.Relay
import DirectoryQuery.Proofs.Merge
import DirectoryQuery.Proofs.Sources

/-!
# Traversals of relays

A relay goes through what `merge` makes of its operands (`Relay.ready`).  What the operands have to
skip at the start may be anything, so this holds for a relay that was never moved and for one that
has been through any moves before.

While a traversal is under way, the operands still to come are described by `Relay.upcoming`, and
`Relay.Passing` says what is known of them and of the active one.  To ask operands about a candidate
changes only what they have to skip, and only for this candidate (`Relay.Told`); by `merge_told`
what is left of the traversal is then one candidate shorter.
-/

set_option autoImplicit false

namespace DirectoryQuery

open Std

/-- Asked about a candidate of an allowed kind, the evaluator keeps it one and the same entry, and
accepts those entries of the list that it is said to accept. -/
def Answers (ctx : Context) (K : Candidate → Prop) (E : SearchError → Prop) (e : Evaluator)
    (ids : List EntryId) (accepts : EntryId → Bool) : Prop :=
  ∀ c, K c → (e.evaluate ctx).Ensures c
    (fun accepted c' ↦ c'.id = c.id ∧ K c' ∧ (c.id ∈ ids → accepted = accepts c.id)) fun e _ ↦ E e

namespace Relay

variable {σ : Type} {w : Walker σ} {ctx : Context} {d : Direction} {K : Candidate → Prop}
  {E : SearchError → Prop} {ids : Nat → List EntryId} {accepts : Nat → EntryId → Bool}
  {r r' r'' : Relay σ}

/-- Whether an operand has to skip an entry. -/
def skips (r : Relay σ) (j : Nat) (i : EntryId) : Bool := ((r.skippedBy? j).getD ∅).contains i

/-- How many elements the operands have together at most. -/
def extent (w : Walker σ) (r : Relay σ) : Nat := (r.sources.map w.extent).sum

/-- How to move a relay. -/
def walker (w : Walker σ) (ctx : Context) : Walker (Relay σ) :=
  ⟨rewind w, advance w ctx, current, extent w⟩

theorem skips_fresh (operands : List (σ × Evaluator)) (j : Nat) (i : EntryId) :
    (fresh operands).skips j i = false := by
  show (((operands.map fun o ↦ Lane.of o.2)[j]?.map Lane.skipped).getD ∅).contains i = false
  rw [List.getElem?_map]
  cases operands[j]? with
  | none => exact ExtTreeSet.contains_empty
  | some o => exact ExtTreeSet.contains_empty

theorem size_fresh (operands : List (σ × Evaluator)) : (fresh operands).size = operands.length :=
  List.length_map _

theorem length_lanes_fresh (operands : List (σ × Evaluator)) :
    (fresh operands).lanes.length = operands.length :=
  List.length_map _

theorem getElem?_sources_fresh (operands : List (σ × Evaluator)) (j : Nat) :
    (fresh operands).sources[j]? = operands[j]?.map Prod.fst :=
  List.getElem?_map

theorem getElem?_lanes_fresh (operands : List (σ × Evaluator)) (j : Nat) :
    (fresh operands).lanes[j]? = operands[j]?.map fun o ↦ Lane.of o.2 :=
  List.getElem?_map

/-! ## Asking operands about a candidate -/

/-- After the operands `js` were asked about the entry `x`, nothing but that these operands skip
this entry can be new. -/
structure Told (js : List Nat) (x : EntryId) (r r' : Relay σ) : Prop where
  sources : r'.sources = r.sources
  active : r'.active = r.active
  standing : r'.standing = r.standing
  evaluators : r'.lanes.map Lane.evaluator = r.lanes.map Lane.evaluator
  skips : ∀ j i, r'.skips j i = r.skips j i ∨ j ∈ js ∧ i = x ∧ r'.skips j i = true

theorem Told.refl (js : List Nat) (x : EntryId) (r : Relay σ) : Told js x r r :=
  ⟨rfl, rfl, rfl, rfl, fun _ _ ↦ .inl rfl⟩

theorem Told.mono {js js' : List Nat} {x : EntryId} (h : Told js x r r') (hjs : js ⊆ js') :
    Told js' x r r' :=
  ⟨h.sources, h.active, h.standing, h.evaluators, fun j i ↦ (h.skips j i).imp_right
    fun hnew ↦ ⟨hjs hnew.1, hnew.2⟩⟩

theorem Told.trans {js : List Nat} {x : EntryId} (h : Told js x r r') (h' : Told js x r' r'') :
    Told js x r r'' := by
  refine ⟨h'.sources.trans h.sources, h'.active.trans h.active, h'.standing.trans h.standing,
    h'.evaluators.trans h.evaluators, fun j i ↦ ?_⟩
  rcases h'.skips j i with hsame | hnew
  · rw [hsame]
    exact h.skips j i
  · exact .inr hnew

theorem skips_skip (r : Relay σ) (operand j : Nat) (x i : EntryId) :
    (r.skip operand x).skips j i =
      (r.skips j i || (operand == j && decide (j < r.lanes.length) && x == i)) := by
  have hget : (r.skip operand x).lanes[j]? =
      r.lanes[j]?.map fun lane ↦ if operand = j then lane.skip x else lane :=
    List.getElem?_modify _ _ _ _
  rw [skips, skips, skippedBy?, skippedBy?, hget]
  cases hlane : r.lanes[j]? with
  | none =>
    have hj : ¬j < r.lanes.length := Nat.not_lt.2 (List.getElem?_eq_none_iff.1 hlane)
    simp [hj]
  | some lane =>
    obtain ⟨hj, -⟩ := List.getElem?_eq_some_iff.1 hlane
    by_cases hop : operand = j
    · have hinsert : (lane.skipped.insert x).contains i = (x == i || lane.skipped.contains i) := by
        rw [ExtTreeSet.contains_insert, Bool.eq_iff_iff]
        simp only [Bool.or_eq_true, beq_iff_eq, Std.compare_eq_iff_eq]
      simp [hop, hj, Lane.skip, hinsert, Bool.or_comm]
    · simp [hop]

theorem told_skip (r : Relay σ) (operand : Nat) (x : EntryId) :
    Told [operand] x r (r.skip operand x) := by
  refine ⟨rfl, rfl, rfl, ?_, fun j i ↦ ?_⟩
  · refine List.ext_getElem? fun j ↦ ?_
    rw [List.getElem?_map, List.getElem?_map, skip, List.getElem?_modify]
    cases r.lanes[j]? with
    | none => rfl
    | some lane => by_cases hop : operand = j <;> simp [hop, Lane.skip]
  · rw [skips_skip]
    by_cases hnew : (operand == j && decide (j < r.lanes.length) && x == i) = true
    · obtain ⟨⟨hop, -⟩, hx⟩ := by simpa only [Bool.and_eq_true, beq_iff_eq] using hnew
      exact .inr ⟨List.mem_singleton.2 hop.symm, hx.symm, by rw [hnew, Bool.or_true]⟩
    · exact .inl (by rw [Bool.eq_false_iff.2 hnew, Bool.or_false])

/-- All operands answer as given. -/
def Answering (ctx : Context) (K : Candidate → Prop) (E : SearchError → Prop)
    (ids : Nat → List EntryId) (accepts : Nat → EntryId → Bool) (r : Relay σ) : Prop :=
  ∀ j lane, r.lanes[j]? = some lane → Answers ctx K E lane.evaluator (ids j) (accepts j)

theorem Answering.told {js : List Nat} {x : EntryId} (h : Answering ctx K E ids accepts r)
    (ht : Told js x r r') : Answering ctx K E ids accepts r' := by
  intro j lane hlane
  have hsame : (r.lanes.map Lane.evaluator)[j]? = some lane.evaluator := by
    rw [← ht.evaluators, List.getElem?_map, hlane]
    rfl
  rw [List.getElem?_map, Option.map_eq_some_iff] at hsame
  obtain ⟨lane', hlane', he⟩ := hsame
  rw [← he]
  exact h j lane' hlane'

theorem Told.length_lanes {js : List Nat} {x : EntryId} (h : Told js x r r') :
    r'.lanes.length = r.lanes.length := by
  simpa only [List.length_map] using congrArg List.length h.evaluators

/-- Those of the operands `js` whose lists have the entry `x` now skip it if they accept it. -/
def Heard (ids : Nat → List EntryId) (accepts : Nat → EntryId → Bool) (js : List Nat) (x : EntryId)
    (r r' : Relay σ) : Prop :=
  ∀ j ∈ js, j < r.lanes.length → x ∈ ids j → r'.skips j x = (r.skips j x || accepts j x)

/-- An operand that there is not need not be asked. -/
theorem Heard.cons_absent {operand : Nat} {js : List Nat} {x : EntryId}
    (habsent : r.lanes[operand]? = none) (h : Heard ids accepts js x r r') :
    Heard ids accepts (operand :: js) x r r' := by
  intro j hj hlt hmem
  rcases List.mem_cons.1 hj with rfl | hj
  · exact absurd hlt (Nat.not_lt.2 (List.getElem?_eq_none_iff.1 habsent))
  · exact h j hj hlt hmem

/-- What the first operand and then the others answer does not interfere. -/
theorem Heard.cons {operand : Nat} {js : List Nat} {x : EntryId} (hfresh : operand ∉ js)
    (htold : Told [operand] x r r')
    (hoperand : x ∈ ids operand →
      r'.skips operand x = (r.skips operand x || accepts operand x))
    (htold' : Told js x r' r'') (h : Heard ids accepts js x r' r'') :
    Heard ids accepts (operand :: js) x r r'' := by
  intro j hj hlt hmem
  rcases List.mem_cons.1 hj with rfl | hj
  · rcases htold'.skips j x with hsame | ⟨hin, -⟩
    · rw [hsame, hoperand hmem]
    · exact absurd hin hfresh
  · have hne : j ≠ operand := fun h ↦ hfresh (h ▸ hj)
    have hbefore : r'.skips j x = r.skips j x := by
      rcases htold.skips j x with hsame | ⟨hin, -⟩
      · exact hsame
      · exact absurd (List.mem_singleton.1 hin) hne
    rw [← htold.length_lanes] at hlt
    rw [h j hj hlt hmem, hbefore]

/-- To ask operands about a candidate lets those skip the entry that accept it.  What an operand
answers about an entry that is not in its list does not matter. -/
theorem announce_spec {js : List Nat} (hjs : js.Nodup) (hr : Answering ctx K E ids accepts r)
    {c : Candidate} (hc : K c) :
    (announce ctx js c).Ensures r
      (fun c' r' ↦ c'.id = c.id ∧ K c' ∧ Told js c.id r r' ∧ Heard ids accepts js c.id r r')
      fun e r' ↦ E e ∧ Told js c.id r r' := by
  induction js generalizing r c with
  | nil => exact Act.ensures_pure ⟨rfl, hc, .refl _ _ _, fun j hj ↦ absurd hj List.not_mem_nil⟩
  | cons operand js ih =>
    obtain ⟨hfresh, hjs⟩ := List.nodup_cons.1 hjs
    refine Act.ensures_bind (Act.ensures_get ?_)
    cases hlane : r.lanes[operand]? with
    | none =>
      refine (ih hjs hr hc).mono ?_ ?_
      · intro c' r' hpost
        obtain ⟨hid, hc', ht, hheard⟩ := hpost
        exact ⟨hid, hc', ht.mono (List.subset_cons_self _ _), hheard.cons_absent hlane⟩
      · intro e r' hpost
        obtain ⟨he, ht⟩ := hpost
        exact ⟨he, ht.mono (List.subset_cons_self _ _)⟩
    | some lane =>
      refine Act.ensures_bind (Act.ensures_attempt (Act.ensures_on ?_))
      refine (hr operand lane hlane c hc).mono ?_ fun e _ he ↦ ⟨he, .refl _ _ _⟩
      intro accepted c' hpost
      obtain ⟨hid, hc', hanswer⟩ := hpost
      -- The relay once the answer of this operand is noted.
      have hnoted : ∀ r₁ : Relay σ, Told [operand] c.id r r₁ →
          (c.id ∈ ids operand →
            r₁.skips operand c.id = (r.skips operand c.id || accepts operand c.id)) →
          (announce ctx js c').Ensures r₁
            (fun c'' r' ↦ c''.id = c.id ∧ K c'' ∧ Told (operand :: js) c.id r r' ∧
              Heard ids accepts (operand :: js) c.id r r')
            fun e r' ↦ E e ∧ Told (operand :: js) c.id r r' := by
        intro r₁ ht₁ hskips₁
        have hone : Told (operand :: js) c.id r r₁ :=
          ht₁.mono (List.cons_subset_cons operand (List.nil_subset js))
        have hlater := ih hjs (hr.told ht₁) hc'
        rw [hid] at hlater
        refine hlater.mono ?_ ?_
        · intro c'' r' hpost
          obtain ⟨hid', hc'', ht, hheard⟩ := hpost
          exact ⟨hid', hc'', hone.trans (ht.mono (List.subset_cons_self _ _)),
            .cons hfresh ht₁ hskips₁ ht hheard⟩
        · intro e r' hpost
          obtain ⟨he, ht⟩ := hpost
          exact ⟨he, hone.trans (ht.mono (List.subset_cons_self _ _))⟩
      obtain ⟨hlt, -⟩ := List.getElem?_eq_some_iff.1 hlane
      cases accepted with
      | true =>
        refine Act.ensures_bind (Act.ensures_modify ?_)
        rw [hid]
        refine hnoted _ (told_skip r operand c.id) fun hmem ↦ ?_
        rw [skips_skip, ← hanswer hmem]
        simp [hlt]
      | false =>
        refine hnoted r (.refl _ _ _) fun hmem ↦ ?_
        rw [← hanswer hmem, Bool.or_false]

theorem nodup_inactive (r : Relay σ) : r.inactive.Nodup := List.nodup_range.filter _

/-! ## Moving one operand -/

/-- The relay whose active operand has moved. -/
def moved (r : Relay σ) (s : σ) : Relay σ := { r with sources := r.sources.set r.active s }

/-- The relay with another operand active. -/
def turned (r : Relay σ) (j : Nat) : Relay σ := { r with active := j }

theorem size_moved (r : Relay σ) (s : σ) : (r.moved s).size = r.size := List.length_set

theorem perform_onActive {α : Type} {otherwise : α} {act : Act σ α} {source : σ}
    (hsource : r.sources[r.active]? = some source) :
    (onActive otherwise act).perform r =
      act.perform source >>= fun o ↦ pure (o.1, r.moved o.2) := by
  rw [onActive, Act.perform_of, hsource]
  rfl

theorem perform_onActive_none {α : Type} {otherwise : α} {act : Act σ α}
    (hsource : r.sources[r.active]? = none) :
    (onActive otherwise act).perform r = pure (.ok otherwise, r) := by
  rw [onActive, Act.perform_of, hsource]

theorem ensures_onActive {α : Type} {otherwise : α} {act : Act σ α} {source : σ}
    {Q : α → Relay σ → Prop} {F : SearchError → Relay σ → Prop}
    (hsource : r.sources[r.active]? = some source)
    (h : act.Ensures source (fun a s ↦ Q a (r.moved s)) fun e s ↦ F e (r.moved s)) :
    (onActive otherwise act).Ensures r Q F := by
  rw [Act.Ensures, perform_onActive hsource]
  exact fun t ↦ h t

theorem ensures_onActive_none {α : Type} {otherwise : α} {act : Act σ α} {Q : α → Relay σ → Prop}
    {F : SearchError → Relay σ → Prop} (hsource : r.sources[r.active]? = none)
    (h : Q otherwise r) : (onActive otherwise act).Ensures r Q F := by
  rw [Act.Ensures, perform_onActive_none hsource]
  exact Effect.ensures_pure h

theorem firstOperand_lt (h : 0 < r.size) (d : Direction) : r.firstOperand d < r.size := by
  cases d with
  | forward => exact h
  | backward => exact Nat.sub_one_lt_of_lt h

/-- The operands that come after the active one. -/
def upcoming (r : Relay σ) (d : Direction) : List Nat :=
  Listing.upcoming (List.range r.size) d (.onElement r.active)

theorem nextOperand?_spec (h : r.active < r.size) (d : Direction) :
    (r.nextOperand? d = none ∧ r.upcoming d = []) ∨
      ∃ j, r.nextOperand? d = some j ∧ j < r.size ∧
        r.upcoming d = j :: Listing.upcoming (List.range r.size) d (.onElement j) := by
  have hsound : Listing.Sound (List.range r.size).length (.onElement r.active) := by
    rwa [List.length_range]
  have hnext : Listing.neighbour (List.range r.size).length d (.onElement r.active) =
      r.nextOperand? d := by
    rw [List.length_range]
    cases d <;> rfl
  have hspec := Listing.neighbour_spec (d := d) hsound
  rw [hnext] at hspec
  refine hspec.imp id ?_
  rintro ⟨i, j, hj, hget, hcons⟩
  obtain ⟨hlt, rfl⟩ := List.getElem?_eq_some_iff.1 hget
  rw [List.length_range] at hlt
  rw [List.getElem_range] at hcons
  exact ⟨i, hj, hlt, hcons⟩

/-- What a traversal depends on in one operand. -/
def leg (ids : Nat → List EntryId) (accepts : Nat → EntryId → Bool) (r : Relay σ) (j : Nat) : Leg :=
  ⟨ids j, r.skips j, accepts j⟩

/-- Operands that have not been visited in a traversal are ready for it. -/
def Waiting (w : Walker σ) (d : Direction) (K : Candidate → Prop) (E : SearchError → Prop)
    (ids : Nat → List EntryId) (r : Relay σ) (js : List Nat) : Prop :=
  ∀ j ∈ js, ∃ s, r.sources[j]? = some s ∧ w.Ready d E (Stands K) (ids j) s

/-- A traversal is under way, and of the active operand `rem` is left. -/
structure Passing (w : Walker σ) (ctx : Context) (d : Direction) (K : Candidate → Prop)
    (E : SearchError → Prop) (ids : Nat → List EntryId) (accepts : Nat → EntryId → Bool)
    (r : Relay σ) (rem : List EntryId) : Prop where
  answering : Answering ctx K E ids accepts r
  lanes : r.lanes.length = r.size
  active : ∃ s, r.sources[r.active]? = some s ∧ w.Yields d E (Stands K) rem s
  waiting : Waiting w d K E ids r (r.upcoming d)

/-- What is left of the traversal. -/
def remaining (d : Direction) (ids : Nat → List EntryId) (accepts : Nat → EntryId → Bool)
    (r : Relay σ) (rem : List EntryId) : List EntryId :=
  let now := rem.filter fun i ↦ !r.skips r.active i
  now ++ merge now ((r.upcoming d).map (leg ids accepts r))

theorem mem_upcoming {j : Nat} (hj : j ∈ r.upcoming d) : j < r.size ∧ j ≠ r.active := by
  cases d with
  | forward =>
    obtain ⟨k, hk, rfl⟩ := List.mem_drop_iff_getElem.1 hj
    rw [List.length_range] at hk
    rw [List.getElem_range]
    omega
  | backward =>
    obtain ⟨k, hk, rfl⟩ := List.mem_take_iff_getElem.1 (List.mem_reverse.1 hj)
    rw [List.length_range] at hk
    rw [List.getElem_range]
    omega

theorem Waiting.moved {js : List Nat} (h : Waiting w d K E ids r js) (hjs : r.active ∉ js) (s : σ) :
    Waiting w d K E ids (r.moved s) js := by
  intro j hj
  have hne : r.active ≠ j := fun heq ↦ hjs (heq ▸ hj)
  obtain ⟨source, hget, hready⟩ := h j hj
  exact ⟨source, (List.getElem?_set_ne hne).trans hget, hready⟩

/-- A traversal goes on where the active operand has moved and the others were told of the entry. -/
theorem Passing.told {rem rest : List EntryId} {s : σ} {x : EntryId}
    (h : Passing w ctx d K E ids accepts r rem) (hs : w.Yields d E (Stands K) rest s)
    (ht : Told r.inactive x (r.moved s) r') : Passing w ctx d K E ids accepts r' rest := by
  obtain ⟨source, hsource, -⟩ := h.active
  obtain ⟨hactive, -⟩ := List.getElem?_eq_some_iff.1 hsource
  have hsize : r'.size = r.size := by rw [size, ht.sources]; exact List.length_set
  have hupcoming : r'.upcoming d = r.upcoming d := by rw [upcoming, upcoming, hsize, ht.active]; rfl
  refine ⟨Answering.told (r := r.moved s) h.answering ht, ?_, ⟨s, ?_, hs⟩, ?_⟩
  · rw [ht.length_lanes, hsize]
    exact h.lanes
  · rw [ht.sources, ht.active]
    exact List.getElem?_set_self hactive
  · rw [hupcoming]
    intro j hj
    rw [ht.sources]
    exact h.waiting.moved (fun hin ↦ (mem_upcoming hin).2 rfl) s j hj

/-- What is left after the other operands were told of the first entry that is left. -/
theorem remaining_told {rem rest : List EntryId} {s : σ} {x : EntryId}
    (h : Passing w ctx d K E ids accepts r rem)
    (hfilter : (rem.filter fun i ↦ !r.skips r.active i) =
      x :: rest.filter fun i ↦ !r.skips r.active i)
    (ht : Told r.inactive x (r.moved s) r')
    (hheard : Heard ids accepts r.inactive x (r.moved s) r') :
    remaining d ids accepts r rem = x :: remaining d ids accepts r' rest := by
  have hactive : r'.active = r.active := ht.active
  have hsize : r'.size = r.size := by rw [size, ht.sources]; exact List.length_set
  have hupcoming : r'.upcoming d = r.upcoming d := by rw [upcoming, upcoming, hsize, hactive]
  have hsame : ∀ i, r'.skips r.active i = r.skips r.active i := by
    intro i
    rcases ht.skips r.active i with hi | ⟨hin, -⟩
    · exact hi
    · exact absurd (List.mem_filter.1 hin).2 (by simp)
  have hlegs : ∀ j ∈ r.upcoming d, Leg.Told x (leg ids accepts r j) (leg ids accepts r' j) := by
    intro j hj
    obtain ⟨hlt, hne⟩ := mem_upcoming hj
    have hlane : j < r.lanes.length := by rw [h.lanes]; exact hlt
    have hin : j ∈ r.inactive :=
      List.mem_filter.2 ⟨List.mem_range.2 hlane, bne_iff_ne.2 hne⟩
    refine ⟨rfl, rfl, fun i hi ↦ ?_⟩
    show r'.skips j i = (r.skips j i || (i == x && accepts j i))
    by_cases hx : i = x
    · subst hx
      rw [hheard j hin hlane hi, beq_self_eq_true, Bool.true_and]
      rfl
    · rw [beq_false_of_ne hx, Bool.false_and, Bool.or_false]
      rcases ht.skips j i with hj' | ⟨-, heq, -⟩
      · exact hj'
      · exact absurd heq hx
  simp only [remaining, hfilter, hactive, hsame, hupcoming, List.cons_append]
  rw [merge_told hlegs]

theorem unlessSkipped_spec (skipped : ExtTreeSet EntryId) (c : Candidate) :
    (unlessSkipped skipped).Ensures c
      (fun passed c' ↦ passed = !skipped.contains c.id ∧ c' = c) fun _ _ ↦ False := by
  refine Act.ensures_bind (Act.ensures_get ?_)
  cases hskip : skipped.contains c.id with
  | true => exact Act.ensures_bind (Act.ensures_tally (Act.ensures_pure ⟨rfl, rfl⟩))
  | false => exact Act.ensures_pure ⟨rfl, rfl⟩

/-- The active operand passes the entries that it does not have to skip. -/
theorem unlessSkipped_active (r : Relay σ) {i : EntryId} {c : Candidate}
    {F : SearchError → Candidate → Prop} (hc : Stands K i c) :
    (unlessSkipped ((r.skippedBy? r.active).getD ∅)).Ensures c
      (fun passed c' ↦ passed = !r.skips r.active i ∧
        ((!r.skips r.active i) = true → Stands K i c'))
      F := by
  obtain ⟨rfl, hK⟩ := hc
  refine (unlessSkipped_spec _ c).mono ?_ fun _ _ hfalse ↦ hfalse.elim
  rintro passed _ ⟨hpassed, rfl⟩
  exact ⟨hpassed, fun _ ↦ ⟨rfl, hK⟩⟩

/-- The active operand moves to the first of its entries that it does not have to skip, and the
others are told of it. -/
theorem seekActive_spec {rem : List EntryId} (h : Passing w ctx d K E ids accepts r rem) :
    (seekActive w ctx d).Ensures r
      (fun found r' ↦ match found with
        | none => (rem.filter fun i ↦ !r.skips r.active i) = [] ∧ ∃ s, r' = r.moved s
        | some c => ∃ x rest, Stands K x c ∧ Passing w ctx d K E ids accepts r' rest ∧
          remaining d ids accepts r rem = x :: remaining d ids accepts r' rest)
      fun e _ ↦ E e := by
  obtain ⟨source, hsource, hyields⟩ := h.active
  refine Act.ensures_bind (Act.ensures_get (Act.ensures_bind (ensures_onActive hsource ?_)))
  refine (Walker.seek_spec (R := Stands K) (fun i _ c hc ↦ unlessSkipped_active r hc)
    hyields).imp ?_
  intro found s hsought
  cases found with
  | none => exact Act.ensures_pure ⟨hsought, s, rfl⟩
  | some c =>
    obtain ⟨x, rest, hfilter, -, -, -, ⟨hid, hc⟩, hrest⟩ := hsought
    have hannounce := announce_spec (r := r.moved s) r.nodup_inactive h.answering hc
    refine Act.ensures_bind (hannounce.mono ?_ fun e _ he ↦ he.1)
    intro c' r' hpost
    obtain ⟨hid', hc', ht, hheard⟩ := hpost
    rw [hid] at hid' ht hheard
    exact Act.ensures_pure
      ⟨x, rest, ⟨hid', hc'⟩, h.told hrest ht, remaining_told h hfilter ht hheard⟩

/-! ## Going through the operands -/

/-- To go to the edge of an operand begins the part of a traversal that starts with it. -/
theorem activate_spec {j : Nat} (hr : Answering ctx K E ids accepts r)
    (hlanes : r.lanes.length = r.size)
    (hwait : Waiting w d K E ids r
      (j :: Listing.upcoming (List.range r.size) d (.onElement j))) :
    (activate w d j).Ensures r
      (fun _ r' ↦ r'.standing = r.standing ∧ Passing w ctx d K E ids accepts r' (ids j) ∧
        r'.upcoming d = Listing.upcoming (List.range r.size) d (.onElement j) ∧
        remaining d ids accepts r' (ids j) =
          merge [] ((j :: r'.upcoming d).map (leg ids accepts r)))
      fun e _ ↦ E e := by
  obtain ⟨source, hsource, -, hrewind⟩ := hwait j List.mem_cons_self
  refine Act.ensures_bind (Act.ensures_modify ?_)
  refine ensures_onActive (r := r.turned j) hsource (hrewind.imp ?_)
  intro _ s hyields
  obtain ⟨hlt, -⟩ := List.getElem?_eq_some_iff.1 hsource
  have hsize : ((r.turned j).moved s).size = r.size := size_moved _ s
  have hupcoming : ((r.turned j).moved s).upcoming d =
      Listing.upcoming (List.range r.size) d (.onElement j) := by
    rw [upcoming, hsize]
    rfl
  refine ⟨rfl, ⟨hr, hlanes.trans hsize.symm, ⟨s, List.getElem?_set_self hlt, hyields⟩, ?_⟩,
    hupcoming, ?_⟩
  · rw [hupcoming]
    refine Waiting.moved (r := r.turned j) ?_ ?_ s
    · exact fun k hk ↦ hwait k (List.mem_cons_of_mem j hk)
    · exact fun hin ↦ (mem_upcoming (r := r.turned j) hin).2 rfl
  · have hfresh : (leg ids accepts r j).fresh [] = (ids j).filter fun i ↦ !r.skips j i := by
      simp [leg, Leg.fresh]
    rw [remaining, hupcoming, List.map_cons, merge, List.nil_append, hfresh]
    rfl

/-- Going through the operands goes to the first entry that is left. -/
theorem sweep_spec {rem : List EntryId} {operands : Nat} (hlt : (r.upcoming d).length < operands)
    (h : Passing w ctx d K E ids accepts r rem) :
    (sweep w ctx d operands).Ensures r
      (fun found r' ↦ match found with
        | none => remaining d ids accepts r rem = []
        | some c => ∃ x rest, Stands K x c ∧ Passing w ctx d K E ids accepts r' rest ∧
          remaining d ids accepts r rem = x :: remaining d ids accepts r' rest)
      fun e _ ↦ E e := by
  induction operands generalizing r rem with
  | zero => exact absurd hlt (Nat.not_lt_zero _)
  | succ operands ih =>
    refine Act.ensures_bind ((seekActive_spec h).imp ?_)
    intro found r' hfound
    cases found with
    | some c => exact Act.ensures_pure hfound
    | none =>
      obtain ⟨hnow, s, rfl⟩ := hfound
      obtain ⟨source, hsource, -⟩ := h.active
      obtain ⟨hactive, -⟩ := List.getElem?_eq_some_iff.1 hsource
      have hnext := nextOperand?_spec (r := r.moved s) (by rwa [size_moved]) d
      have hupcoming : (r.moved s).upcoming d = r.upcoming d := by
        rw [upcoming, upcoming, size_moved]
        rfl
      have hmerge : remaining d ids accepts r rem =
          merge [] ((r.upcoming d).map (leg ids accepts r)) := by
        rw [remaining, hnow, List.nil_append]
      rw [hupcoming] at hnext
      refine Act.ensures_bind (Act.ensures_get ?_)
      obtain ⟨hnone, hnil⟩ | ⟨j, hj, -, hcons⟩ := hnext
      · rw [hnone]
        refine Act.ensures_pure ?_
        rw [hmerge, hnil]
        rfl
      · rw [hj]
        have hwait : Waiting w d K E ids (r.moved s) (r.upcoming d) :=
          h.waiting.moved (fun hin ↦ (mem_upcoming hin).2 rfl) s
        rw [hcons] at hwait
        have hanswering : Answering ctx K E ids accepts (r.moved s) := h.answering
        have hlanes : (r.moved s).lanes.length = (r.moved s).size :=
          h.lanes.trans (size_moved r s).symm
        refine Act.ensures_bind ((activate_spec hanswering hlanes hwait).imp ?_)
        intro _ r' hpost
        obtain ⟨-, hpassing, hrest, hleft⟩ := hpost
        have hshorter : (r'.upcoming d).length < operands := by
          rw [hcons, List.length_cons] at hlt
          rw [hrest]
          omega
        rw [hmerge, hcons, ← hrest]
        refine (ih hshorter hpassing).imp fun found r'' hfound ↦ ?_
        rwa [hleft] at hfound

/-- What the operands at the given places have room for. -/
def room (w : Walker σ) (r : Relay σ) (js : List Nat) : Nat :=
  (js.map fun j ↦ (r.sources[j]?.map w.extent).getD 0).sum

theorem room_arrange (r : Relay σ) (d : Direction) :
    room w r (d.arrange (List.range r.size)) = extent w r := by
  have hsources : (List.range r.size).map (fun j ↦ (r.sources[j]?.map w.extent).getD 0) =
      r.sources.map w.extent := by
    refine List.ext_getElem (by simp [size]) fun j hj _ ↦ ?_
    rw [List.length_map, List.length_range] at hj
    have hj' : j < r.sources.length := hj
    simp [hj']
  rw [room, ((d.arrange_perm (List.range r.size)).map _).sum_nat, hsources]
  rfl

/-- The active operand and those after it are some of the operands. -/
theorem room_course_le (h : r.active < r.size) (d : Direction) :
    room w r (r.active :: r.upcoming d) ≤ extent w r := by
  have hsub : (r.active :: r.upcoming d).Sublist (d.arrange (List.range r.size)) := by
    cases d with
    | forward =>
      have hdrop := List.drop_eq_getElem_cons (l := List.range r.size) (by rwa [List.length_range])
      rw [List.getElem_range] at hdrop
      show (r.active :: (List.range r.size).drop (r.active + 1)).Sublist _
      rw [← hdrop]
      exact List.drop_sublist _ _
    | backward =>
      have htake := List.take_succ_eq_append_getElem (l := List.range r.size)
        (by rwa [List.length_range])
      rw [List.getElem_range] at htake
      show (r.active :: ((List.range r.size).take r.active).reverse).Sublist _
      rw [← List.reverse_concat, ← htake]
      exact (List.take_sublist _ _).reverse
  rw [← room_arrange r d, room, room]
  exact (hsub.map _).sum_le_sum fun _ _ ↦ Nat.zero_le _

/-- Operands have room for what they yield. -/
theorem Waiting.length_merge_le {js : List Nat} (h : Waiting w d K E ids r js)
    (out : List EntryId) :
    (merge out (js.map (leg ids accepts r))).length ≤ room w r js := by
  refine Nat.le_trans (DirectoryQuery.length_merge_le out _) ?_
  rw [List.map_map]
  refine List.sum_le_sum fun j hj ↦ ?_
  obtain ⟨s, hs, hlen, -⟩ := h j hj
  rw [hs]
  exact hlen

/-- The operands together have room for what is left. -/
theorem length_remaining_le {rem : List EntryId} (h : Passing w ctx d K E ids accepts r rem) :
    (remaining d ids accepts r rem).length ≤ extent w r := by
  obtain ⟨source, hsource, hyields⟩ := h.active
  obtain ⟨hactive, -⟩ := List.getElem?_eq_some_iff.1 hsource
  have hnow : (rem.filter fun i ↦ !r.skips r.active i).length ≤ w.extent source :=
    Nat.le_trans (List.length_filter_le _ rem) hyields.length_le
  have hcourse := room_course_le (w := w) hactive d
  rw [room, List.map_cons, List.sum_cons, hsource] at hcourse
  rw [remaining, List.length_append]
  exact Nat.le_trans (Nat.add_le_add hnow (h.waiting.length_merge_le _)) hcourse

theorem upcoming_lt (h : r.active < r.size) (d : Direction) : (r.upcoming d).length < r.size := by
  cases d <;> simp [upcoming, Listing.upcoming] <;> omega

/-- Where the relay stands does not matter for what is left. -/
theorem Passing.stand {rem : List EntryId} (h : Passing w ctx d K E ids accepts r rem)
    (standing : Standing Candidate) :
    Passing w ctx d K E ids accepts { r with standing } rem :=
  ⟨h.answering, h.lanes, h.active, h.waiting⟩

/-- A move looks for an entry from where the relay stands, or from the edge if the relay was never
moved. -/
theorem ensures_advance {I : Relay σ → Prop} {Q : Bool → Relay σ → Prop}
    {F : SearchError → Relay σ → Prop}
    (hclosed : r.standing.position.isClosed = true → F (.closedCursor d.moving) r)
    (hfresh : r.standing.position.isUnpositioned = true →
      (rewind w d).Ensures r (fun _ r' ↦ I r') F)
    (hmoved : r.standing.position.isUnpositioned = false → I r)
    (hsweep : ∀ r', I r' → (sweep w ctx d r.size).Ensures r'
      (fun found r'' ↦ Q found.isSome
        { r'' with standing := r''.standing.moveTo (.reached d found) })
      F) :
    (advance w ctx d).Ensures r Q F := by
  -- What follows once the relay stands where the search begins.
  have hrest : ∀ r', I r' → (do
      let found ← sweep w ctx d r.size
      if found.isSome then tally .emitted
      moveTo (.reached d found)
      return found.isSome : Act (Relay σ) Bool).Ensures r' Q F := by
    intro r' hr'
    refine Act.ensures_bind ((hsweep r' hr').imp fun found r'' hpost ↦ ?_)
    cases found with
    | none => exact Act.ensures_bind (Act.ensures_modify (Act.ensures_pure hpost))
    | some c =>
      refine Act.ensures_bind (Act.ensures_tally (Act.ensures_bind (Act.ensures_modify ?_)))
      exact Act.ensures_pure hpost
  refine Act.ensures_bind (Act.ensures_get ?_)
  by_cases hopen : r.standing.position.isClosed = true
  · exact Act.ensures_error_bind (if_pos hopen) (hclosed hopen)
  · refine Act.ensures_ok_bind (if_neg hopen) ?_
    cases hfirst : r.standing.position.isUnpositioned with
    | true => exact Act.ensures_bind ((hfresh hfirst).imp fun _ ↦ hrest)
    | false => exact hrest r (hmoved hfirst)

/-- A move goes to the first entry that is left. -/
theorem advance_spec {rem : List EntryId} (h : Passing w ctx d K E ids accepts r rem)
    (hopen : r.standing.position.isClosed = false)
    (hmoved : r.standing.position.isUnpositioned = false) :
    (advance w ctx d).Ensures r
      (fun found r' ↦ match remaining d ids accepts r rem with
        | [] => found = false
        | x :: left => found = true ∧ ∃ c rest, r'.standing.position = .onElement c ∧
          Stands K x c ∧ Passing w ctx d K E ids accepts r' rest ∧
          remaining d ids accepts r' rest = left)
      fun e _ ↦ E e := by
  obtain ⟨source, hsource, -⟩ := h.active
  obtain ⟨hactive, -⟩ := List.getElem?_eq_some_iff.1 hsource
  refine ensures_advance (I := fun r' ↦ r' = r) (fun hclosed ↦ ?_) (fun hfresh ↦ ?_)
    (fun _ ↦ rfl) ?_
  · exact absurd (hclosed.symm.trans hopen) nofun
  · exact absurd (hfresh.symm.trans hmoved) nofun
  · rintro _ rfl
    refine (sweep_spec (upcoming_lt hactive d) h).imp fun found r' hfound ↦ ?_
    cases found with
    | none =>
      rw [hfound]
      rfl
    | some c =>
      obtain ⟨x, rest, hc, hpassing, hleft⟩ := hfound
      rw [hleft]
      exact ⟨rfl, c, rest, rfl, hc, hpassing.stand _, rfl⟩

/-- What is left of the traversal is yielded. -/
theorem yields {rem l : List EntryId} (h : Passing w ctx d K E ids accepts r rem)
    (hopen : r.standing.position.isClosed = false)
    (hmoved : r.standing.position.isUnpositioned = false)
    (hl : remaining d ids accepts r rem = l) :
    (walker w ctx).Yields d E (Stands K) l r := by
  have hadv := advance_spec h hopen hmoved
  have hlen := length_remaining_le h
  rw [hl] at hadv hlen
  induction l generalizing r rem with
  | nil => exact hadv
  | cons x left ih =>
    refine ⟨hlen, hadv.imp ?_⟩
    intro found r' hpost
    obtain ⟨hfound, c, rest, hpos, hc, hpassing, hleft⟩ := hpost
    have hopen' : r'.standing.position.isClosed = false := by rw [hpos]; rfl
    have hmoved' : r'.standing.position.isUnpositioned = false := by rw [hpos]; rfl
    refine ⟨hfound, ⟨c, ?_, hc⟩, ih hpassing hopen' hmoved' hleft ?_ ?_⟩
    · show r'.standing.element .get = .ok c
      rw [Standing.element, hpos]
    · rw [← hleft]
      exact advance_spec hpassing hopen' hmoved'
    · rw [← hleft]
      exact length_remaining_le hpassing

theorem arrange_range (hsize : 0 < r.size) (d : Direction) :
    d.arrange (List.range r.size) = r.firstOperand d ::
      Listing.upcoming (List.range r.size) d (.onElement (r.firstOperand d)) := by
  have hspec := Listing.neighbour_spec (l := List.range r.size) (d := d)
    (Listing.sound_start _ d)
  have hfirst : Listing.neighbour (List.range r.size).length d (.start d) =
      some (r.firstOperand d) := by
    rw [List.length_range]
    cases d <;> exact if_pos hsize
  rw [hfirst, Listing.upcoming_start] at hspec
  obtain ⟨hnone, -⟩ | ⟨i, j, hi, hget, hcons⟩ := hspec
  · exact absurd hnone (Option.some_ne_none _)
  · have hi' : r.firstOperand d = i := Option.some.inj hi
    obtain ⟨_, hj⟩ := List.getElem?_eq_some_iff.1 hget
    rw [List.getElem_range] at hj
    rw [hcons, hi', hj]

/-- **A relay goes through what its operands yield one after the other.** -/
theorem ready (hr : Answering ctx K E ids accepts r) (hlanes : r.lanes.length = r.size)
    (hsize : 0 < r.size) (hopen : r.standing.position.isClosed = false)
    (hwait : Waiting w d K E ids r (List.range r.size)) :
    (walker w ctx).Ready d E (Stands K)
      (merge [] ((d.arrange (List.range r.size)).map (leg ids accepts r))) r := by
  have hcourse := arrange_range hsize d
  have hwait' : Waiting w d K E ids r (d.arrange (List.range r.size)) :=
    fun j hj ↦ hwait j ((d.arrange_perm _).subset hj)
  refine ⟨?_, ?_⟩
  · exact Nat.le_trans (hwait'.length_merge_le []) (Nat.le_of_eq (room_arrange r d))
  · rw [hcourse] at hwait' ⊢
    refine Act.ensures_bind (Act.ensures_get ?_)
    refine Act.ensures_ok_bind (Standing.checkOpen_eq_ok hopen _) ?_
    refine Act.ensures_bind ((activate_spec hr hlanes hwait').imp ?_)
    intro _ r' hpost
    obtain ⟨hstanding, hpassing, hrest, hleft⟩ := hpost
    rw [← hrest, ← hleft]
    refine Act.ensures_modify ?_
    cases d <;> exact yields (hpassing.stand _) rfl rfl rfl

end Relay
end DirectoryQuery
