import DirectoryQuery.Proofs.Judgement
import DirectoryQuery.Proofs.Settling

/-!
# What a full pass leads to

A pass goes from the edge to the end and comes up with entries on the way (`Cursor.Pass`).  Of a
cursor that behaves as a cursor over a list, every pass comes up with the list (`Behaves.pass`).

A disjunction does not behave so at first.  But its first full pass, whatever moves were made before
it, leaves the disjunction in a state where it does, and the list is what the pass has found
(`Cursor.relay_settles`).  The operands may be cursors of any kind that behave as cursors over
lists.
-/

set_option autoImplicit false

namespace DirectoryQuery

namespace Cursor

variable {ctx : Context} {d : Direction} {c c' c₀ : Cursor} {call : Call} {found out : List EntryId}

/-! ## Calls one after the other -/

/-- The cursors to which calls that move lead, whatever the calls come to. -/
inductive Reached (ctx : Context) (c₀ : Cursor) : Cursor → Prop
  | refl : Reached ctx c₀ c₀
  | step {c : Cursor} (h : Reached ctx c₀ c) {call : Call} (hcall : call.IsMove) (t : Trace) :
      Reached ctx c₀ (call.run ctx t c).2

/-- With the call, and then with single steps, the cursor goes through the entries and comes to the
end. -/
inductive Walk (ctx : Context) (d : Direction) : Call → Cursor → List EntryId → Cursor → Prop
  | finish {call : Call} {c c' : Cursor} {t : Trace}
      (hrun : call.run ctx t c = (.ok (.found false), c')) :
      Walk ctx d call c [] c'
  | step {call : Call} {c c₁ c' : Cursor} {t : Trace} {x : Candidate} {found : List EntryId}
      (hrun : call.run ctx t c = (.ok (.found true), c₁))
      (hx : c₁.current = .ok x) (hrest : Walk ctx d (.advance d) c₁ found c') :
      Walk ctx d call c (x.id :: found) c'

/-- A full pass goes from the edge to the end.  It may go to the edge first, or be made by a cursor
that stands there already or was never moved. -/
def Pass (ctx : Context) (d : Direction) (c : Cursor) (found : List EntryId) (c' : Cursor) : Prop :=
  Walk ctx d (.begin d) c found c' ∨
    (c.position = .unpositioned ∨ c.position = .start d) ∧ Walk ctx d (.advance d) c found c'

/-! ### Walks that can be computed -/

/-- Whether a move has found the entry. -/
def finds (i : EntryId) : Except SearchError Answer × Cursor → Bool
  | (.ok (.found true), c) => c.current.toOption.map Candidate.id == some i
  | _ => false

/-- Whether a move has come to the end. -/
def ends : Except SearchError Answer × Cursor → Bool
  | (.ok (.found false), _) => true
  | _ => false

/-- Whether calls, all made at the same trace, go through the entries and come to the end. -/
def walks (ctx : Context) (t : Trace) (d : Direction) : Call → Cursor → List EntryId → Bool
  | call, c, [] => ends (call.run ctx t c)
  | call, c, i :: rest =>
    finds i (call.run ctx t c) && walks ctx t d (.advance d) (call.run ctx t c).2 rest

theorem eq_of_ends {r : Except SearchError Answer × Cursor} (h : ends r = true) :
    r = (.ok (.found false), r.2) := by
  obtain ⟨_ | _ | b | _, c⟩ := r <;> try cases h
  cases b with
  | false => rfl
  | true => cases h

theorem eq_of_finds {i : EntryId} {r : Except SearchError Answer × Cursor}
    (h : finds i r = true) :
    r = (.ok (.found true), r.2) ∧ ∃ x, r.2.current = .ok x ∧ x.id = i := by
  obtain ⟨_ | _ | b | _, c⟩ := r <;> try cases h
  cases b with
  | false => cases h
  | true =>
    obtain ⟨x, hx, hid⟩ := Option.map_eq_some_iff.1 (beq_iff_eq.1 h)
    exact ⟨rfl, x, toOption_eq_some.1 hx, hid⟩

theorem exists_walk {t : Trace} (h : walks ctx t d call c found = true) :
    ∃ c', Walk ctx d call c found c' := by
  induction found generalizing call c with
  | nil => exact ⟨_, .finish (eq_of_ends h)⟩
  | cons i rest ih =>
    obtain ⟨hfinds, hrest⟩ := Bool.and_eq_true_iff.1 h
    obtain ⟨hrun, x, hx, rfl⟩ := eq_of_finds hfinds
    obtain ⟨c', hwalk⟩ := ih hrest
    exact ⟨c', .step hrun hx hwalk⟩

/-! ### Invariants -/

/-- What a call has come to is what it ensures. -/
theorem ensures_run {Q : Answer → Cursor → Prop} {E : SearchError → Cursor → Prop} {t : Trace}
    {a : Answer} (h : (call.perform ctx).Ensures c Q E) (hrun : call.run ctx t c = (.ok a, c')) :
    Q a c' := by
  have ht : Meets (fun a ↦ Q a (call.run ctx t c).2) _ (call.run ctx t c).1 := h t
  rw [hrun] at ht
  exact ht

/-- Calls keep what moves keep. -/
theorem keeps_perform {I : Cursor → Prop} (hrewind : ∀ d, (Cursor.rewind ctx d).Keeps I)
    (hadvance : ∀ d, (Cursor.advance ctx d).Keeps I) (hcall : call.IsMove) :
    (call.perform ctx).Keeps I := by
  cases call with
  | rewind d => exact .bind (hrewind d) fun _ ↦ .pure _
  | begin d => exact .bind (.bind (hrewind d) fun _ ↦ hadvance d) fun _ ↦ .pure _
  | advance d => exact .bind (hadvance d) fun _ ↦ .pure _
  | get => exact .bind .get fun _ ↦ .bind (.except _) fun _ ↦ .pure _
  | release cause => exact hcall.elim

theorem Reached.keeps {I : Cursor → Prop} (h : Reached ctx c₀ c)
    (hrewind : ∀ d, (Cursor.rewind ctx d).Keeps I) (hadvance : ∀ d, (Cursor.advance ctx d).Keeps I)
    (h₀ : I c₀) : I c := by
  induction h with
  | refl => exact h₀
  | step _ hcall t ih => exact (keeps_perform hrewind hadvance hcall _ ih).changed t

/-- The move either finds an entry and goes on, or comes to the end. -/
def Goes (J D : List EntryId → Cursor → Prop) (out : List EntryId) (found : Bool) (c : Cursor) :
    Prop :=
  match found with
  | true => ∃ x, c.current = .ok x ∧ J (out ++ [x.id]) c
  | false => D out c

section Invariants

variable {J D : List EntryId → Cursor → Prop}
  (hadvance : ∀ out c, J out c → (Cursor.advance ctx d).Ensures c (Goes J D out) fun _ _ ↦ False)

include hadvance

/-- What holds of a walk so far holds in the end. -/
theorem Walk.complete (h : Walk ctx d call c found c')
    (hcall : (call.perform ctx).Ensures c (fun a c' ↦ ∃ b, a = .found b ∧ Goes J D out b c')
      fun _ _ ↦ False) : D (out ++ found) c' := by
  induction h generalizing out with
  | finish hrun =>
    obtain ⟨b, hb, hgoes⟩ := ensures_run hcall hrun
    cases hb
    rw [List.append_nil]
    exact hgoes
  | step hrun hx hrest ih =>
    obtain ⟨b, hb, hgoes⟩ := ensures_run hcall hrun
    cases hb
    obtain ⟨x, hx', hJ⟩ := hgoes
    obtain rfl := Except.ok.inj (hx.symm.trans hx')
    rw [List.append_cons]
    exact ih (Act.ensures_bind ((hadvance _ _ hJ).imp fun b c' hc' ↦
      Act.ensures_pure ⟨b, rfl, hc'⟩))

theorem Pass.complete (h : Pass ctx d c found c')
    (hrewind : (Cursor.rewind ctx d).Ensures c (fun _ c' ↦ J [] c') fun _ _ ↦ False)
    (hedge : c.position = .unpositioned ∨ c.position = .start d → J [] c) : D found c' := by
  rcases h with hwalk | ⟨hp, hwalk⟩
  · show D ([] ++ found) c'
    refine hwalk.complete hadvance (Act.ensures_bind (Act.ensures_bind ?_))
    refine hrewind.imp fun _ c₁ hc₁ ↦ (hadvance _ _ hc₁).imp fun b c' hc' ↦ ?_
    exact Act.ensures_pure ⟨b, rfl, hc'⟩
  · show D ([] ++ found) c'
    refine hwalk.complete hadvance (Act.ensures_bind ?_)
    exact (hadvance _ _ (hedge hp)).imp fun b c' hc' ↦ Act.ensures_pure ⟨b, rfl, hc'⟩

end Invariants

/-! ## Passes over a list -/

section Lists

variable {P : Call → Prop} {R : Candidate → Candidate → Prop} {l : List Candidate}
  {p : Position Nat} (hP : ∀ call : Call, call.IsMove → P call)

include hP

omit hP in
/-- For a cursor that was never moved, or stands at the edge, the whole list is ahead. -/
theorem Behaves.upcoming_of_edge (h : Behaves ctx P R c (listed l p))
    (hedge : c.position = .unpositioned ∨ c.position = .start d) :
    Listing.upcoming l d p = d.arrange l := by
  rw [h.position_eq, position_listed] at hedge
  cases d <;> cases p <;> simp_all [Position.map, Position.start, Listing.upcoming,
    Direction.arrange]

/-- Moves keep that a cursor behaves as a cursor over the list. -/
theorem Behaves.reached (h : Behaves ctx P R c₀ (listed l p)) (hp : Listing.Sound l.length p)
    (hc : Reached ctx c₀ c) :
    ∃ q, Listing.Sound l.length q ∧ Behaves ctx P R c (listed l q) := by
  refine hc.keeps (I := fun c ↦ ∃ q, Listing.Sound l.length q ∧ Behaves ctx P R c (listed l q))
    (fun d c hc ↦ ?_) (fun d c hc ↦ ?_) ⟨p, hp, h⟩
  · obtain ⟨q, hq, hc⟩ := hc
    refine (hc.rewind (hP (.rewind d) trivial) hq.isClosed).mono ?_ fun _ _ hfalse ↦ hfalse.elim
    exact fun _ _ hc' ↦ ⟨_, Listing.sound_start _ d, hc'⟩
  · obtain ⟨q, hq, hc⟩ := hc
    refine (hc.advance (hP (.advance d) trivial) hq.isClosed).mono ?_ fun _ _ hfalse ↦ hfalse.elim
    exact fun _ _ hpost ↦ ⟨_, Listing.sound_neighbour hq d, hpost.2⟩

/-- A pass of a cursor that behaves as a cursor over a list visits the list. -/
theorem Behaves.pass (h : Behaves ctx P R c (listed l p)) (hp : Listing.Sound l.length p)
    (hpass : Pass ctx d c found c') : found = d.arrange (l.map Candidate.id) := by
  have hids : d.arrange (l.map Candidate.id) = (d.arrange l).map Candidate.id := d.arrange_map _ l
  rw [hids]
  refine hpass.complete (D := fun out _ ↦ out = (d.arrange l).map Candidate.id)
    (J := fun out c ↦ ∃ q, Listing.Sound l.length q ∧ Behaves ctx P R c (listed l q) ∧
      (d.arrange l).map Candidate.id = out ++ (Listing.upcoming l d q).map Candidate.id) ?_ ?_ ?_
  · rintro out c ⟨q, hq, hc, hall⟩
    refine (hc.advance (hP (.advance d) trivial) hq.isClosed).imp ?_
    rintro _ c' ⟨rfl, hc'⟩
    obtain ⟨hnone, hnil⟩ | ⟨i, a, hi, hget, hcons⟩ := Listing.neighbour_spec (d := d) hq
    · rw [hnone]
      rw [hnil, List.map_nil, List.append_nil] at hall
      exact hall.symm
    · rw [hi] at hc' ⊢
      obtain ⟨x, hx, hid, -⟩ := hc'.current (hP .get trivial) hget
      refine ⟨x, hx, .onElement i, (List.getElem?_eq_some_iff.1 hget).1, hc', ?_⟩
      rw [hall, hcons, hid, List.append_assoc]
      rfl
  · refine (h.rewind (hP (.rewind d) trivial) hp.isClosed).imp fun _ c' hc' ↦ ?_
    exact ⟨_, Listing.sound_start _ d, hc', by rw [Listing.upcoming_start]; rfl⟩
  · intro hedge
    refine ⟨p, hp, h, ?_⟩
    rw [h.upcoming_of_edge hedge]
    rfl

/-- To collect the entries of a cursor that behaves as a cursor over the list does not fail and
comes to the list. -/
theorem Behaves.collect (h : Behaves ctx P R c (listed l p)) (hp : Listing.Sound l.length p)
    (d : Direction) :
    (Cursor.collect ctx d).Ensures c (fun found _ ↦ found = d.arrange (l.map Candidate.id))
      fun _ _ ↦ False := by
  have hready := (Behaves.tracks hP l).ready ⟨Nat.le_refl c.height, hp, h⟩ d
  rw [d.arrange_map]
  exact Act.ensures_bind (Act.ensures_get (Walker.collect_spec (fun _ _ hc ↦ hc.1) hready))

end Lists

/-! ## Disjunctions -/

/-- The operand has a cursor over a list without repetition, and an evaluator that does not fail and
accepts the entries of the list. -/
structure Dependable (ctx : Context) (K : Candidate → Prop) (l : List Candidate)
    (operand : Cursor × Evaluator) : Prop where
  nodup : (l.map Candidate.id).Nodup
  behaves : Behaves ctx Call.IsMove (fun _ c ↦ K c) operand.1 (ofList l)
  accepts (c : Candidate) : K c → (operand.2.evaluate ctx).Ensures c
    (fun accepted c' ↦ K c' ∧ (c.id ∈ l.map Candidate.id → accepted = true)) fun _ _ ↦ False

variable {K : Candidate → Prop} {lists : Nat → List Candidate} {n : Nat}
  {operands : List (Cursor × Evaluator)} {r : Relay Cursor} {L : List EntryId}

/-- A cursor, not too high, that behaves as one over the list of an operand. -/
def Stood (ctx : Context) (K : Candidate → Prop) (lists : Nat → List Candidate) (n j : Nat)
    (p : Position Nat) (c : Cursor) : Prop :=
  c.height ≤ n ∧ Listing.Sound (lists j).length p ∧
    Behaves ctx Call.IsMove (fun _ c ↦ K c) c (listed (lists j) p)

/-- The entries in the list of an operand. -/
def entriesOf (lists : Nat → List Candidate) (j : Nat) : List EntryId := (lists j).map Candidate.id

theorem tracks_stood (ctx : Context) (K : Candidate → Prop) (lists : Nat → List Candidate)
    (n j : Nat) :
    (walker ctx n).Tracks (Stands K) (entriesOf lists j) (Stood ctx K lists n j) :=
  (Behaves.tracks (fun _ hcall ↦ hcall) (lists j)).map fun _ _ _ hc ↦ hc

theorem height_relay_le
    (h : Relay.Spread ctx K (entriesOf lists) (Stood ctx K lists n) r) :
    height (relay r) ≤ n + 1 := by
  refine height_relay_le_iff.2 fun c hc ↦ ?_
  obtain ⟨j, hj⟩ := List.mem_iff_getElem?.1 hc
  obtain ⟨p, hp⟩ := h.stands j c hj
  exact hp.1

theorem rewind_relay (h : Relay.Spread ctx K (entriesOf lists) (Stood ctx K lists n) r)
    {Q : Relay Cursor → Prop}
    (hr : (Relay.rewind (walker ctx n) d).Ensures r (fun _ r' ↦ Q r') fun _ _ ↦ False) :
    (Cursor.rewind ctx d).Ensures (relay r) (fun _ c ↦ ∃ r', c = relay r' ∧ Q r')
      fun _ _ ↦ False :=
  (ensures_rewind_iff (height_relay_le h)).2
    (embeds_relay.ensures_rewind (hr.imp fun _ r' hr' ↦ ⟨r', rfl, hr'⟩))

theorem advance_relay (h : Relay.Spread ctx K (entriesOf lists) (Stood ctx K lists n) r)
    {Q : Bool → Relay Cursor → Prop}
    (hr : (Relay.advance (walker ctx n) ctx d).Ensures r Q fun _ _ ↦ False) :
    (Cursor.advance ctx d).Ensures (relay r) (fun found c ↦ ∃ r', c = relay r' ∧ Q found r')
      fun _ _ ↦ False :=
  (ensures_advance_iff (height_relay_le h)).2
    (embeds_relay.ensures_advance (hr.imp fun _ r' hr' ↦ ⟨r', rfl, hr'⟩))

theorem sane_fresh (hpos : 0 < operands.length)
    (h : ∀ j o, operands[j]? = some o → Dependable ctx K (lists j) o) :
    Relay.Sane ctx K (entriesOf lists) (Stood ctx K lists (heightOf (operands.map Prod.fst)))
      (.fresh operands) := by
  refine ⟨⟨fun j lane hlane c hc ↦ ?_, ?_, hpos.trans_eq (Relay.size_fresh operands).symm,
    fun j hj ↦ ?_, fun j s hs ↦ ?_⟩, rfl, fun d hd ↦ ?_⟩
  · rw [Relay.getElem?_lanes_fresh, Option.map_eq_some_iff] at hlane
    obtain ⟨o, ho, rfl⟩ := hlane
    refine ((o.2.evaluate_id ctx c).and ((h j o ho).accepts c hc)).mono ?_ fun _ _ he ↦ he.2
    rintro accepted c' ⟨hid, hc', haccept⟩
    exact ⟨hid, hc', haccept⟩
  · rw [Relay.length_lanes_fresh, Relay.size_fresh]
  · rw [Relay.size_fresh] at hj
    exact (h j _ (List.getElem?_eq_getElem hj)).nodup
  · rw [Relay.getElem?_sources_fresh, Option.map_eq_some_iff] at hs
    obtain ⟨o, ho, rfl⟩ := hs
    refine ⟨.unpositioned, height_le_heightOf ?_, trivial, (h j o ho).behaves⟩
    exact List.mem_map_of_mem (List.mem_of_getElem? ho)
  · cases d <;> exact nomatch hd

/-- Moves keep a disjunction sane. -/
theorem Reached.sane {r₀ : Relay Cursor} (h : Reached ctx (relay r₀) c)
    (h₀ : Relay.Sane ctx K (entriesOf lists) (Stood ctx K lists n) r₀) :
    ∃ r, c = relay r ∧ Relay.Sane ctx K (entriesOf lists) (Stood ctx K lists n) r := by
  have htracks := tracks_stood ctx K lists n
  refine h.keeps (I := fun c ↦ ∃ r, c = relay r ∧
      Relay.Sane ctx K (entriesOf lists) (Stood ctx K lists n) r) ?_ ?_ ⟨r₀, rfl, h₀⟩
  · rintro d _ ⟨r, rfl, hr⟩
    refine (rewind_relay hr.toSpread (hr.toSpread.rewind htracks hr.isOpen d)).mono ?_
      fun _ _ hfalse ↦ hfalse.elim
    rintro _ _ ⟨r', rfl, hedge, hp⟩
    exact ⟨r', rfl, hedge.sane hp⟩
  · rintro d _ ⟨r, rfl, hr⟩
    obtain ⟨l, hl⟩ := hr.toSpread.exists_poised hr.isOpen d
    refine (advance_relay hr.toSpread (hl.advance htracks)).mono ?_ fun _ _ hfalse ↦ hfalse.elim
    rintro _ _ ⟨r', rfl, found, -, hp, hfound⟩
    exact ⟨r', rfl, hfound.sane hp⟩

/-- After a full pass a disjunction has settled. -/
theorem Pass.settled (h : Pass ctx d (relay r) found c')
    (hr : Relay.Sane ctx K (entriesOf lists) (Stood ctx K lists n) r) :
    ∃ r', c' = relay r' ∧ found.Nodup ∧ Relay.SettledAt ctx K (entriesOf lists)
      (Stood ctx K lists n) (d.arrange found) (.finish d) r' := by
  have htracks := tracks_stood ctx K lists n
  refine h.complete (J := fun out c ↦ ∃ r, c = relay r ∧
      Relay.Underway ctx K (entriesOf lists) (Stood ctx K lists n) d out r)
    (D := fun out c ↦ ∃ r, c = relay r ∧ out.Nodup ∧ Relay.SettledAt ctx K (entriesOf lists)
      (Stood ctx K lists n) (d.arrange out) (.finish d) r) ?_ ?_ ?_
  · rintro out _ ⟨r, rfl, hr⟩
    have hadvance := hr.advance htracks
    obtain ⟨l, hl, -⟩ := hr
    refine (advance_relay hl.toSpread hadvance).imp ?_
    rintro found _ ⟨r', rfl, hfound⟩
    cases found with
    | false => exact ⟨r', rfl, hfound⟩
    | true =>
      obtain ⟨x, c, hc, ⟨rfl, -⟩, hunderway⟩ := hfound
      exact ⟨c, hc, r', rfl, hunderway⟩
  · refine (rewind_relay hr.toSpread (hr.toSpread.rewind htracks hr.isOpen d)).imp ?_
    rintro _ _ ⟨r', rfl, hedge, hp⟩
    exact ⟨r', rfl, (hedge.sane hp).underway (.inr hp)⟩
  · intro hp
    refine ⟨r, rfl, hr.underway ?_⟩
    refine hp.imp (fun hp ↦ ?_) fun hp ↦ ?_
    all_goals
      revert hp
      show r.standing.position.map _ = _ → _
      cases r.standing.position <;> cases d <;> first | exact fun _ ↦ rfl | exact nofun

/-- A disjunction that has settled behaves as a cursor over the list. -/
theorem follows_settled (hL : L.Nodup) :
    Follows ctx Call.IsMove (fun _ c ↦ K c) (n + 1) (L.map Candidate.bare) fun p c ↦
      ∃ r, c = relay r ∧
        Relay.SettledAt ctx K (entriesOf lists) (Stood ctx K lists n) L p r := by
  refine ⟨(embeds_relay.tracks (Relay.tracks_settled (tracks_stood ctx K lists n) hL)).map
    fun _ _ _ hc ↦ hc, ?_, ?_, fun _ hcall ↦ hcall.elim⟩
  · rintro p _ ⟨r, rfl, hr⟩
    exact height_relay_le hr.toSpread
  · rintro p _ ⟨r, rfl, hr⟩
    exact hr.shows.map_eq

/-- **Once a full pass is complete, a disjunction behaves under any further moves as a cursor over
what the pass has found, and every further pass finds the same entries, in the opposite order if it
goes the other way.** -/
theorem relay_settles (hpos : 0 < operands.length)
    (hoperands : ∀ j o, operands[j]? = some o → Dependable ctx K (lists j) o)
    (hc : Reached ctx (relay (.fresh operands)) c) (hpass : Pass ctx d c found c') :
    found.Nodup ∧
      Behaves ctx Call.IsMove (fun _ c ↦ K c) c'
        (listed ((d.arrange found).map Candidate.bare) (.finish d)) ∧
      ∀ c₁, Reached ctx c' c₁ → ∀ e found' c₂, Pass ctx e c₁ found' c₂ →
        found' = e.arrange (d.arrange found) := by
  obtain ⟨r, rfl, hr⟩ := hc.sane (sane_fresh hpos hoperands)
  obtain ⟨r', rfl, hnodup, hsettled⟩ := hpass.settled hr
  have hL : (d.arrange found).Nodup := (d.arrange_perm found).nodup_iff.2 hnodup
  have hsound := Listing.sound_finish ((d.arrange found).map Candidate.bare).length d
  have hbehaves := (follows_settled hL).behaves (follows_listed ctx Call.IsMove _)
    ⟨r', rfl, hsettled⟩ ⟨hsound, rfl⟩
  refine ⟨hnodup, hbehaves, fun c₁ hc₁ e found' c₂ hpass' ↦ ?_⟩
  obtain ⟨q, hq, hc₁⟩ := hbehaves.reached (fun _ hcall ↦ hcall) hsound hc₁
  have hids : ((d.arrange found).map Candidate.bare).map Candidate.id = d.arrange found := by
    rw [List.map_map]
    exact List.map_id _
  rw [hc₁.pass (fun _ hcall ↦ hcall) hq hpass', hids]

/-- The lists of two operands with an entry in common, and evaluators that accept everything: a pass
forwards finds three entries. -/
theorem relay_settles_common_entry :
    let ctx : Context := ⟨Store.empty.directory, .empty, .standard⟩
    let lists : Nat → List Candidate := fun j ↦ [[.bare 1, .bare 2], [.bare 2, .bare 3]].getD j []
    let operands : List (Cursor × Evaluator) :=
      [(ofList (lists 0), .all []), (ofList (lists 1), .all [])]
    let found : List EntryId := [1, 2, 3]
    ∃ c, Pass ctx .forward (relay (.fresh operands)) found c ∧
      found.Nodup ∧
      Behaves ctx Call.IsMove (fun _ _ ↦ True) c
        (listed (found.map Candidate.bare) (.finish .forward)) ∧
      ∀ c₁, Reached ctx c c₁ → ∀ e found' c₂, Pass ctx e c₁ found' c₂ →
        found' = e.arrange found := by
  intro ctx lists operands found
  have hlisted : ∀ l, Behaves ctx Call.IsMove (fun _ _ ↦ True) (ofList l) (ofList l) := by
    intro l
    have hfollows := (follows_listed ctx Call.IsMove l).map (S := fun _ _ ↦ True) (f := id)
      fun _ _ _ hid _ ↦ ⟨hid, trivial⟩
    rw [List.map_id] at hfollows
    exact hfollows.behaves (p := .unpositioned) (follows_listed ctx _ l) ⟨trivial, rfl⟩
      ⟨trivial, rfl⟩
  have hdependable : ∀ l : List Candidate, (l.map Candidate.id).Nodup →
      Dependable ctx (fun _ ↦ True) l (ofList l, .all []) := fun l hl ↦
    ⟨hl, hlisted l, fun _ _ ↦ Act.ensures_pure ⟨trivial, fun _ ↦ rfl⟩⟩
  have hoperands : ∀ j o, operands[j]? = some o → Dependable ctx (fun _ ↦ True) (lists j) o := by
    intro j o ho
    rcases j with _ | _ | j
    · obtain rfl := Option.some.inj ho
      exact hdependable _ (by decide)
    · obtain rfl := Option.some.inj ho
      exact hdependable _ (by decide)
    · exact absurd ho (Option.some_ne_none o).symm
  have hwalks : ∃ c, Walk ctx .forward (.begin .forward) (relay (.fresh operands)) found c :=
    exists_walk (t := .start .warn false) (by decide +kernel)
  obtain ⟨c, hwalk⟩ := hwalks
  have hpos : 0 < operands.length := Nat.zero_lt_two
  exact ⟨c, .inl hwalk, relay_settles hpos hoperands .refl (.inl hwalk)⟩

end Cursor
end DirectoryQuery
