import DirectoryQuery.Proofs.Parts
import DirectoryQuery.Proofs.Passes

/-!
# How long a pass can be

A cursor has an extent, which is the same whatever moves are made (`Cursor.lasting_extent`).  A full
pass finds no more entries than the extent says (`Cursor.Pass.length_le`), as long as every list
within the cursor has a place for it to stand.  Cursors that were just made are such, and moves keep
them so (`Cursor.walker_keeps_firm`).
-/

set_option autoImplicit false

namespace DirectoryQuery

variable {σ : Type} {ctx : Context} {d : Direction}

/-! ## Lists with a place to stand -/

/-- If the reel stands on an element, then there is one in the list. -/
def Reel.Firm (r : Reel) : Prop :=
  ∀ i, r.listing.standing.position = .onElement i → i < r.listing.size

theorem Listing.neighbour_lt {n i : Nat} {p : Position Nat} (h : neighbour n d p = some i)
    (hp : ∀ j, p = .onElement j → j < n) : i < n := by
  cases d <;> cases p <;> simp [neighbour] at h hp <;> omega

theorem Reel.keeps_firm : Reel.walker.Keeps Firm := by
  refine ⟨fun d r hr ↦ ensures_onListing ?_, fun d r hr ↦ ?_⟩
  · refine Act.ensures_bind (Act.ensures_get ?_)
    refine Act.ensures_except_bind (fun _ _ ↦ hr) fun _ _ ↦ Act.ensures_set fun i hi ↦ ?_
    cases d <;> cases hi
  · refine Act.ensures_bind (Act.ensures_get (Act.ensures_bind (Act.ensures_set ?_)))
    cases r.monitor.bind Monitor.refusal? with
    | some e => exact Act.ensures_throw hr
    | none =>
      refine ensures_onListing (Act.ensures_bind (Act.ensures_get ?_))
      refine Act.ensures_except_bind (fun _ _ ↦ hr) fun _ _ ↦ ?_
      refine Act.ensures_bind (Act.ensures_set (Act.ensures_pure fun i hi ↦ ?_))
      cases hfound : Listing.neighbour r.listing.size d r.listing.standing.position with
      | none =>
        rw [hfound] at hi
        cases d <;> cases hi
      | some j =>
        rw [hfound] at hi
        obtain rfl := Position.onElement.inj hi
        exact Listing.neighbour_lt hfound hr

theorem Reel.ahead_le {r : Reel} (hr : r.Firm) (d : Direction) : r.ahead d ≤ r.listing.size := by
  unfold ahead Listing.toCome
  split <;> first | exact Nat.sub_le _ _ | exact Nat.zero_le _ | exact Nat.le_refl _ | skip
  rename_i i hi
  exact Nat.le_of_lt (hr i hi)

/-- What is ahead of the active operand and in those after it is part of all that there is. -/
theorem Relay.left_le {room : σ → Nat} {μ : Direction → σ → Nat} {r : Relay σ}
    (h : ∀ s ∈ r.sources, μ d s ≤ room s) : left room μ d r ≤ (r.sources.map room).sum := by
  have hsplit : ((r.sources.take r.active).map room).sum +
      ((r.sources.drop r.active).map room).sum = (r.sources.map room).sum := by
    rw [← List.sum_append, ← List.map_append, List.take_append_drop]
  have hactive : (r.sources[r.active]?.map (μ d)).getD 0 +
      ((r.sources.drop (r.active + 1)).map room).sum ≤
        ((r.sources.drop r.active).map room).sum := by
    rcases Nat.lt_or_ge r.active r.sources.length with hlt | hge
    · rw [List.drop_eq_getElem_cons hlt, List.map_cons, List.sum_cons,
        List.getElem?_eq_getElem hlt]
      exact Nat.add_le_add_right (h _ (List.getElem_mem hlt)) _
    · simp [List.getElem?_eq_none hge, List.drop_eq_nil_of_le hge,
        List.drop_eq_nil_of_le (Nat.le_succ_of_le hge)]
  rw [left, ← hsplit]
  cases d with
  | forward => exact Nat.le_trans hactive (Nat.le_add_left _ _)
  | backward =>
    rw [Listing.upcoming, ((List.reverse_perm _).map room).sum_nat]
    omega

/-- To collect does not come to more entries than there is room for. -/
theorem Walker.Bounded.collect {w : Walker σ} {room : σ → Nat} {μ : Direction → σ → Nat}
    (h : w.Bounded room μ) (d : Direction) (s : σ) :
    (w.collect d).Ensures s (fun ids _ ↦ ids.length ≤ room s) fun _ _ ↦ True := by
  have hrest : ∀ moves s, (w.collectWithin d moves).Ensures s (fun ids _ ↦ ids.length ≤ μ d s)
      fun _ _ ↦ True := by
    intro moves
    induction moves with
    | zero => exact fun s ↦ Act.ensures_pure (Nat.zero_le _)
    | succ moves ih =>
      refine fun s ↦ Act.ensures_bind ((h.advance d s).imp fun found s' hs' ↦ ?_)
      cases found with
      | false => exact Act.ensures_pure (Nat.zero_le _)
      | true =>
        refine Act.ensures_bind (Act.ensures_get ?_)
        refine Act.ensures_except_bind (fun _ _ ↦ trivial) fun c _ ↦ Act.ensures_bind ?_
        exact (ih s').imp fun ids _ hids ↦ Act.ensures_pure
          (Nat.le_trans (Nat.succ_le_succ hids) hs')
  refine Act.ensures_bind ((h.rewind d s).imp fun _ s' hs' ↦ Act.ensures_bind ?_)
  exact Act.ensures_get ((hrest _ s').imp fun ids _ hids ↦ Nat.le_trans hids hs'.1)

namespace Cursor

mutual
/-- Every list within the cursor has a place for it to stand. -/
def Firm : Cursor → Prop
  | reel r => r.Firm
  | monitored _ inner => Firm inner
  | sieve ⟨_, source, idle, _⟩ => Firm source ∧ FirmEach idle
  | relay ⟨sources, _, _, _⟩ => FirmEach sources
/-- Every list within the cursors has a place for it to stand. -/
def FirmEach : List Cursor → Prop
  | [] => True
  | c :: cs => Firm c ∧ FirmEach cs
end

theorem firmEach_iff {cs : List Cursor} : FirmEach cs ↔ ∀ c ∈ cs, c.Firm := by
  induction cs with
  | nil => exact ⟨fun _ c hc ↦ absurd hc List.not_mem_nil, fun _ ↦ trivial⟩
  | cons c cs ih => rw [FirmEach, ih, List.forall_mem_cons]

theorem firm_sieve {s : Sieve Cursor} : Firm (sieve s) ↔ s.Within Firm :=
  and_congr_right fun _ ↦ firmEach_iff

theorem firm_relay {r : Relay Cursor} : Firm (relay r) ↔ r.Within Firm := firmEach_iff

/-- Moves keep a place to stand for every list. -/
theorem walker_keeps_firm (ctx : Context) (n : Nat) : (walker ctx n).Keeps Firm := by
  induction n with
  | zero => exact ⟨fun _ ↦ .pure (), fun _ ↦ .pure false⟩
  | succ n ih =>
    exact keeps_succ ih Reel.keeps_firm (fun _ _ hc ↦ ⟨hc, fun _ _ ↦ id⟩) (fun _ ↦ firm_sieve)
      fun _ ↦ firm_relay

theorem compositional_firm : Compositional Firm where
  reel _ := fun _ hi ↦ nomatch hi
  sieve _ _ _ hsource hidle := ⟨hsource, firmEach_iff.2 hidle⟩
  relay h := firmEach_iff.2 (List.forall_mem_map.2 h)

/-! ## Extents -/

theorem lasting_extent : Lasting extent where
  reel h := congrArg List.length h.candidates
  monitored _ hc := hc
  sieve h := h.source
  relay h := by
    show extentOf _ = extentOf _
    rw [extentOf_eq_sum, extentOf_eq_sum, h.sources]

/-- What is ahead of a cursor is not above its extent. -/
theorem ahead_le_extent (n : Nat) {c : Cursor} (hc : c.Firm) (d : Direction) :
    ahead n d c ≤ c.extent := by
  induction n generalizing c with
  | zero => exact Nat.zero_le _
  | succ n ih =>
    cases c with
    | reel r => exact Reel.ahead_le hc d
    | monitored m inner => exact ih hc
    | sieve s =>
      show (if s.standing.position.isUnpositioned then extent s.source else _) ≤ extent s.source
      split
      · exact Nat.le_refl _
      · exact ih (firm_sieve.1 hc).1
    | relay r =>
      show (if r.standing.position.isUnpositioned then _ else _) ≤ extentOf r.sources
      rw [extentOf_eq_sum]
      split
      · exact Nat.le_refl _
      · exact Relay.left_le fun c hmem ↦ ih (firm_relay.1 hc c hmem)

/-! ## Passes -/

variable {c c' c₀ : Cursor} {call : Call} {found : List EntryId} {n k : Nat}

/-- A walk finds no more entries than its first call and what is ahead then allow. -/
theorem Walk.length_le (h : Walk ctx d call c found c')
    (hcall : (call.perform ctx).Ensures c
      (fun a c₁ ↦ c₁.height ≤ n ∧ ∀ b, a = .found b → ahead n d c₁ + b.toNat ≤ k)
      fun _ _ ↦ True) : found.length ≤ k := by
  induction h generalizing k with
  | finish => exact Nat.zero_le _
  | @step call c c₁ c' t x found hrun hx hrest ih =>
    obtain ⟨hheight, hahead⟩ := ensures_run hcall hrun
    replace hahead : ahead n d c₁ + 1 ≤ k := hahead true rfl
    obtain ⟨k, rfl⟩ := Nat.exists_eq_succ_of_ne_zero (n := k) (by omega)
    refine Nat.succ_le_succ (ih (Act.ensures_bind ?_))
    have hmove := (walker_bounded ctx n).advance d c₁
    have hkeeps := (walker_keeps_height ctx n n).advance d c₁ hheight
    refine (ensures_advance_iff hheight).2 ((hmove.and hkeeps).mono ?_ fun _ _ _ ↦ trivial)
    rintro found' c₂ ⟨hle, hheight'⟩
    refine Act.ensures_pure ⟨hheight', fun b hb ↦ ?_⟩
    obtain rfl := Answer.found.inj hb
    omega

/-- **A full pass finds no more entries than the extent of the cursor says.** -/
theorem Pass.length_le (h : Pass ctx d c found c') (hc : c.Firm) : found.length ≤ c.extent := by
  have hbounded := walker_bounded ctx c.height
  have hheight := walker_keeps_height ctx c.height c.height
  -- one step, from wherever it is made
  have hadvance : ∀ c₁ : Cursor, c₁.height ≤ c.height → ahead c.height d c₁ ≤ c.extent →
      (Cursor.advance ctx d).Ensures c₁
        (fun b c₂ ↦ c₂.height ≤ c.height ∧ ahead c.height d c₂ + b.toNat ≤ c.extent)
        fun _ _ ↦ True := by
    intro c₁ hc₁ hle
    refine (ensures_advance_iff hc₁).2 ?_
    refine ((hbounded.advance d c₁).and (hheight.advance d c₁ hc₁)).mono ?_ fun _ _ _ ↦ trivial
    exact fun b c₂ h₂ ↦ ⟨h₂.2, Nat.le_trans h₂.1 hle⟩
  rcases h with hwalk | ⟨-, hwalk⟩
  · refine hwalk.length_le (n := c.height) (Act.ensures_bind (Act.ensures_bind ?_))
    refine (ensures_rewind_iff (Nat.le_refl _)).2 ?_
    refine ((hbounded.rewind d c).and (hheight.rewind d c (Nat.le_refl _))).mono ?_
      fun _ _ _ ↦ trivial
    rintro - c₁ ⟨⟨hahead, -⟩, hc₁⟩
    refine (hadvance c₁ hc₁ hahead).imp fun b c₂ h₂ ↦ Act.ensures_pure ⟨h₂.1, fun b' hb ↦ ?_⟩
    exact Answer.found.inj hb ▸ h₂.2
  · refine hwalk.length_le (n := c.height) (Act.ensures_bind ?_)
    refine (hadvance c (Nat.le_refl _) (ahead_le_extent _ hc d)).imp fun b c₂ h₂ ↦
      Act.ensures_pure ⟨h₂.1, fun b' hb ↦ ?_⟩
    exact Answer.found.inj hb ▸ h₂.2

/-- What lasts is the same after any moves. -/
theorem Lasting.reached {τ : Type} {f : Cursor → τ} (hf : Lasting f) (h : Reached ctx c₀ c) :
    f c = f c₀ := by
  induction h with
  | refl => rfl
  | step _ hcall t ih => exact (hf.run hcall t _).trans ih

/-- What is found after any moves is bounded by the extent that the cursor had before them. -/
theorem Reached.length_le (h : Reached ctx c₀ c) (hc₀ : c₀.Firm) (hpass : Pass ctx d c found c') :
    found.length ≤ c₀.extent := by
  have hfirm := fun n ↦ walker_keeps_firm ctx n
  have hc : c.Firm := h.keeps (fun d ↦ .bind .get fun _ ↦ (hfirm _).rewind d)
    (fun d ↦ .bind .get fun _ ↦ (hfirm _).advance d) hc₀
  rw [← lasting_extent.reached h]
  exact hpass.length_le hc

end Cursor
end DirectoryQuery
