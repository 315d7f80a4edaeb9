import DirectoryQuery.Proofs.Closing

/-!
# Walkers that are high enough

A cursor is moved by a walker made for its height, but the cursors within it by one made for
theirs or for more, because it is the highest of them that counts.  That makes no difference: all
walkers that are high enough for a cursor move it alike (`Cursor.walker_agrees`), and moves make no
cursor higher (`Cursor.walker_keeps_height`).  So to move a cursor is to move it by any walker that
is high enough (`Cursor.perform_advance`).
-/

set_option autoImplicit false

namespace DirectoryQuery

variable {σ τ α β : Type} {P : σ → Prop}

/-! ## Acts that do the same -/

namespace Act

/-- The acts do the same to everything that has the property. -/
def Agree (x y : Act σ α) (P : σ → Prop) : Prop := ∀ s, P s → x.perform s = y.perform s

theorem Agree.refl (x : Act σ α) : x.Agree x P := fun _ _ ↦ rfl

/-- Two sequences do the same if they do so part by part, and the first part keeps the property. -/
theorem Agree.bind {x y : Act σ β} {f g : β → Act σ α} (hxy : x.Agree y P) (hx : x.Keeps P)
    (hfg : ∀ b, (f b).Agree (g b) P) : (x >>= f).Agree (y >>= g) P := by
  intro s hs
  have hkept : y.Ensures s (fun _ s' ↦ P s') fun _ s' ↦ P s' := by
    rw [Act.Ensures, ← hxy s hs]
    exact hx s hs
  rw [perform_bind, perform_bind, hxy s hs]
  refine Effect.bind_congr_of_ensures hkept fun r hr ↦ ?_
  obtain ⟨o, s'⟩ := r
  cases o with
  | ok b => exact hfg b s' hr
  | error e => rfl

/-- What comes after a look at the thing has to be the same only for things with the property. -/
theorem Agree.get_bind {f g : σ → Act σ α} (h : ∀ s, P s → (f s).Agree (g s) P) :
    (get >>= f).Agree (get >>= g) P :=
  fun s hs ↦ h s hs s hs

theorem Agree.within {part : τ → σ} {put : τ → σ → τ} {x y : Act σ α} {Q : τ → Prop}
    (h : x.Agree y P) (hpart : ∀ whole, Q whole → P (part whole)) :
    (x.within part put).Agree (y.within part put) Q := by
  intro whole hwhole
  have hwithin : ∀ z : Act σ α, (z.within part put).perform whole =
      z.perform (part whole) >>= fun r ↦ pure (r.1, put whole r.2) := fun _ ↦ rfl
  rw [hwithin, hwithin, h _ (hpart whole hwhole)]

end Act

/-! ## Walkers that do the same -/

/-- The walkers do the same with everything that has the property. -/
structure Walker.Agrees (w w' : Walker σ) (P : σ → Prop) : Prop where
  rewind (d : Direction) : (w.rewind d).Agree (w'.rewind d) P
  advance (d : Direction) : (w.advance d).Agree (w'.advance d) P
  current (s : σ) : P s → w.current s = w'.current s
  extent (s : σ) : P s → w.extent s = w'.extent s

variable {w w' : Walker σ} {ctx : Context}

namespace Walker
theorem Agrees.seekWithin (h : w.Agrees w' P) (hw : w.Keeps P) (d : Direction)
    (accept : Act Candidate Bool) (moves : Nat) :
    (w.seekWithin d accept moves).Agree (w'.seekWithin d accept moves) P := by
  induction moves with
  | zero => exact .refl _
  | succ moves ih =>
    refine .bind (h.advance d) (hw.advance d) fun found ↦ ?_
    by_cases hfound : found = true
    · simp only [if_pos hfound]
      refine .bind (.refl _) (.effect _) fun _ ↦ .get_bind fun s hs ↦ ?_
      rw [h.current s hs]
      refine .bind (.refl _) (.except _) fun c ↦ ?_
      refine .bind (.refl _) (.attempt _) fun accepted ↦ ?_
      by_cases haccepted : accepted.1 = true
      · simp only [if_pos haccepted]
        exact .refl _
      · simp only [if_neg haccepted]
        exact ih
    · simp only [if_neg hfound]
      exact .refl _

theorem Agrees.seek (h : w.Agrees w' P) (hw : w.Keeps P) (d : Direction)
    (accept : Act Candidate Bool) : (w.seek d accept).Agree (w'.seek d accept) P := by
  refine .get_bind fun s hs ↦ ?_
  rw [h.extent s hs]
  exact h.seekWithin hw d accept _

end Walker

namespace Sieve

theorem agree_onSource {x y : Act σ α} (h : x.Agree y P) :
    (onSource x).Agree (onSource y) (Within P) :=
  h.within fun _ hs ↦ hs.1

theorem agrees (h : w.Agrees w' P) (hw : w.Keeps P) :
    (walker w ctx).Agrees (walker w' ctx) (Within P) := by
  have honSource : ∀ d, (onSource (w.rewind d)).Agree (onSource (w'.rewind d)) (Within P) :=
    fun d ↦ agree_onSource (h.rewind d)
  refine ⟨fun d ↦ ?_, fun d ↦ ?_, fun _ _ ↦ rfl, fun s hs ↦ h.extent _ hs.1⟩
  · refine .bind (.refl _) .get fun s ↦ .bind (.refl _) (.except _) fun _ ↦ ?_
    exact .bind (honSource d) (keeps_onSource (hw.rewind d)) fun _ ↦ .refl _
  · refine .bind (.refl _) .get fun s ↦ .bind (.refl _) (.except _) fun _ ↦ ?_
    have hrest : (do
        let found ← onSource (w.seek d (s.acceptance.accept ctx))
        if found.isSome then tally .emitted
        moveTo (.reached d found)
        return found.isSome : Act (Sieve σ) Bool).Agree (do
        let found ← onSource (w'.seek d (s.acceptance.accept ctx))
        if found.isSome then tally .emitted
        moveTo (.reached d found)
        return found.isSome) (Within P) :=
      .bind (agree_onSource (h.seek hw d _)) (keeps_onSource (hw.seek d _)) fun _ ↦ .refl _
    cases s.standing.position.isUnpositioned with
    | true => exact .bind (honSource d) (keeps_onSource (hw.rewind d)) fun _ ↦ hrest
    | false => exact hrest

end Sieve

namespace Relay

theorem agree_onActive {otherwise : α} {x y : Act σ α} (h : x.Agree y P) :
    (onActive otherwise x).Agree (onActive otherwise y) (Within P) := by
  intro r hr
  cases hsource : r.sources[r.active]? with
  | none => rw [perform_onActive_none hsource, perform_onActive_none hsource]
  | some source =>
    rw [perform_onActive hsource, perform_onActive hsource,
      h source (hr source (List.mem_of_getElem? hsource))]

theorem agree_activate (h : w.Agrees w' P) (d : Direction) (j : Nat) :
    (activate w d j).Agree (activate w' d j) (Within P) :=
  .bind (.refl _) (.modify fun _ hr ↦ hr) fun _ ↦ agree_onActive (h.rewind d)

theorem agree_rewind (h : w.Agrees w' P) (hw : w.Keeps P) (d : Direction) :
    (rewind w d).Agree (rewind w' d) (Within P) := by
  refine .bind (.refl _) .get fun r ↦ .bind (.refl _) (.except _) fun _ ↦ ?_
  exact .bind (agree_activate h d _) (keeps_activate hw d _) fun _ ↦ .refl _

theorem agree_seekActive (h : w.Agrees w' P) (hw : w.Keeps P) (d : Direction) :
    (seekActive w ctx d).Agree (seekActive w' ctx d) (Within P) := by
  refine .bind (.refl _) .get fun r ↦ ?_
  exact .bind (agree_onActive (h.seek hw d _)) (keeps_onActive (hw.seek d _)) fun _ ↦ .refl _

theorem agree_sweep (h : w.Agrees w' P) (hw : w.Keeps P) (d : Direction) (operands : Nat) :
    (sweep w ctx d operands).Agree (sweep w' ctx d operands) (Within P) := by
  induction operands with
  | zero => exact .refl _
  | succ operands ih =>
    refine .bind (agree_seekActive h hw d) (keeps_seekActive hw d) fun found ↦ ?_
    cases found with
    | some c => exact .refl _
    | none =>
      refine .bind (.refl _) .get fun r ↦ ?_
      cases r.nextOperand? d with
      | none => exact .refl _
      | some j => exact .bind (agree_activate h d j) (keeps_activate hw d j) fun _ ↦ ih

theorem agrees (h : w.Agrees w' P) (hw : w.Keeps P) :
    (walker w ctx).Agrees (walker w' ctx) (Within P) := by
  have hextent : ∀ r, Within P r → extent w r = extent w' r := fun r hr ↦
    congrArg List.sum (List.map_congr_left fun c hc ↦ h.extent c (hr c hc))
  refine ⟨agree_rewind h hw, fun d ↦ ?_, fun _ _ ↦ rfl, hextent⟩
  refine .bind (.refl _) .get fun r ↦ .bind (.refl _) (.except _) fun _ ↦ ?_
  have hrest : (do
      let found ← sweep w ctx d r.size
      if found.isSome then tally .emitted
      moveTo (.reached d found)
      return found.isSome : Act (Relay σ) Bool).Agree (do
      let found ← sweep w' ctx d r.size
      if found.isSome then tally .emitted
      moveTo (.reached d found)
      return found.isSome) (Within P) :=
    .bind (agree_sweep h hw d _) (keeps_sweep hw d _) fun _ ↦ .refl _
  by_cases hfresh : r.standing.position.isUnpositioned = true
  · simp only [if_pos hfresh]
    exact .bind (agree_rewind h hw d) (keeps_rewind hw d) fun _ ↦ hrest
  · simp only [if_neg hfresh]
    exact hrest

end Relay

/-! ## Walkers for cursors -/

namespace Cursor

theorem heightOf_le_iff {cs : List Cursor} {k : Nat} :
    heightOf cs ≤ k ↔ ∀ c ∈ cs, c.height ≤ k := by
  induction cs with
  | nil => simp [heightOf]
  | cons c cs ih => rw [heightOf, Nat.max_le, ih, List.forall_mem_cons]

theorem height_sieve_le_iff {s : Sieve Cursor} {k : Nat} :
    height (sieve s) ≤ k + 1 ↔ s.Within fun c ↦ c.height ≤ k := by
  rw [height, Nat.add_le_add_iff_right, Nat.max_le, heightOf_le_iff]
  rfl

theorem height_relay_le_iff {r : Relay Cursor} {k : Nat} :
    height (relay r) ≤ k + 1 ↔ r.Within fun c ↦ c.height ≤ k := by
  rw [height, Nat.add_le_add_iff_right, heightOf_le_iff]
  rfl

theorem height_pos (c : Cursor) : 0 < c.height := by
  cases c <;> simp [height]

/-- **Moves make no cursor higher.** -/
theorem walker_keeps_height (ctx : Context) (n k : Nat) :
    (walker ctx n).Keeps fun c ↦ c.height ≤ k := by
  induction n generalizing k with
  | zero => exact ⟨fun _ ↦ .pure (), fun _ ↦ .pure false⟩
  | succ n ih =>
    cases k with
    | zero =>
      have hnone : ∀ c : Cursor, ¬c.height ≤ 0 := fun c ↦ Nat.not_le.2 c.height_pos
      exact ⟨fun _ c hc ↦ absurd hc (hnone c), fun _ c hc ↦ absurd hc (hnone c)⟩
    | succ k =>
      have hreel : ∀ r, height (reel r) ≤ k + 1 := fun _ ↦ Nat.succ_le_succ (Nat.zero_le k)
      refine keeps_succ (ih k) ⟨?_, ?_⟩ ?_ (fun _ ↦ height_sieve_le_iff) fun _ ↦ height_relay_le_iff
      · exact fun d r _ ↦ Act.ensures_of_forall (fun _ _ ↦ hreel _) fun _ _ ↦ hreel _
      · exact fun d r _ ↦ Act.ensures_of_forall (fun _ _ ↦ hreel _) fun _ _ ↦ hreel _
      · exact fun m c hc ↦ ⟨Nat.le_of_succ_le_succ hc, fun _ _ hc' ↦ Nat.succ_le_succ hc'⟩

/-- **All walkers that are high enough move a cursor alike.** -/
theorem walker_agrees (ctx : Context) {n m : Nat} (h : n ≤ m) :
    (walker ctx n).Agrees (walker ctx m) fun c ↦ c.height ≤ n := by
  induction n generalizing m with
  | zero =>
    have hnone : ∀ c : Cursor, ¬c.height ≤ 0 := fun c ↦ Nat.not_le.2 c.height_pos
    exact ⟨fun _ c hc ↦ absurd hc (hnone c), fun _ c hc ↦ absurd hc (hnone c),
      fun c hc ↦ absurd hc (hnone c), fun c hc ↦ absurd hc (hnone c)⟩
  | succ n ih =>
    obtain ⟨m, rfl⟩ := Nat.exists_eq_succ_of_ne_zero (n := m) (by omega)
    have hwithin := ih (Nat.le_of_succ_le_succ h)
    have hkeeps := walker_keeps_height ctx n n
    have hsieve : (Sieve.walker (walker ctx n) ctx).Agrees (Sieve.walker (walker ctx m) ctx)
        (Sieve.Within fun c ↦ c.height ≤ n) := Sieve.agrees hwithin hkeeps
    have hrelay : (Relay.walker (walker ctx n) ctx).Agrees (Relay.walker (walker ctx m) ctx)
        (Relay.Within fun c ↦ c.height ≤ n) := Relay.agrees hwithin hkeeps
    refine ⟨fun d c hc ↦ ?_, fun d c hc ↦ ?_, fun _ _ ↦ rfl, fun _ _ ↦ rfl⟩
    · cases c with
      | reel r => rfl
      | monitored m' inner =>
        rw [rewind_monitored, rewind_monitored, hwithin.rewind d _ (Nat.le_of_succ_le_succ hc)]
      | sieve s =>
        rw [embeds_sieve.rewind, embeds_sieve.rewind, hsieve.rewind d _ (height_sieve_le_iff.1 hc)]
      | relay r =>
        rw [embeds_relay.rewind, embeds_relay.rewind, hrelay.rewind d _ (height_relay_le_iff.1 hc)]
    · cases c with
      | reel r => rfl
      | monitored m' inner =>
        rw [advance_monitored, advance_monitored, hwithin.advance d _ (Nat.le_of_succ_le_succ hc)]
      | sieve s =>
        rw [embeds_sieve.advance, embeds_sieve.advance,
          hsieve.advance d _ (height_sieve_le_iff.1 hc)]
      | relay r =>
        rw [embeds_relay.advance, embeds_relay.advance,
          hrelay.advance d _ (height_relay_le_iff.1 hc)]

/-- To move a cursor is to move it by any walker that is high enough. -/
theorem perform_advance {ctx : Context} {n : Nat} {c : Cursor} (h : c.height ≤ n) (d : Direction) :
    (Cursor.advance ctx d).perform c = ((walker ctx n).advance d).perform c :=
  (walker_agrees ctx h).advance d c (Nat.le_refl _)

theorem perform_rewind {ctx : Context} {n : Nat} {c : Cursor} (h : c.height ≤ n) (d : Direction) :
    (Cursor.rewind ctx d).perform c = ((walker ctx n).rewind d).perform c :=
  (walker_agrees ctx h).rewind d c (Nat.le_refl _)

end Cursor
end DirectoryQuery
