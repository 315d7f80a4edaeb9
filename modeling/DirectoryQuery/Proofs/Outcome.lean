import DirectoryQuery.Trace

/-!
# What a computation ensures

Effects, attempts and acts read no trace, they only add to one.  So what they come to is described
by a condition on the outcome that holds *whatever the trace before them is*.  `Ensures` says that
such a condition holds; attempts and acts have two conditions, one for the answer and one for the
failure, and those of an act also speak of the thing acted on as it is afterwards.

There is one rule for each way in which computations are put together.  Each is applied backwards:
the rule for a sequence asks that the first part ensures what the rest needs, so a proof follows
the text of the computation.
-/

set_option autoImplicit false

namespace DirectoryQuery

variable {σ τ α β : Type}

/-- What an outcome has to satisfy: the one condition on an answer, the other on a failure. -/
def Meets (Q : α → Prop) (E : SearchError → Prop) : Except SearchError α → Prop
  | .ok a => Q a
  | .error e => E e

theorem Meets.mono {Q Q' : α → Prop} {E E' : SearchError → Prop} {o : Except SearchError α}
    (h : Meets Q E o) (hQ : ∀ a, Q a → Q' a) (hE : ∀ e, E e → E' e) : Meets Q' E' o := by
  cases o with
  | ok a => exact hQ a h
  | error e => exact hE e h

theorem meets_const {p : Prop} {o : Except SearchError α} :
    Meets (fun _ ↦ p) (fun _ ↦ p) o ↔ p := by
  cases o <;> exact Iff.rfl

theorem meets_true (o : Except SearchError α) : Meets (fun _ ↦ True) (fun _ ↦ True) o := by
  cases o <;> exact trivial

/-! ## Outcomes at hand -/

theorem bind_eq_ok {ε : Type} {x : Except ε α} {f : α → Except ε β} {b : β} :
    x >>= f = .ok b ↔ ∃ a, x = .ok a ∧ f a = .ok b := by
  cases x with
  | ok a => exact ⟨fun h ↦ ⟨a, rfl, h⟩, fun ⟨_, ha, h⟩ ↦ Except.ok.inj ha ▸ h⟩
  | error e => exact ⟨nofun, fun ⟨_, ha, _⟩ ↦ nomatch ha⟩

theorem mapError_eq_ok {ε ε' : Type} {x : Except ε α} {f : ε → ε'} {a : α} :
    x.mapError f = .ok a ↔ x = .ok a := by
  cases x with
  | ok b => exact ⟨fun h ↦ congrArg _ (Except.ok.inj h), fun h ↦ congrArg _ (Except.ok.inj h)⟩
  | error e => exact ⟨nofun, nofun⟩

theorem toOption_eq_some {ε : Type} {x : Except ε α} {a : α} :
    x.toOption = some a ↔ x = .ok a := by
  cases x with
  | ok b => exact ⟨fun h ↦ congrArg _ (Option.some.inj h), fun h ↦ congrArg _ (Except.ok.inj h)⟩
  | error e => exact ⟨nofun, nofun⟩

theorem exists_of_mapError {ε ε' : Type} {x : Except ε α} {f : ε → ε'} {e : ε'}
    (h : x.mapError f = .error e) : ∃ e', f e' = e := by
  cases x with
  | ok a => exact nomatch h
  | error e' => exact ⟨e', Except.error.inj h⟩

theorem run_bind_ok {ε : Type} {x : ExceptT ε (StateM σ) α} {f : α → ExceptT ε (StateM σ) β}
    {s s' : σ} {a : α} (h : StateT.run x.run s = (.ok a, s')) :
    StateT.run (x >>= f).run s = StateT.run (f a).run s' := by
  have hrun : StateT.run (x >>= f).run s =
      StateT.run (ExceptT.bindCont f (StateT.run x.run s).1) (StateT.run x.run s).2 := rfl
  rw [hrun, h]
  rfl

theorem run_bind_error {ε : Type} {x : ExceptT ε (StateM σ) α} {f : α → ExceptT ε (StateM σ) β}
    {s s' : σ} {e : ε} (h : StateT.run x.run s = (.error e, s')) :
    StateT.run (x >>= f).run s = (.error e, s') := by
  have hrun : StateT.run (x >>= f).run s =
      StateT.run (ExceptT.bindCont f (StateT.run x.run s).1) (StateT.run x.run s).2 := rfl
  rw [hrun, h]
  rfl

/-! ## Effects -/

/-- The answer of the effect satisfies the condition, whatever the trace is. -/
def Effect.Ensures (x : Effect α) (Q : α → Prop) : Prop := ∀ t, Q (StateT.run x t).1

namespace Effect

theorem Ensures.mono {x : Effect α} {Q Q' : α → Prop} (h : Effect.Ensures x Q)
    (hQ : ∀ a, Q a → Q' a) : Effect.Ensures x Q' :=
  fun t ↦ hQ _ (h t)

theorem ensures_pure {a : α} {Q : α → Prop} (h : Q a) : Effect.Ensures (pure a) Q := fun _ ↦ h

/-- What comes after an effect has to be the same only for the answers that it can give. -/
theorem bind_congr_of_ensures {x : Effect α} {f g : α → Effect β} {Q : α → Prop}
    (h : Effect.Ensures x Q) (hfg : ∀ a, Q a → f a = g a) : x >>= f = x >>= g :=
  funext fun t ↦ congrFun (hfg _ (h t)) (StateT.run x t).2

theorem ensures_bind {x : Effect α} {f : α → Effect β} {Q : β → Prop}
    (h : Effect.Ensures x fun a ↦ Effect.Ensures (f a) Q) : Effect.Ensures (x >>= f) Q :=
  fun t ↦ h t (StateT.run x t).2

end Effect

theorem ensures_note (e : Event) (fields : List (String × String)) :
    Effect.Ensures (note e fields) fun _ ↦ True :=
  fun _ ↦ trivial

/-! ## Attempts -/

namespace Attempt

/-- What the attempt comes to when so much has been logged and counted before. -/
def outcome (x : Attempt α) (t : Trace) : Except SearchError α := (StateT.run x.run t).1

/-- The answer of the attempt satisfies the one condition or its failure the other, whatever the
trace is. -/
def Ensures (x : Attempt α) (Q : α → Prop) (E : SearchError → Prop) : Prop :=
  Effect.Ensures x.run (Meets Q E)

variable {Q Q' : α → Prop} {E E' : SearchError → Prop}

theorem Ensures.mono {x : Attempt α} (h : Attempt.Ensures x Q E) (hQ : ∀ a, Q a → Q' a)
    (hE : ∀ e, E e → E' e) : Attempt.Ensures x Q' E' :=
  Effect.Ensures.mono h fun _ ho ↦ ho.mono hQ hE

/-- What holds of everything is ensured. -/
theorem ensures_of_forall {x : Attempt α} (hQ : ∀ a, Q a) (hE : ∀ e, E e) :
    Attempt.Ensures x Q E := by
  intro t
  cases (StateT.run x.run t).1 with
  | ok a => exact hQ a
  | error e => exact hE e

theorem Ensures.outcome {x : Attempt α} (h : Attempt.Ensures x Q E) (t : Trace) :
    Meets Q E (x.outcome t) :=
  h t

theorem ensures_pure {a : α} (h : Q a) : Attempt.Ensures (pure a) Q E := fun _ ↦ h

/-- An outcome that is at hand. -/
theorem ensures_except {o : Except SearchError α} (h : Meets Q E o) :
    Attempt.Ensures (liftM o : Attempt α) Q E :=
  fun _ ↦ h

/-- An effect never fails. -/
theorem ensures_effect {x : Effect α} (h : Effect.Ensures x Q) :
    Attempt.Ensures (liftM x : Attempt α) Q E :=
  fun t ↦ h t

theorem run_bind (x : Attempt β) (f : β → Attempt α) :
    (x >>= f).run = x.run >>= fun o ↦ match o with
      | .ok b => (f b).run
      | .error e => pure (.error e) := by
  funext t
  show ExceptT.bindCont f (x.run t).1 (x.run t).2 = (match (x.run t).1 with
      | .ok b => (f b).run
      | .error e => pure (.error e)) (x.run t).2
  cases (x.run t).1 <;> rfl

theorem ensures_bind {x : Attempt β} {f : β → Attempt α}
    (h : Attempt.Ensures x (fun b ↦ Attempt.Ensures (f b) Q E) E) :
    Attempt.Ensures (x >>= f) Q E := by
  rw [Attempt.Ensures, run_bind]
  refine Effect.ensures_bind (Effect.Ensures.mono h fun o ho ↦ ?_)
  cases o with
  | ok b => exact ho
  | error e => exact Effect.ensures_pure ho

/-- An attempt that succeeds has succeeded in its first part. -/
theorem exists_of_outcome_bind {x : Attempt β} {f : β → Attempt α} {t : Trace}
    {a : α} (h : (x >>= f).outcome t = .ok a) :
    ∃ b t', x.outcome t = .ok b ∧ (f b).outcome t' = .ok a := by
  have hrun : (x >>= f).outcome t =
    (ExceptT.bindCont f (x.outcome t) (StateT.run x.run t).2).1 := rfl
  rw [hrun] at h
  cases hx : x.outcome t with
  | ok b =>
    rw [hx] at h
    exact ⟨b, _, rfl, h⟩
  | error e =>
    rw [hx] at h
    have hfailed : (.error e : Except SearchError α) = .ok a := h
    cases hfailed

/-- The attempt comes to the given outcome, whatever the trace is. -/
def Follows (x : Attempt α) (o : Except SearchError α) : Prop :=
  Attempt.Ensures x (fun a ↦ o = .ok a) fun e ↦ o = .error e

theorem Follows.outcome_eq {x : Attempt α} {o : Except SearchError α} (h : Follows x o)
    (t : Trace) : x.outcome t = o := by
  have ht := Ensures.outcome h t
  cases hx : x.outcome t with
  | ok a =>
    rw [hx] at ht
    exact ht.symm
  | error e =>
    rw [hx] at ht
    exact ht.symm

theorem Follows.pure (a : α) : Follows (pure a) (.ok a) := fun _ ↦ rfl

theorem Follows.except (o : Except SearchError α) : Follows (liftM o) o := by
  refine ensures_except ?_
  cases o with
  | ok a => exact rfl
  | error e => exact rfl

/-- An effect on the way makes no difference. -/
theorem Follows.effect_bind {x : Effect β} {f : β → Attempt α} {o : Except SearchError α}
    (h : ∀ b, Follows (f b) o) : Follows ((liftM x : Attempt β) >>= f) o :=
  ensures_bind (ensures_effect fun _ ↦ h _)

theorem Follows.bind {x : Attempt β} {f : β → Attempt α} {o : Except SearchError β}
    {g : β → Except SearchError α} (h : Follows x o) (hf : ∀ b, Follows (f b) (g b)) :
    Follows (x >>= f) (o >>= g) := by
  refine ensures_bind (Ensures.mono h ?_ ?_)
  · rintro b rfl
    exact hf b
  · rintro e rfl
    exact rfl

end Attempt

/-! ## Acts -/

namespace Act

/-- What the act comes to, and the thing afterwards. -/
def outcome (act : Act σ α) (s : σ) : Except SearchError α × σ :=
  (StateT.run (act.perform s) (.start .warn false)).1

/-- Done to the thing given, the act has an answer or a failure that satisfies the condition for it
together with the thing as it is afterwards, whatever the trace is. -/
def Ensures (act : Act σ α) (s : σ) (Q : α → σ → Prop) (E : SearchError → σ → Prop) : Prop :=
  Effect.Ensures (act.perform s) fun r ↦ Meets (fun a ↦ Q a r.2) (fun e ↦ E e r.2) r.1

variable {Q Q' : α → σ → Prop} {E E' : SearchError → σ → Prop} {s : σ}

theorem Ensures.mono {act : Act σ α} (h : act.Ensures s Q E) (hQ : ∀ a s', Q a s' → Q' a s')
    (hE : ∀ e s', E e s' → E' e s') : act.Ensures s Q' E' :=
  Effect.Ensures.mono h fun r hr ↦ hr.mono (fun a ↦ hQ a r.2) fun e ↦ hE e r.2

/-- A weaker condition on the answer. -/
theorem Ensures.imp {act : Act σ α} (h : act.Ensures s Q E) (hQ : ∀ a s', Q a s' → Q' a s') :
    act.Ensures s Q' E :=
  h.mono hQ fun _ _ he ↦ he

/-- Two things ensured are ensured together. -/
theorem Ensures.and {act : Act σ α} (h : act.Ensures s Q E) (h' : act.Ensures s Q' E') :
    act.Ensures s (fun a s' ↦ Q a s' ∧ Q' a s') (fun e s' ↦ E e s' ∧ E' e s') := by
  intro t
  have ht := h t
  have ht' := h' t
  revert ht ht'
  obtain ⟨o, s'⟩ := (StateT.run (act.perform s) t).1
  cases o with
  | ok a => exact fun ht ht' ↦ ⟨ht, ht'⟩
  | error e => exact fun ht ht' ↦ ⟨ht, ht'⟩

/-- What the outcome and the thing afterwards are like in any case. -/
theorem Ensures.run {act : Act σ α} {P : Except SearchError α → σ → Prop}
    (h : act.Ensures s (fun a s' ↦ P (.ok a) s') fun e s' ↦ P (.error e) s') (t : Trace) :
    P (StateT.run (act.perform s) t).1.1 (StateT.run (act.perform s) t).1.2 := by
  have ht := h t
  revert ht
  obtain ⟨o, s'⟩ := (StateT.run (act.perform s) t).1
  cases o with
  | ok a => exact id
  | error e => exact id

/-- What the thing is like afterwards in any case. -/
theorem Ensures.changed {act : Act σ α} {P : σ → Prop}
    (h : act.Ensures s (fun _ s' ↦ P s') fun _ s' ↦ P s') (t : Trace) :
    P (StateT.run (act.perform s) t).1.2 :=
  h.run (P := fun _ s' ↦ P s') t

/-- What holds of everything is ensured. -/
theorem ensures_of_forall {act : Act σ α} (hQ : ∀ a s', Q a s') (hE : ∀ e s', E e s') :
    act.Ensures s Q E := by
  intro t
  cases (StateT.run (act.perform s) t).1.1 with
  | ok a => exact hQ a _
  | error e => exact hE e _

theorem ensures_pure {a : α} (h : Q a s) : Act.Ensures (pure a) s Q E := fun _ ↦ h

theorem ensures_throw {e : SearchError} (h : E e s) :
    Act.Ensures (throw e : Act σ α) s Q E :=
  fun _ ↦ h

theorem ensures_get {Q : σ → σ → Prop} (h : Q s s) : Act.Ensures (get : Act σ σ) s Q E := fun _ ↦ h

theorem ensures_set {Q : PUnit → σ → Prop} {s' : σ} (h : Q ⟨⟩ s') :
    Act.Ensures (set s' : Act σ PUnit) s Q E :=
  fun _ ↦ h

theorem ensures_modify {Q : PUnit → σ → Prop} {f : σ → σ} (h : Q ⟨⟩ (f s)) :
    Act.Ensures (modify f : Act σ PUnit) s Q E :=
  fun _ ↦ h

theorem ensures_tally {Q : Unit → σ → Prop} {what : Tally} (h : Q () s) :
    Act.Ensures (liftM (tally what) : Act σ Unit) s Q E :=
  fun _ ↦ h

/-- An effect never fails, and leaves the thing at hand as it is. -/
theorem ensures_effect {x : Effect α} (h : Effect.Ensures x fun a ↦ Q a s) :
    Act.Ensures (liftM x : Act σ α) s Q E :=
  fun t ↦ h t

/-- An outcome that is at hand. -/
theorem ensures_except {o : Except SearchError α} (h : Meets (fun a ↦ Q a s) (fun e ↦ E e s) o) :
    Act.Ensures (liftM o : Act σ α) s Q E :=
  fun _ ↦ h

theorem perform_bind (x : Act σ β) (f : β → Act σ α) (s : σ) :
    (x >>= f).perform s = x.perform s >>= fun r ↦ match r.1 with
      | .ok b => (f b).perform r.2
      | .error e => pure (.error e, r.2) := by
  funext t
  show ExceptT.bindCont f (x.perform s t).1.1 (x.perform s t).1.2 (x.perform s t).2 =
    (match (x.perform s t).1.1 with
      | .ok b => (f b).perform (x.perform s t).1.2
      | .error e => pure (.error e, (x.perform s t).1.2)) (x.perform s t).2
  cases (x.perform s t).1.1 <;> rfl

theorem ensures_bind {x : Act σ β} {f : β → Act σ α}
    (h : x.Ensures s (fun b s' ↦ (f b).Ensures s' Q E) E) : (x >>= f).Ensures s Q E := by
  rw [Act.Ensures, perform_bind]
  refine Effect.ensures_bind (Effect.Ensures.mono h fun r hr ↦ ?_)
  obtain ⟨o, s'⟩ := r
  cases o with
  | ok b => exact hr
  | error e => exact Effect.ensures_pure hr

/-- A sequence that begins with an outcome at hand. -/
theorem ensures_except_bind {o : Except SearchError β} {f : β → Act σ α}
    (hE : ∀ e, o = .error e → E e s) (h : ∀ b, o = .ok b → (f b).Ensures s Q E) :
    ((liftM o : Act σ β) >>= f).Ensures s Q E := by
  refine ensures_bind (ensures_except ?_)
  cases o with
  | ok b => exact h b rfl
  | error e => exact hE e rfl

/-- A sequence that begins with an answer at hand. -/
theorem ensures_ok_bind {o : Except SearchError β} {b : β} {f : β → Act σ α} (ho : o = .ok b)
    (h : (f b).Ensures s Q E) : ((liftM o : Act σ β) >>= f).Ensures s Q E := by
  rw [ho]
  exact ensures_bind (ensures_except h)

/-- A sequence that begins with a failure at hand. -/
theorem ensures_error_bind {o : Except SearchError β} {e : SearchError} {f : β → Act σ α}
    (ho : o = .error e) (h : E e s) : ((liftM o : Act σ β) >>= f).Ensures s Q E := by
  rw [ho]
  exact ensures_bind (ensures_except h)

theorem perform_map (f : β → α) (act : Act σ β) (s : σ) :
    (do return f (← act) : Act σ α).perform s = do
      let (outcome, s') ← act.perform s
      return (outcome.map f, s') := by
  rw [perform_bind]
  refine bind_congr fun r ↦ ?_
  obtain ⟨o, s'⟩ := r
  cases o <;> rfl

/-- What an act ensures can be read off from what is made of its answer. -/
theorem ensures_of_map {act : Act σ β} {f : β → α}
    (h : (do return f (← act) : Act σ α).Ensures s Q E) :
    act.Ensures s (fun b s' ↦ Q (f b) s') E := by
  rw [Act.Ensures, perform_map] at h
  intro t
  have ht := h t
  revert ht
  show Meets _ _ ((StateT.run (act.perform s) t).1.1.map f) → _
  cases (StateT.run (act.perform s) t).1.1 <;> exact id

/-- An act that cannot fail has some answer. -/
theorem Ensures.exists {act : Act σ α} (h : act.Ensures s Q fun _ _ ↦ False) :
    ∃ a s', Q a s' := by
  have ht := h (.start .warn false)
  revert ht
  obtain ⟨o, s'⟩ := (StateT.run (act.perform s) (.start .warn false)).1
  cases o with
  | ok a => exact fun ha ↦ ⟨a, s', ha⟩
  | error e => exact False.elim

/-- To perform an act is to do what it was made of. -/
theorem perform_of (f : σ → Effect (Except SearchError α × σ)) (s : σ) :
    (Act.of f).perform s = f s := rfl

theorem ensures_of {f : σ → Effect (Except SearchError α × σ)}
    (h : Effect.Ensures (f s) fun r ↦ Meets (fun a ↦ Q a r.2) (fun e ↦ E e r.2) r.1) :
    (Act.of f).Ensures s Q E :=
  h

/-- An act on one part of a whole. -/
theorem ensures_within {part : τ → σ} {put : τ → σ → τ} {act : Act σ α} {whole : τ}
    {Q : α → τ → Prop} {E : SearchError → τ → Prop}
    (h : act.Ensures (part whole) (fun a s' ↦ Q a (put whole s')) fun e s' ↦ E e (put whole s')) :
    (act.within part put).Ensures whole Q E :=
  fun t ↦ h t

/-- An attempt leaves the thing at hand as it is. -/
theorem ensures_attempt {a : Attempt α} (h : Attempt.Ensures a (fun x ↦ Q x s) fun e ↦ E e s) :
    (Act.attempt a).Ensures s Q E :=
  fun t ↦ h t

theorem ensures_on {act : Act σ α} {Q : α × σ → Prop} {E : SearchError → Prop}
    (h : act.Ensures s (fun a s' ↦ Q (a, s')) fun e _ ↦ E e) :
    Attempt.Ensures (act.on s) Q E := by
  refine Effect.ensures_bind (Effect.Ensures.mono h fun r hr ↦ ?_)
  obtain ⟨o, s'⟩ := r
  cases o with
  | ok a => exact Effect.ensures_pure hr
  | error e => exact Effect.ensures_pure hr

/-! ### What acts keep -/

/-- Done to a thing with the property, the act leaves a thing with the property, whatever it comes
to. -/
def Keeps (act : Act σ α) (P : σ → Prop) : Prop :=
  ∀ s, P s → act.Ensures s (fun _ s' ↦ P s') fun _ s' ↦ P s'

variable {P : σ → Prop}

theorem Keeps.pure (a : α) : Act.Keeps (pure a : Act σ α) P := fun _ hs ↦ ensures_pure hs

theorem Keeps.get : Act.Keeps (get : Act σ σ) P := fun _ hs ↦ ensures_get hs

theorem Keeps.modify {f : σ → σ} (hf : ∀ s, P s → P (f s)) :
    Act.Keeps (modify f : Act σ PUnit) P :=
  fun s hs ↦ ensures_modify (hf s hs)

theorem Keeps.effect (x : Effect α) : Act.Keeps (liftM x : Act σ α) P :=
  fun _ hs ↦ ensures_effect fun _ ↦ hs

theorem Keeps.except (o : Except SearchError α) : Act.Keeps (liftM o : Act σ α) P := by
  intro s hs
  refine ensures_except ?_
  cases o with
  | ok a => exact hs
  | error e => exact hs

theorem Keeps.attempt (x : Attempt α) : Act.Keeps (Act.attempt x : Act σ α) P :=
  fun _ hs ↦ ensures_attempt (Attempt.ensures_of_forall (fun _ ↦ hs) fun _ ↦ hs)

theorem Keeps.bind {x : Act σ β} {f : β → Act σ α} (hx : x.Keeps P) (hf : ∀ b, (f b).Keeps P) :
    (x >>= f).Keeps P :=
  fun s hs ↦ ensures_bind ((hx s hs).imp fun b s' hs' ↦ hf b s' hs')

theorem Keeps.within {part : τ → σ} {put : τ → σ → τ} {act : Act σ α} {Q : τ → Prop}
    (h : act.Keeps P) (hpart : ∀ whole, Q whole → P (part whole))
    (hput : ∀ whole s, Q whole → P s → Q (put whole s)) : (act.within part put).Keeps Q := by
  intro whole hwhole
  exact ensures_within ((h _ (hpart whole hwhole)).mono (fun _ s hs ↦ hput whole s hwhole hs)
    fun _ s hs ↦ hput whole s hwhole hs)

end Act
end DirectoryQuery
