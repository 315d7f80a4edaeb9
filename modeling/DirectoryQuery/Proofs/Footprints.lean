import DirectoryQuery.Proofs.Outcome

/-!
# The footprint of a computation

What an effect comes to and what it adds to the trace are the same whatever the trace is before it:
the lines it writes, of which the threshold keeps some, the things it counts, and the releases of
monitored cursors.  That is its `Footprint`.

`Leaves` says that an effect, attempt or act has an answer and a footprint with a property.  The
rules go along the text of the computation, as those for `Ensures`; in a sequence the footprint of
the second part comes after that of the first.

Moves of a cursor leave footprints of a simple kind and change the cursor only in some respects.
For them there is a coarser notion, `Act.Stays`: what is acted on keeps a property, and the
footprint is one of those allowed (`Footprint.Allows`).  Which are may depend on the failure that
the act comes to.  Reverse readings are counted one by one, so that to count one is not allowed as
such: it has to come with the reading itself.
-/

set_option autoImplicit false

namespace DirectoryQuery

variable {σ τ α β : Type}

/-- The failure, if the outcome is one. -/
def failureOf : Except SearchError α → Option SearchError
  | .ok _ => none
  | .error e => some e

@[simp] theorem failureOf_ok (a : α) : failureOf (.ok a) = none := rfl

@[simp] theorem failureOf_error (e : SearchError) :
    failureOf (.error e : Except SearchError α) = some e := rfl

@[simp] theorem failureOf_map (f : α → β) (o : Except SearchError α) :
    failureOf (o.map f) = failureOf o := by
  cases o <;> rfl

/-! ## Footprints -/

/-- What a computation adds to a trace, the last thing first: the lines, whether they are severe
enough to be written or not, what is counted, and the labels of the monitored cursors released. -/
@[ext]
structure Footprint where
  lines : List LogLine
  counts : List Tally
  releases : List String

namespace Footprint

/-- Nothing is added. -/
def nothing : Footprint := ⟨[], [], []⟩

/-- One line. -/
def ofLine (l : LogLine) : Footprint := ⟨[l], [], []⟩

/-- One thing counted. -/
def ofTally (what : Tally) : Footprint := ⟨[], [what], []⟩

/-- One release. -/
def ofRelease (label : String) : Footprint := ⟨[], [], [label]⟩

/-- The one footprint and then the other. -/
def followed (p q : Footprint) : Footprint :=
  ⟨q.lines ++ p.lines, q.counts ++ p.counts, q.releases ++ p.releases⟩

variable (p q : Footprint)

@[simp] theorem lines_followed : (p.followed q).lines = q.lines ++ p.lines := rfl

@[simp] theorem counts_followed : (p.followed q).counts = q.counts ++ p.counts := rfl

@[simp] theorem releases_followed : (p.followed q).releases = q.releases ++ p.releases := rfl

@[simp] theorem nothing_followed : nothing.followed p = p := by ext1 <;> simp [nothing]

@[simp] theorem followed_nothing : p.followed nothing = p := by ext1 <;> simp [nothing]

@[simp] theorem followed_assoc (r : Footprint) :
    (p.followed q).followed r = p.followed (q.followed r) := by
  ext1 <;> simp

/-- Footprints that add nothing but what is allowed, given the failure at the end if there is one.
Counting is allowed, except for reverse readings, and so is to go on unless something has failed. -/
structure Allows (A : Option SearchError → Footprint → Prop) : Prop where
  nothing (e : Option SearchError) : A e .nothing
  tally {what : Tally} (h : what ≠ .reverseLookup) : A none (.ofTally what)
  followed {e : Option SearchError} {p q : Footprint} : A none p → A e q → A e (p.followed q)

theorem allows_true : Allows fun _ _ ↦ True :=
  ⟨fun _ ↦ trivial, fun _ ↦ trivial, fun _ _ ↦ trivial⟩

end Footprint

namespace Trace

/-- The trace with a footprint added. -/
def after (t : Trace) (p : Footprint) : Trace where
  threshold := t.threshold
  lines := p.lines.filter (fun l ↦ l.severity.passes t.threshold) ++ t.lines
  counters := t.counters.map fun c ↦ p.counts.foldr (fun what c ↦ c.increment what) c
  releases := p.releases ++ t.releases

@[simp] theorem after_nothing (t : Trace) : t.after .nothing = t := by
  simp [after, Footprint.nothing]

@[simp] theorem after_followed (t : Trace) (p q : Footprint) :
    t.after (p.followed q) = (t.after p).after q := by
  simp [after, Function.comp_def]

theorem write_eq_after (t : Trace) (l : LogLine) : t.write l = t.after (.ofLine l) := by
  by_cases h : l.severity.passes t.threshold <;> simp [write, after, Footprint.ofLine, h]

theorem count_eq_after (t : Trace) (what : Tally) : t.count what = t.after (.ofTally what) := by
  simp [count, after, Footprint.ofTally]

theorem release_eq_after (t : Trace) (label : String) :
    t.release label = t.after (.ofRelease label) := by
  simp [release, after, Footprint.ofRelease]

end Trace

/-! ## Effects -/

/-- The effect has an answer and a footprint with the property, the same whatever the trace is. -/
def Effect.Leaves (x : Effect α) (Q : α → Footprint → Prop) : Prop :=
  ∃ a p, (∀ t, StateT.run x t = (a, t.after p)) ∧ Q a p

namespace Effect

theorem Leaves.mono {x : Effect α} {Q Q' : α → Footprint → Prop} (h : Effect.Leaves x Q)
    (hQ : ∀ a p, Q a p → Q' a p) : Effect.Leaves x Q' := by
  obtain ⟨a, p, hrun, hap⟩ := h
  exact ⟨a, p, hrun, hQ a p hap⟩

theorem Leaves.run {x : Effect α} {Q : α → Footprint → Prop} (h : Effect.Leaves x Q) (t : Trace) :
    ∃ p, (StateT.run x t).2 = t.after p ∧ Q (StateT.run x t).1 p := by
  obtain ⟨a, p, hrun, hap⟩ := h
  rw [hrun]
  exact ⟨p, rfl, hap⟩

/-- The answer is the one that the effect has come to at any one trace. -/
theorem Leaves.answer {x : Effect α} {Q : α → Footprint → Prop} (h : Effect.Leaves x Q)
    (t : Trace) : Effect.Leaves x fun a p ↦ a = (StateT.run x t).1 ∧ Q a p := by
  obtain ⟨a, p, hrun, hap⟩ := h
  exact ⟨a, p, hrun, by rw [hrun], hap⟩

theorem leaves_pure {a : α} {Q : α → Footprint → Prop} (h : Q a .nothing) :
    Effect.Leaves (pure a) Q :=
  ⟨a, .nothing, fun t ↦ by rw [Trace.after_nothing]; rfl, h⟩

theorem leaves_bind {x : Effect α} {f : α → Effect β} {Q : β → Footprint → Prop}
    (h : Effect.Leaves x fun a p ↦ Effect.Leaves (f a) fun b q ↦ Q b (p.followed q)) :
    Effect.Leaves (x >>= f) Q := by
  obtain ⟨a, p, hx, b, q, hf, hQ⟩ := h
  refine ⟨b, p.followed q, fun t ↦ ?_, hQ⟩
  rw [StateT.run_bind, hx, Trace.after_followed]
  exact hf _

theorem leaves_note {e : Event} {fields : List (String × String)} {Q : Unit → Footprint → Prop}
    (h : Q () (.ofLine (.ofEvent e fields))) : Effect.Leaves (note e fields) Q :=
  ⟨(), _, fun t ↦ congrArg _ (t.write_eq_after _), h⟩

theorem leaves_tally {what : Tally} {Q : Unit → Footprint → Prop} (h : Q () (.ofTally what)) :
    Effect.Leaves (tally what) Q :=
  ⟨(), _, fun t ↦ congrArg _ (t.count_eq_after what), h⟩

theorem leaves_noteRelease {label : String} {Q : Unit → Footprint → Prop}
    (h : Q () (.ofRelease label)) : Effect.Leaves (noteRelease label) Q :=
  ⟨(), _, fun t ↦ congrArg _ (t.release_eq_after label), h⟩

end Effect

/-! ## Attempts -/

/-- The attempt has an answer and a footprint with the one property, or a failure and a footprint
with the other, the same whatever the trace is. -/
def Attempt.Leaves (x : Attempt α) (Q : α → Footprint → Prop)
    (E : SearchError → Footprint → Prop) : Prop :=
  Effect.Leaves x.run fun o p ↦ Meets (fun a ↦ Q a p) (fun e ↦ E e p) o

namespace Attempt

variable {Q Q' : α → Footprint → Prop} {E E' : SearchError → Footprint → Prop}

theorem Leaves.mono {x : Attempt α} (h : Attempt.Leaves x Q E) (hQ : ∀ a p, Q a p → Q' a p)
    (hE : ∀ e p, E e p → E' e p) : Attempt.Leaves x Q' E' :=
  Effect.Leaves.mono h fun _ p ho ↦ ho.mono (fun a ↦ hQ a p) fun e ↦ hE e p

/-- An attempt that has come to an answer comes to it whatever the trace is. -/
theorem Leaves.of_outcome {x : Attempt α} (h : Attempt.Leaves x Q E) {t : Trace} {a : α}
    (ha : x.outcome t = .ok a) : Attempt.Leaves x (fun b p ↦ b = a ∧ Q b p) fun _ _ ↦ False := by
  obtain ⟨o, p, hrun, ho⟩ := h
  rw [Attempt.outcome, hrun] at ha
  obtain rfl : o = .ok a := ha
  exact ⟨.ok a, p, hrun, rfl, ho⟩

/-- What is left behind may be forgotten. -/
theorem Leaves.ensures {x : Attempt α} (h : Attempt.Leaves x Q E) :
    Attempt.Ensures x (fun a ↦ ∃ p, Q a p) fun e ↦ ∃ p, E e p := by
  obtain ⟨o, p, hrun, ho⟩ := h
  intro t
  rw [hrun]
  exact ho.mono (fun _ ha ↦ ⟨p, ha⟩) fun _ he ↦ ⟨p, he⟩

/-- What is known of the answer that the attempt has come to. -/
theorem Leaves.run_ok {x : Attempt α} (h : Attempt.Leaves x Q E) {t : Trace} {a : α}
    (ha : x.outcome t = .ok a) : ∃ p, Q a p := by
  obtain ⟨p, -, hp⟩ := Effect.Leaves.run h t
  rw [← Attempt.outcome, ha] at hp
  exact ⟨p, hp⟩

theorem leaves_pure {a : α} (h : Q a .nothing) : Attempt.Leaves (pure a) Q E :=
  Effect.leaves_pure h

/-- An outcome that is at hand. -/
theorem leaves_except {o : Except SearchError α}
    (h : Meets (fun a ↦ Q a .nothing) (fun e ↦ E e .nothing) o) :
    Attempt.Leaves (liftM o : Attempt α) Q E :=
  Effect.leaves_pure h

/-- An effect never fails. -/
theorem leaves_effect {x : Effect α} (h : Effect.Leaves x Q) :
    Attempt.Leaves (liftM x : Attempt α) Q E := by
  obtain ⟨a, p, hrun, hQ⟩ := h
  refine ⟨.ok a, p, fun t ↦ ?_, hQ⟩
  have hlift : StateT.run (liftM x : Attempt α).run t =
    (.ok (StateT.run x t).1, (StateT.run x t).2) := rfl
  rw [hlift, hrun]

theorem leaves_bind {x : Attempt β} {f : β → Attempt α}
    (h : Attempt.Leaves x (fun b p ↦ Attempt.Leaves (f b) (fun a q ↦ Q a (p.followed q))
      fun e q ↦ E e (p.followed q)) E) : Attempt.Leaves (x >>= f) Q E := by
  rw [Attempt.Leaves, run_bind]
  refine Effect.leaves_bind (Effect.Leaves.mono h fun o p ho ↦ ?_)
  cases o with
  | ok b => exact ho
  | error e =>
    refine Effect.leaves_pure ?_
    rw [Footprint.followed_nothing]
    exact ho

/-- If nothing has to be known of failures, only the answers have to be gone through. -/
theorem leaves_bind_ok {x : Attempt β} {f : β → Attempt α} {R : β → Footprint → Prop}
    (hx : Attempt.Leaves x R E)
    (hf : ∀ b p, R b p → Attempt.Leaves (f b) (fun a q ↦ Q a (p.followed q)) fun _ _ ↦ True) :
    Attempt.Leaves (x >>= f) Q fun _ _ ↦ True :=
  leaves_bind (hx.mono hf fun _ _ _ ↦ trivial)

end Attempt

/-! ## Acts -/

namespace Act

/-- Done to the thing given, the act has an answer or a failure, with the thing as it is afterwards
and the footprint, that satisfies the condition for it, the same whatever the trace is. -/
def Leaves (act : Act σ α) (s : σ) (Q : α → σ → Footprint → Prop)
    (E : SearchError → σ → Footprint → Prop) : Prop :=
  Effect.Leaves (act.perform s) fun r p ↦ Meets (fun a ↦ Q a r.2 p) (fun e ↦ E e r.2 p) r.1

variable {Q : α → σ → Footprint → Prop} {E : SearchError → σ → Footprint → Prop} {s : σ}

theorem leaves_pure {a : α} (h : Q a s .nothing) : Act.Leaves (pure a) s Q E :=
  Effect.leaves_pure h

theorem leaves_get {Q : σ → σ → Footprint → Prop} (h : Q s s .nothing) :
    Act.Leaves (get : Act σ σ) s Q E :=
  Effect.leaves_pure h

theorem leaves_set {Q : PUnit → σ → Footprint → Prop} {s' : σ} (h : Q ⟨⟩ s' .nothing) :
    Act.Leaves (set s' : Act σ PUnit) s Q E :=
  Effect.leaves_pure h

/-- An effect never fails, and leaves the thing at hand as it is. -/
theorem leaves_effect {x : Effect α} (h : Effect.Leaves x fun a p ↦ Q a s p) :
    Act.Leaves (liftM x : Act σ α) s Q E := by
  obtain ⟨a, p, hrun, hQ⟩ := h
  refine ⟨(.ok a, s), p, fun t ↦ ?_, hQ⟩
  have hlift : StateT.run ((liftM x : Act σ α).perform s) t =
    ((.ok (StateT.run x t).1, s), (StateT.run x t).2) := rfl
  rw [hlift, hrun]

/-- An attempt leaves the thing at hand as it is. -/
theorem leaves_attempt {a : Attempt α}
    (h : Attempt.Leaves a (fun x p ↦ Q x s p) fun e p ↦ E e s p) :
    (Act.attempt a).Leaves s Q E := by
  refine Effect.leaves_bind (Effect.Leaves.mono h fun o p hp ↦ Effect.leaves_pure ?_)
  rw [Footprint.followed_nothing]
  exact hp

theorem leaves_bind {x : Act σ β} {f : β → Act σ α}
    (h : x.Leaves s (fun b s' p ↦ (f b).Leaves s' (fun a s'' q ↦ Q a s'' (p.followed q))
      fun e s'' q ↦ E e s'' (p.followed q)) E) : (x >>= f).Leaves s Q E := by
  rw [Act.Leaves, perform_bind]
  refine Effect.leaves_bind (Effect.Leaves.mono h fun r p hr ↦ ?_)
  obtain ⟨o, s'⟩ := r
  cases o with
  | ok b => exact hr
  | error e =>
    refine Effect.leaves_pure ?_
    rw [Footprint.followed_nothing]
    exact hr

/-! ### What stays as it is -/

/-- Done to a thing with the property, the act leaves a thing with the property and a footprint that
is allowed for what it comes to. -/
def Stays (act : Act σ α) (I : σ → Prop) (A : Option SearchError → Footprint → Prop) : Prop :=
  ∀ s, I s → Effect.Leaves (act.perform s) fun r p ↦ I r.2 ∧ A (failureOf r.1) p

variable {I : σ → Prop} {A : Option SearchError → Footprint → Prop}

theorem Stays.keeps {act : Act σ α} (h : act.Stays I A) : act.Keeps I := by
  intro s hs t
  obtain ⟨r, p, hrun, hr, -⟩ := h s hs
  rw [hrun]
  obtain ⟨o, s'⟩ := r
  cases o <;> exact hr

/-- What is known of answers and of failures. -/
theorem Stays.of_leaves {act : Act σ α} (h : ∀ s, I s → act.Leaves s
    (fun _ s' p ↦ I s' ∧ A none p) fun e s' p ↦ I s' ∧ A (some e) p) : act.Stays I A := by
  intro s hs
  refine Effect.Leaves.mono (h s hs) fun r p hr ↦ ?_
  obtain ⟨o, s'⟩ := r
  cases o <;> exact hr

/-- An effect leaves the thing at hand as it is. -/
theorem Stays.effect {x : Effect α} (h : Effect.Leaves x fun _ p ↦ A none p) :
    Act.Stays (liftM x : Act σ α) I A :=
  .of_leaves fun _ hs ↦ leaves_effect (Effect.Leaves.mono h fun _ _ hp ↦ ⟨hs, hp⟩)

theorem Stays.attempt {a : Attempt α} (h : Effect.Leaves a.run fun o p ↦ A (failureOf o) p) :
    Act.Stays (Act.attempt a : Act σ α) I A := by
  refine .of_leaves fun s hs ↦ leaves_attempt (Effect.Leaves.mono h fun o p hp ↦ ?_)
  cases o <;> exact ⟨hs, hp⟩

theorem Stays.within {part : τ → σ} {put : τ → σ → τ} {act : Act σ α} {J : τ → Prop}
    (h : ∀ whole, J whole → Effect.Leaves (act.perform (part whole)) fun r p ↦
      J (put whole r.2) ∧ A (failureOf r.1) p) : (act.within part put).Stays J A := by
  intro whole hwhole
  refine Effect.leaves_bind (Effect.Leaves.mono (h whole hwhole) fun r p hr ↦ ?_)
  refine Effect.leaves_pure ?_
  rw [Footprint.followed_nothing]
  exact hr

/-- A thing at hand may have any property. -/
theorem Stays.on {act : Act σ α} {J : τ → Prop} {s : σ} (h : act.Stays I A) (hs : I s) :
    (Act.attempt (act.on s) : Act τ (α × σ)).Stays J A := by
  refine .attempt (Effect.leaves_bind (Effect.Leaves.mono (h s hs) fun r p hr ↦ ?_))
  refine Effect.leaves_pure ?_
  rw [Footprint.followed_nothing, failureOf_map]
  exact hr.2

section Rules

variable (hA : Footprint.Allows A)

include hA

theorem Stays.pure (a : α) : Act.Stays (pure a : Act σ α) I A :=
  fun _ hs ↦ Effect.leaves_pure ⟨hs, hA.nothing _⟩

theorem Stays.throw (e : SearchError) : Act.Stays (throw e : Act σ α) I A :=
  fun _ hs ↦ Effect.leaves_pure ⟨hs, hA.nothing _⟩

theorem Stays.get : Act.Stays (get : Act σ σ) I A :=
  fun _ hs ↦ Effect.leaves_pure ⟨hs, hA.nothing _⟩

theorem Stays.set {s : σ} (hs : I s) : Act.Stays (set s : Act σ PUnit) I A :=
  fun _ _ ↦ Effect.leaves_pure ⟨hs, hA.nothing _⟩

theorem Stays.modify {f : σ → σ} (hf : ∀ s, I s → I (f s)) :
    Act.Stays (modify f : Act σ PUnit) I A :=
  fun s hs ↦ Effect.leaves_pure ⟨hf s hs, hA.nothing _⟩

theorem Stays.except (o : Except SearchError α) : Act.Stays (liftM o : Act σ α) I A :=
  fun _ hs ↦ Effect.leaves_pure ⟨hs, hA.nothing _⟩

theorem Stays.bind {x : Act σ β} {f : β → Act σ α} (hx : x.Stays I A) (hf : ∀ b, (f b).Stays I A) :
    (x >>= f).Stays I A := by
  intro s hs
  rw [perform_bind]
  refine Effect.leaves_bind (Effect.Leaves.mono (hx s hs) ?_)
  rintro ⟨o, s'⟩ p ⟨hs', hp⟩
  cases o with
  | ok b => exact Effect.Leaves.mono (hf b s' hs') fun r q hr ↦ ⟨hr.1, hA.followed hp hr.2⟩
  | error e =>
    refine Effect.leaves_pure ⟨hs', ?_⟩
    rw [Footprint.followed_nothing]
    exact hp

/-- What comes after an outcome at hand has to be known only if it is an answer. -/
theorem Stays.except_bind {o : Except SearchError β} {f : β → Act σ α}
    (hf : ∀ b, o = .ok b → (f b).Stays I A) : ((liftM o : Act σ β) >>= f).Stays I A := by
  intro s hs
  cases o with
  | ok b => exact hf b rfl s hs
  | error e => exact Effect.leaves_pure ⟨hs, hA.nothing _⟩

/-- What comes after the thing was looked at may depend on what it is like. -/
theorem Stays.get_bind {f : σ → Act σ α} (hf : ∀ s, I s → (f s).Stays I A) :
    (MonadState.get >>= f).Stays I A := by
  intro s hs
  rw [perform_bind]
  refine Effect.leaves_bind (Effect.leaves_pure (Effect.Leaves.mono (hf s hs s hs) ?_))
  exact fun r q hr ↦ ⟨hr.1, hA.followed (hA.nothing _) hr.2⟩

theorem Stays.tally (what : Tally) (h : what ≠ .reverseLookup := by decide) :
    Act.Stays (liftM (tally what) : Act σ Unit) I A :=
  .effect (Effect.leaves_tally (hA.tally h))

end Rules

end Act
end DirectoryQuery
