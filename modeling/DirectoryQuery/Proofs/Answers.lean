import DirectoryQuery.Proofs.Judgement

/-!
# What an evaluator says does not depend on evaluations before

Evaluators share the candidates they are asked about.  On some of their ways an evaluator attaches
the entry to the candidate and writes a value into it, and it may fail before, in between or
afterwards.

What an evaluator says, its verdict or its failure, only depends on the identifier of the candidate
and on its entry: the one that is attached, or else what the directory has (`Evaluator.answer`).
And whatever an evaluator comes to, the candidate is about the same entry afterwards
(`Candidate.Resolves`).  So no evaluator changes what another one, or the same one, says of the
candidate later (`Evaluator.evaluate_after_evaluate`).
-/

set_option autoImplicit false

namespace DirectoryQuery

/-! ## The entry of a candidate -/

namespace Candidate

/-- The entry of a candidate: the one that is attached, or else the one that the directory has. -/
def entry (directory : Directory) (c : Candidate) : Except StoreError Entry :=
  match c.record with
  | some e => .ok e
  | none => directory.lookup c.id

/-- The second candidate comes of the first one: it has the same identifier, and if there was an
entry attached, it still is.  An entry that was not is the one that the directory has. -/
structure Resolves (directory : Directory) (c c' : Candidate) : Prop where
  id : c'.id = c.id
  record : c'.record = c.record ∨
    c.record = none ∧ ∃ e, directory.lookup c.id = .ok e ∧ c'.record = some e

variable {directory : Directory} {c c' c'' : Candidate}

theorem Resolves.refl (directory : Directory) (c : Candidate) : c.Resolves directory c :=
  ⟨rfl, .inl rfl⟩

theorem Resolves.trans (h : c.Resolves directory c') (h' : c'.Resolves directory c'') :
    c.Resolves directory c'' := by
  refine ⟨h'.id.trans h.id, ?_⟩
  rcases h'.record with hsame | ⟨hnone, e, he, hrecord⟩
  · rw [hsame]
    exact h.record
  · rcases h.record with hsame | ⟨-, e', -, hrecord'⟩
    · exact .inr ⟨hsame.symm.trans hnone, e, h.id ▸ he, hrecord⟩
    · exact nomatch hnone.symm.trans hrecord'

/-- The entry is the same whether it was looked up before or is looked up now. -/
theorem Resolves.entry_eq (h : c.Resolves directory c') :
    c'.entry directory = c.entry directory := by
  rw [entry, entry, h.id]
  rcases h.record with hsame | ⟨hnone, e, he, hrecord⟩
  · rw [hsame]
  · rw [hnone, hrecord, he]

end Candidate

/-! ## What evaluators say -/

namespace Test

/-- The failure of a test that has to look at an entry but cannot have it. -/
def unresolved (t : Test) (id : EntryId) (cause : StoreError) : SearchError :=
  .evaluation t.subject.type.name ("cannot resolve entry " ++ toString id.toNat)
    (some (.store cause))

/-- What a test says of a candidate when it looks at the entry. -/
def answerByEntry (t : Test) (directory : Directory) (c : Candidate) : Except SearchError Bool :=
  ((c.entry directory).map t.acceptsEntry).mapError (t.unresolved c.id)

/-- What a test says of a candidate when it looks at the keys of an index. -/
def answerByIndex (t : Test) (index : Index) (c : Candidate) : Except SearchError Bool :=
  (Lookup.outcome ⟨index, c.id, t.assertion.holds⟩).map Option.isSome

/-- What a test says of a candidate. -/
def answer (t : Test) (ctx : Context) (c : Candidate) : Except SearchError Bool :=
  match ctx.reverseIndex? t.subject.type with
  | some index => t.answerByIndex index c
  | none => t.answerByEntry ctx.directory c

end Test

/-- What an evaluator says of a candidate.  Parts are asked from left to right until one decides. -/
def Evaluator.answer (e : Evaluator) (ctx : Context) (c : Candidate) : Except SearchError Bool :=
  e.judge fun t ↦ t.answer ctx c

/-- Done to a thing with the property, the act comes to the given outcome and keeps the property. -/
def Act.Answers {σ α : Type} (act : Act σ α) (I : σ → Prop) (o : Except SearchError α) : Prop :=
  ∀ s, I s → act.Ensures s (fun a s' ↦ o = .ok a ∧ I s') fun e s' ↦ o = .error e ∧ I s'

namespace Act

variable {σ α β : Type} {I : σ → Prop}

theorem Answers.pure (a : α) : Act.Answers (pure a : Act σ α) I (.ok a) :=
  fun _ hs ↦ ensures_pure ⟨rfl, hs⟩

theorem Answers.bind {x : Act σ β} {f : β → Act σ α} {o : Except SearchError β}
    {g : β → Except SearchError α} (hx : x.Answers I o) (hf : ∀ b, (f b).Answers I (g b)) :
    (x >>= f).Answers I (o >>= g) := by
  intro s hs
  refine ensures_bind ((hx s hs).mono ?_ ?_)
  · rintro b s' ⟨rfl, hs'⟩
    exact hf b s' hs'
  · rintro e s' ⟨rfl, hs'⟩
    exact ⟨rfl, hs'⟩

end Act

namespace Formula

variable {α σ : Type} {p : α → Act σ Bool} {answer : α → Except SearchError Bool} {I : σ → Prop}

mutual
/-- If the leaves come to given outcomes, the formula comes to what these make of it. -/
theorem judge_answers (h : ∀ a, (p a).Answers I (answer a)) :
    ∀ f : Formula α, (f.judge p).Answers I (f.judge answer)
  | all parts => judgeAll_answers h parts
  | any parts => judgeAny_answers h parts
  | not part => .bind (judge_answers h part) fun accepted ↦ .pure !accepted
  | leaf a => h a
theorem judgeAll_answers (h : ∀ a, (p a).Answers I (answer a)) :
    ∀ fs : List (Formula α), (judgeAll p fs).Answers I (judgeAll answer fs)
  | [] => .pure true
  | part :: parts => by
    refine .bind (judge_answers h part) fun accepted ↦ ?_
    cases accepted with
    | true => exact judgeAll_answers h parts
    | false => exact .pure false
theorem judgeAny_answers (h : ∀ a, (p a).Answers I (answer a)) :
    ∀ fs : List (Formula α), (judgeAny p fs).Answers I (judgeAny answer fs)
  | [] => .pure false
  | part :: parts => by
    refine .bind (judge_answers h part) fun accepted ↦ ?_
    cases accepted with
    | true => exact .pure true
    | false => exact judgeAny_answers h parts
end

end Formula

/-- A reading in reverse comes to its outcome. -/
theorem Lookup.follows (q : Lookup) :
    Attempt.Follows (q.index.firstKey? q.id q.wanted) q.outcome := by
  obtain ⟨o, p, hrun, rfl, -⟩ := q.leaves
  intro t
  rw [hrun]
  cases q.outcome <;> exact rfl

namespace Test

variable (t : Test) (directory : Directory) (ctx : Context) (c : Candidate)

theorem answer_eq_of_resolves {c' : Candidate} (h : c.Resolves ctx.directory c') :
    t.answer ctx c' = t.answer ctx c := by
  rw [answer, answer]
  simp only [answerByIndex, answerByEntry, h.id, h.entry_eq]

/-- To look at the entry of a candidate may attach it. -/
theorem entryOf_resolves :
    (t.entryOf directory).Ensures c
      (fun e c' ↦ c.entry directory = .ok e ∧ c.Resolves directory c')
      fun err c' ↦ (∃ cause, c.entry directory = .error cause ∧ err = t.unresolved c.id cause) ∧
        c.Resolves directory c' := by
  refine Act.ensures_bind (Act.ensures_get ?_)
  rw [Candidate.entry]
  cases hrecord : c.record with
  | some e => exact Act.ensures_pure ⟨rfl, .refl directory c⟩
  | none =>
    refine Act.ensures_bind (Act.ensures_tally ?_)
    cases hlookup : directory.lookup c.id with
    | ok e =>
      refine Act.ensures_bind (Act.ensures_set (Act.ensures_pure ⟨rfl, rfl, .inr ?_⟩))
      exact ⟨hrecord, e, hlookup, rfl⟩
    | error cause => exact Act.ensures_throw ⟨⟨cause, rfl, rfl⟩, .refl directory c⟩

theorem evaluateByEntry_resolves :
    (t.evaluateByEntry directory).Ensures c
      (fun accepted c' ↦ t.answerByEntry directory c = .ok accepted ∧ c.Resolves directory c')
      fun err c' ↦ t.answerByEntry directory c = .error err ∧ c.Resolves directory c' := by
  refine Act.ensures_bind ((t.entryOf_resolves directory c).mono ?_ ?_)
  · rintro e c' ⟨he, hresolves⟩
    rw [answerByEntry, he, Except.map, Except.mapError, acceptsEntry]
    cases t.firstValue? e with
    | none => exact Act.ensures_pure ⟨rfl, hresolves⟩
    | some v =>
      cases t.assertion.isPresent with
      | true => exact Act.ensures_pure ⟨rfl, hresolves⟩
      | false => exact Act.ensures_bind (Act.ensures_modify
          (Act.ensures_pure ⟨rfl, hresolves.id, hresolves.record⟩))
  · rintro _ c' ⟨⟨cause, hcause, rfl⟩, hresolves⟩
    rw [answerByEntry, hcause]
    exact ⟨rfl, hresolves⟩

theorem evaluateByIndex_resolves (index : Index) :
    (t.evaluateByIndex index).Ensures c
      (fun accepted c' ↦ t.answerByIndex index c = .ok accepted ∧ c.Resolves directory c')
      fun err c' ↦ t.answerByIndex index c = .error err ∧ c.Resolves directory c' := by
  refine Act.ensures_bind (Act.ensures_tally (Act.ensures_bind (Act.ensures_get ?_)))
  have hlookup := Lookup.follows ⟨index, c.id, t.assertion.holds⟩
  rw [answerByIndex]
  refine Act.ensures_bind (Act.ensures_attempt (hlookup.mono ?_ ?_))
  · intro found hfound
    rw [hfound]
    exact Act.ensures_pure ⟨rfl, .refl directory c⟩
  · intro err herr
    rw [herr]
    exact ⟨rfl, .refl directory c⟩

/-- A test keeps the candidate about the same entry, whatever it says. -/
theorem evaluate_resolves :
    (t.evaluate ctx).Ensures c
      (fun accepted c' ↦ t.answer ctx c = .ok accepted ∧ c.Resolves ctx.directory c')
      fun err c' ↦ t.answer ctx c = .error err ∧ c.Resolves ctx.directory c' := by
  refine Act.ensures_bind (Act.ensures_tally ?_)
  rw [answer]
  cases ctx.reverseIndex? t.subject.type with
  | some index => exact t.evaluateByIndex_resolves ctx.directory c index
  | none => exact t.evaluateByEntry_resolves ctx.directory c

end Test

namespace Evaluator

variable (ctx : Context) (c : Candidate)

theorem answer_eq_of_resolves (e : Evaluator) {c' : Candidate} (h : c.Resolves ctx.directory c') :
    e.answer ctx c' = e.answer ctx c := by
  rw [answer, answer]
  exact congrArg (e.judge ·) (funext fun t ↦ t.answer_eq_of_resolves ctx c h)

/-- **What an evaluator comes to is what it says of the candidate**, and it keeps the candidate
about the same entry. -/
theorem evaluate_answers (e : Evaluator) :
    (e.evaluate ctx).Answers (c.Resolves ctx.directory) (e.answer ctx c) := by
  refine Formula.judge_answers (fun t c' hc' ↦ ?_) e
  rw [← t.answer_eq_of_resolves ctx c hc']
  exact (t.evaluate_resolves ctx c').mono (fun _ _ h ↦ ⟨h.1, hc'.trans h.2⟩)
    fun _ _ h ↦ ⟨h.1, hc'.trans h.2⟩

theorem run_evaluate (e : Evaluator) (t : Trace) :
    (StateT.run ((e.evaluate ctx).perform c) t).1.1 = e.answer ctx c ∧
      c.Resolves ctx.directory (StateT.run ((e.evaluate ctx).perform c) t).1.2 := by
  have hanswers := evaluate_answers ctx c e c (.refl ctx.directory c)
  have hrun := hanswers.run (P := fun o c' ↦ e.answer ctx c = o ∧ c.Resolves ctx.directory c') t
  exact ⟨hrun.1.symm, hrun.2⟩

/-- **No evaluation changes a later one.**  Whatever an evaluator comes to, the candidate is about
the same entry afterwards, an entry that was attached still is, and only the one that the directory
has may have been attached.  What the other evaluator, or the same one, comes to after that is what
it comes to without it, be it a verdict or a failure.  The directory and its indexes may fail. -/
theorem evaluate_after_evaluate (e e' : Evaluator) (t t' t'' : Trace) :
    let c' := (StateT.run ((e.evaluate ctx).perform c) t).1.2
    c.Resolves ctx.directory c' ∧
      (StateT.run ((e'.evaluate ctx).perform c') t').1.1 =
        (StateT.run ((e'.evaluate ctx).perform c) t'').1.1 := by
  intro c'
  have hresolves : c.Resolves ctx.directory c' := (run_evaluate ctx c e t).2
  refine ⟨hresolves, ?_⟩
  calc (StateT.run ((e'.evaluate ctx).perform c') t').1.1
      = e'.answer ctx c' := (run_evaluate ctx c' e' t').1
    _ = e'.answer ctx c := e'.answer_eq_of_resolves ctx c hresolves
    _ = (StateT.run ((e'.evaluate ctx).perform c) t'').1.1 := (run_evaluate ctx c e' t'').1.symm

end Evaluator
end DirectoryQuery
