import DirectoryQuery.Proofs.Closing
import DirectoryQuery.Proofs.Parallels

/-!
# Filters that the schema cannot make sense of

A filter is made ready for use in two ways: leaf by leaf, as an evaluator, and as an operand with a
cursor.  The second way takes a conjunction or disjunction of one part for the part, orders the
parts, and makes the evaluator of a whole only after the operands of its parts.  Still both fail for
the same filters and with the same failure, that of the first leaf from the left that the schema
cannot make sense of (`Store.fails_iff_firstFailure`).

A search plans before anything else, and planning counts nothing.  So a search that fails for this
reason has not looked at a single candidate.
-/

set_option autoImplicit false

namespace DirectoryQuery

/-! ## The first that fails -/

section Lists

variable {α β ε : Type} {g : α → Except ε β} {e : ε} {l l' : List α} {a : α}

/-- The failure is that of the first element that comes to one. -/
def FirstFails (g : α → Except ε β) (e : ε) (l : List α) : Prop :=
  ∃ earlier a later, l = earlier ++ a :: later ∧ (∀ b ∈ earlier, ∃ c, g b = .ok c) ∧ g a = .error e

theorem not_firstFails_nil : ¬FirstFails g e [] := by
  rintro ⟨earlier, a, later, heq, -⟩
  exact List.append_ne_nil_of_right_ne_nil earlier (List.cons_ne_nil a later) heq.symm

theorem firstFails_cons :
    FirstFails g e (a :: l) ↔ g a = .error e ∨ (∃ c, g a = .ok c) ∧ FirstFails g e l := by
  constructor
  · rintro ⟨_ | ⟨b, earlier⟩, a', later, heq, hearlier, ha'⟩
    · obtain ⟨rfl, rfl⟩ := List.cons.inj heq
      exact .inl ha'
    · obtain ⟨rfl, rfl⟩ := List.cons.inj heq
      obtain ⟨ha, hearlier⟩ := List.forall_mem_cons.1 hearlier
      exact .inr ⟨ha, earlier, a', later, rfl, hearlier, ha'⟩
  · rintro (ha | ⟨ha, earlier, a', later, rfl, hearlier, ha'⟩)
    · exact ⟨[], a, l, rfl, fun _ hb ↦ absurd hb List.not_mem_nil, ha⟩
    · exact ⟨a :: earlier, a', later, rfl, List.forall_mem_cons.2 ⟨ha, hearlier⟩, ha'⟩

theorem firstFails_append : FirstFails g e (l ++ l') ↔
    FirstFails g e l ∨ (∀ a ∈ l, ∃ c, g a = .ok c) ∧ FirstFails g e l' := by
  induction l with
  | nil => simp [not_firstFails_nil]
  | cons a l ih =>
    rw [List.cons_append, firstFails_cons, firstFails_cons, ih, List.forall_mem_cons, and_or_left,
      or_assoc, and_assoc]

/-- Either nothing fails or something is the first to fail. -/
theorem forall_ok_or_firstFails (g : α → Except ε β) (l : List α) :
    (∀ a ∈ l, ∃ c, g a = .ok c) ∨ ∃ e, FirstFails g e l := by
  induction l with
  | nil => exact .inl fun _ ha ↦ absurd ha List.not_mem_nil
  | cons a l ih =>
    cases ha : g a with
    | error e => exact .inr ⟨e, firstFails_cons.2 (.inl ha)⟩
    | ok c =>
      refine ih.imp (fun hl ↦ List.forall_mem_cons.2 ⟨⟨c, ha⟩, hl⟩) ?_
      exact fun ⟨e, he⟩ ↦ ⟨e, firstFails_cons.2 (.inr ⟨⟨c, ha⟩, he⟩)⟩

/-- What is made of the answers does not matter. -/
theorem firstFails_bind_ok {γ : Type} {h : α → β → γ} :
    FirstFails (fun a ↦ g a >>= fun b ↦ .ok (h a b)) e l ↔ FirstFails g e l := by
  have hok : ∀ a, (∃ c, (g a >>= fun b ↦ .ok (h a b)) = .ok c) ↔ ∃ c, g a = .ok c := fun a ↦ by
    cases g a with
    | ok b => exact iff_of_true ⟨_, rfl⟩ ⟨_, rfl⟩
    | error e' => exact iff_of_false nofun nofun
  have herror : ∀ a, (g a >>= fun b ↦ .ok (h a b)) = .error e ↔ g a = .error e := fun a ↦ by
    cases g a with
    | ok b => exact iff_of_false nofun nofun
    | error e' => exact ⟨fun he ↦ congrArg _ (Except.error.inj he),
        fun he ↦ congrArg _ (Except.error.inj he)⟩
  simp only [FirstFails, hok, herror]

end Lists

/-! ## The first leaf that fails -/

namespace Formula

variable {α β ε : Type} {g : α → Except ε β} {e : ε}

theorem bind_error {γ : Type} {x : Except ε β} {f : β → Except ε γ} (h : x = .error e) :
    x >>= f = .error e := by
  rw [h]
  rfl

theorem bind_ok {γ : Type} {x : Except ε β} {f : β → Except ε γ} {b : β} (h : x = .ok b) :
    x >>= f = f b := by
  rw [h]
  rfl

mutual
/-- The first leaf that cannot be replaced decides the failure. -/
theorem traverse_of_firstFails :
    ∀ f : Formula α, FirstFails g e f.leaves → f.traverse g = .error e
  | all parts, h => bind_error (traverseEach_of_firstFails parts h)
  | any parts, h => bind_error (traverseEach_of_firstFails parts h)
  | not part, h => bind_error (traverse_of_firstFails part h)
  | leaf a, h => by
    obtain ha | ⟨-, hnil⟩ := firstFails_cons.1 h
    · exact bind_error ha
    · exact absurd hnil not_firstFails_nil
theorem traverseEach_of_firstFails :
    ∀ fs : List (Formula α), FirstFails g e (leavesOf fs) → traverseEach g fs = .error e
  | [], h => absurd h not_firstFails_nil
  | part :: parts, h => by
    obtain hpart | ⟨hpart, hparts⟩ := firstFails_append.1 h
    · exact bind_error (traverse_of_firstFails part hpart)
    · obtain ⟨part', hpart⟩ := exists_traverse part hpart
      exact (bind_ok hpart).trans (bind_error (traverseEach_of_firstFails parts hparts))
end

theorem traverse_eq_error_iff {f : Formula α} :
    f.traverse g = .error e ↔ FirstFails g e f.leaves := by
  refine ⟨fun h ↦ ?_, traverse_of_firstFails f⟩
  obtain hok | ⟨e', he'⟩ := forall_ok_or_firstFails g f.leaves
  · obtain ⟨f', hf'⟩ := exists_traverse f hok
    exact nomatch h.symm.trans hf'
  · obtain rfl := Except.error.inj (h.symm.trans (traverse_of_firstFails f he'))
    exact he'

end Formula

namespace Filter

variable {r : Registry} {f : Filter} {e : SearchError}

/-- The failure is that of the first leaf from the left whose attribute, syntax or rule the schema
does not have. -/
def FirstFailure (r : Registry) (f : Filter) (e : SearchError) : Prop :=
  FirstFails (fun c ↦ Subject.resolve r c.name c.condition.slots) e f.leaves

theorem toEvaluator_eq_error_iff : f.toEvaluator r = .error e ↔ f.FirstFailure r e :=
  Formula.traverse_eq_error_iff.trans firstFails_bind_ok

end Filter

/-! ## Searches that fail before they begin -/

/-- Everything that is counted. -/
def Tally.all : List Tally :=
  [examined, emitted, skipped, evaluation, recordLookup, reverseLookup]

theorem Footprint.counts_eq_nil {p : Footprint} (h : p.Spares Tally.all) : p.counts = [] :=
  List.eq_nil_iff_forall_not_mem.2 fun what ↦ h what (by cases what <;> decide)

namespace Context

variable {ctx : Context} {f : Filter} {e : SearchError}

/-- To plan counts nothing, and comes to the same whatever the trace is. -/
theorem plan_leaves {t : Trace} (h : Attempt.outcome (ctx.plan f) t = .error e) :
    Attempt.Leaves (ctx.plan f) (fun _ _ ↦ False) fun e' p ↦ e' = e ∧ p.counts = [] := by
  have hplan : Attempt.Matches Tally.all (ctx.plan f) (ctx.plan f) fun _ ↦ True :=
    plan_matches ⟨rfl, rfl, rfl, fun _ ↦ rfl⟩ f
  refine Effect.Leaves.mono (hplan.2.answer t) ?_
  rintro o p ⟨rfl, -, hp⟩
  rw [← Attempt.outcome, h]
  exact ⟨rfl, Footprint.counts_eq_nil hp⟩

/-- A search whose filter cannot be planned comes to nothing else. -/
theorem search_leaves {t : Trace} (h : Attempt.outcome (ctx.plan f) t = .error e)
    (searchId : String) (d : Direction) :
    Attempt.Leaves (ctx.search searchId f d) (fun _ _ ↦ False)
      fun e' p ↦ e' = e ∧ p.counts = [] := by
  refine Attempt.leaves_bind (Attempt.leaves_effect (Effect.leaves_note ?_))
  refine Attempt.leaves_bind ((plan_leaves h).mono (fun _ _ hfalse ↦ hfalse.elim) ?_)
  rintro e' p ⟨rfl, hp⟩
  exact ⟨rfl, List.append_eq_nil_iff.2 ⟨hp, rfl⟩⟩

end Context

namespace Store

variable {s : Store} {r : Registry} {config : SearchConfig} {f : Filter} {t : Trace}

/-- A plan is made where an evaluator is. -/
theorem exists_plan_iff : (∃ o, Attempt.outcome ((s.context r config).plan f) t = .ok o) ↔
    ∃ e, f.toEvaluator r = .ok e := by
  refine ⟨fun ⟨o, ho⟩ ↦ ?_, fun ⟨e, he⟩ ↦ plan_eq_ok he t⟩
  have hplanned := (s.plan_planned r config f).outcome t
  rw [ho] at hplanned
  obtain ⟨e, he, -⟩ := hplanned
  exact ⟨e, he⟩

theorem plan_eq_error_iff {err : SearchError} :
    Attempt.outcome ((s.context r config).plan f) t = .error err ↔
      f.toEvaluator r = .error err := by
  have hplanned := (s.plan_planned r config f).outcome t
  cases ho : Attempt.outcome ((s.context r config).plan f) t with
  | ok o =>
    rw [ho] at hplanned
    obtain ⟨e, he, -⟩ := hplanned
    exact iff_of_false nofun fun herr ↦ nomatch he.symm.trans herr
  | error err' =>
    rw [ho] at hplanned
    rw [show f.toEvaluator r = .error err' from hplanned, Except.error.injEq, Except.error.injEq]

/-- **A filter is planned where it is made ready for use, and otherwise both fail alike.**  The
failure is that of the first leaf from the left that the schema cannot make sense of.  A search
fails with it too, and has counted nothing by then: no candidate was examined or tested, and nothing
was looked up. -/
theorem fails_iff_firstFailure (s : Store) (r : Registry) (config : SearchConfig) (f : Filter) :
    (∀ t t', (∃ o, Attempt.outcome ((s.context r config).plan f) t = .ok o) ↔
      ∃ e, (f.resolve r).outcome t' = .ok e) ∧
    (∀ t err, Attempt.outcome ((s.context r config).plan f) t = .error err ↔
      f.FirstFailure r err) ∧
    (∀ t err, (f.resolve r).outcome t = .error err ↔ f.FirstFailure r err) ∧
    ∀ err, f.FirstFailure r err → ∀ searchId d,
      Attempt.Leaves ((s.context r config).search searchId f d) (fun _ _ ↦ False)
        fun err' p ↦ err' = err ∧ p.counts = [] := by
  have hresolve : ∀ t, (f.resolve r).outcome t = f.toEvaluator r :=
    fun t ↦ (Filter.resolve_follows r f).outcome_eq t
  have hplan : ∀ t err, Attempt.outcome ((s.context r config).plan f) t = .error err ↔
      f.FirstFailure r err :=
    fun _ _ ↦ plan_eq_error_iff.trans Filter.toEvaluator_eq_error_iff
  refine ⟨fun t t' ↦ ?_, hplan, fun t err ↦ ?_, fun err herr searchId d ↦ ?_⟩
  · rw [hresolve t']
    exact exists_plan_iff
  · rw [hresolve t]
    exact Filter.toEvaluator_eq_error_iff
  · exact Context.search_leaves ((hplan (.start .warn false) err).2 herr) searchId d

end Store
end DirectoryQuery
