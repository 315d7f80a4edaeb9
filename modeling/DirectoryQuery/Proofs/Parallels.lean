import DirectoryQuery.Proofs.Comparisons
import DirectoryQuery.Proofs.Drivers

/-!
# Searches in two contexts

In a search only evaluators and the sieves over an index look anything up.  Planning, closing and
logging count nothing, and planning does the same in two contexts that offer the same to plan with
(`Context.plan_matches`).  The cursor that is planned suits a comparison if the entries that are
scanned are known and every leaf does the same (`Context.Planned.suits`).  So then the whole search
does the same in both contexts (`Comparison.search_matches`).
-/

set_option autoImplicit false

namespace DirectoryQuery

variable {α β : Type} {whats : List Tally}

/-! ## What counts nothing -/

/-! ### Closing -/

theorem Index.noteFailure_matches (outcome : Except SearchError Unit) :
    Effect.Matches whats (noteFailure outcome) (noteFailure outcome) fun _ ↦ True := by
  cases outcome with
  | ok => exact Effect.matches_pure trivial
  | error e => exact Effect.matches_note _ _

theorem Listing.release_matches (cause : Option SearchError) :
    Act.Matches whats (release cause) (release cause) (fun _ ↦ True) fun _ ↦ True := by
  refine Act.matches_bind Act.matches_get fun l _ ↦ ?_
  cases l.standing.position.isClosed with
  | true => exact Act.matches_pure trivial
  | false =>
    exact Act.matches_bind (Act.matches_set trivial) fun _ _ ↦
      Act.matches_effect (Effect.matches_note _ _)

namespace Reel

theorem release_matches (cause : Option SearchError) (r : Reel) :
    Effect.Matches whats ((release cause).perform r) ((release cause).perform r)
      fun _ ↦ True := by
  have hlisting : Effect.Matches whats ((onListing (Listing.release cause)).perform r)
      ((onListing (Listing.release cause)).perform r) fun _ ↦ True :=
    Effect.matches_bind (Listing.release_matches cause r.listing trivial) fun _ _ ↦
      Effect.matches_pure trivial
  rw [release, Act.perform_of]
  cases r.monitor with
  | none => exact hlisting
  | some m =>
    exact Effect.matches_bind (Effect.matches_noteRelease m.label) fun _ _ ↦
      Effect.matches_bind hlisting fun _ _ ↦ Effect.matches_pure trivial

theorem findKey_matches (wanted : Value → Bool) (moves : Nat) :
    Act.Matches whats (findKey wanted moves) (findKey wanted moves) (Carries fun _ ↦ True)
      fun _ ↦ True := by
  induction moves with
  | zero => exact Act.matches_pure trivial
  | succ moves ih =>
    refine Act.matches_bind (matches_advance .forward) fun found _ ↦ ?_
    cases found with
    | false => exact Act.matches_pure trivial
    | true =>
      refine Act.matches_bind Act.matches_get fun r _ ↦ ?_
      refine Act.matches_bind (Act.matches_except _) fun c _ ↦ ?_
      cases c.value.filter wanted with
      | some key => exact Act.matches_pure trivial
      | none => exact ih

end Reel

/-- Of a reading in reverse nothing is counted but that it is made. -/
theorem Index.firstKey?_matches (x : Index) (id : EntryId) (wanted : Value → Bool) :
    Attempt.Matches whats (x.firstKey? id wanted) (x.firstKey? id wanted) fun _ ↦ True := by
  refine Attempt.matches_bind (Attempt.matches_except _) fun r _ ↦ ?_
  refine Effect.matches_bind (Reel.findKey_matches wanted _ r fun _ _ ↦ trivial) ?_
  rintro ⟨o, r'⟩ -
  cases o with
  | ok found =>
    exact Effect.matches_bind (r'.release_matches none) fun _ _ ↦
      Effect.matches_pure (meets_true _)
  | error e =>
    exact Effect.matches_bind (r'.release_matches (some e)) fun o' _ ↦
      Effect.matches_bind (noteFailure_matches o'.1) fun _ _ ↦ Effect.matches_pure trivial

namespace Cursor

mutual
/-- To close a cursor is logged, but nothing is counted. -/
theorem releaseTree_matches (cause : Option SearchError) : ∀ c : Cursor,
    Effect.Matches whats (releaseTree cause c) (releaseTree cause c) fun _ ↦ True
  | reel r => by
    rw [releaseTree]
    exact Effect.matches_bind (r.release_matches cause) fun _ _ ↦ Effect.matches_pure trivial
  | monitored m inner => by
    rw [releaseTree]
    exact Effect.matches_bind (Effect.matches_noteRelease m.label) fun _ _ ↦
      Effect.matches_bind (releaseTree_matches cause inner) fun _ _ ↦ Effect.matches_pure trivial
  | sieve ⟨x, source, idle, standing⟩ => by
    rw [releaseTree]
    cases standing.position.isClosed with
    | true => exact Effect.matches_pure trivial
    | false =>
      refine Effect.matches_bind (Effect.matches_note _ _) fun _ _ ↦ ?_
      refine Effect.matches_bind (releaseTree_matches cause source) fun o _ ↦ ?_
      cases x.readsIndex with
      | true =>
        exact Effect.matches_bind (releaseTrees_matches cause idle) fun _ _ ↦
          Effect.matches_pure trivial
      | false =>
        exact Effect.matches_bind (Index.noteFailure_matches o.1) fun _ _ ↦
          Effect.matches_bind (releaseTrees_matches cause idle) fun _ _ ↦
            Effect.matches_pure trivial
  | relay ⟨sources, lanes, active, standing⟩ => by
    rw [releaseTree]
    cases standing.position.isClosed with
    | true => exact Effect.matches_pure trivial
    | false =>
      exact Effect.matches_bind (Effect.matches_note _ _) fun _ _ ↦
        Effect.matches_bind (releaseTrees_matches cause sources) fun _ _ ↦
          Effect.matches_pure trivial
theorem releaseTrees_matches (cause : Option SearchError) : ∀ cs : List Cursor,
    Effect.Matches whats (releaseTrees cause cs) (releaseTrees cause cs) fun _ ↦ True
  | [] => by
    rw [releaseTrees]
    exact Effect.matches_pure trivial
  | c :: cs => by
    rw [releaseTrees]
    exact Effect.matches_bind (releaseTree_matches cause c) fun o _ ↦
      Effect.matches_bind (Index.noteFailure_matches o.1) fun _ _ ↦
        Effect.matches_bind (releaseTrees_matches cause cs) fun _ _ ↦ Effect.matches_pure trivial
end

end Cursor

/-! ### Planning -/

namespace Formula

variable {g : α → Attempt β}

mutual
theorem traverse_matches (hg : ∀ a, Attempt.Matches whats (g a) (g a) fun _ ↦ True) :
    ∀ f : Formula α, Attempt.Matches whats (f.traverse g) (f.traverse g) fun _ ↦ True
  | all parts =>
    Attempt.matches_bind (traverseEach_matches hg parts) fun _ _ ↦ Attempt.matches_pure trivial
  | any parts =>
    Attempt.matches_bind (traverseEach_matches hg parts) fun _ _ ↦ Attempt.matches_pure trivial
  | not part =>
    Attempt.matches_bind (traverse_matches hg part) fun _ _ ↦ Attempt.matches_pure trivial
  | leaf a => Attempt.matches_bind (hg a) fun _ _ ↦ Attempt.matches_pure trivial
theorem traverseEach_matches (hg : ∀ a, Attempt.Matches whats (g a) (g a) fun _ ↦ True) :
    ∀ fs : List (Formula α),
      Attempt.Matches whats (traverseEach g fs) (traverseEach g fs) fun _ ↦ True
  | [] => Attempt.matches_pure trivial
  | part :: parts =>
    Attempt.matches_bind (traverse_matches hg part) fun _ _ ↦
      Attempt.matches_bind (traverseEach_matches hg parts) fun _ _ ↦ Attempt.matches_pure trivial
end

end Formula

theorem Clause.resolve_matches (r : Registry) (c : Clause) :
    Attempt.Matches whats (c.resolve r) (c.resolve r) fun _ ↦ True := by
  refine Attempt.matches_bind (Attempt.matches_except _) fun subject _ ↦ ?_
  refine Attempt.matches_bind (Attempt.matches_effect (Effect.matches_note _ _)) fun _ _ ↦ ?_
  by_cases hpattern : subject.assertion c.condition = .pattern none
  · simp only [hpattern, if_true]
    exact Attempt.matches_bind (Attempt.matches_effect (Effect.matches_note _ _)) fun _ _ ↦
      Attempt.matches_pure trivial
  · simp only [hpattern, if_false]
    exact Attempt.matches_pure trivial

/-- To make a filter ready for use is logged, but nothing is counted. -/
theorem Filter.resolve_matches (r : Registry) (f : Filter) :
    Attempt.Matches whats (f.resolve r) (f.resolve r) fun _ ↦ True :=
  Formula.traverse_matches (Clause.resolve_matches r) f

namespace Cursor

/-- To make a cursor is logged, but nothing is counted. -/
theorem made_matches (kind : String) (operands : Nat) (c : Cursor) :
    Effect.Matches whats (do noteCreated kind operands; return c)
      (do noteCreated kind operands; return c) fun _ ↦ True :=
  Effect.matches_bind (Effect.matches_note _ _) fun _ _ ↦ Effect.matches_pure trivial

theorem ofKey_matches (x : Index) (key : Value) :
    Attempt.Matches whats (ofKey x key) (ofKey x key) fun _ ↦ True :=
  Attempt.matches_bind (Attempt.matches_except _) fun _ _ ↦
    Attempt.matches_effect (made_matches _ _ _)

theorem ofIndex_matches (x : Index) (a : Assertion) :
    Attempt.Matches whats (ofIndex x a) (ofIndex x a) fun _ ↦ True := by
  unfold ofIndex
  cases x.hasReverse with
  | false =>
    exact Attempt.matches_bind (Attempt.matches_throw (Q := fun _ ↦ False) _) fun _ ↦ False.elim
  | true =>
    exact Attempt.matches_bind (Attempt.matches_except _) fun _ _ ↦
      Attempt.matches_effect (made_matches _ _ _)

theorem conjunction_matches (operands : List Operand) :
    Attempt.Matches whats (conjunction operands) (conjunction operands) fun _ ↦ True := by
  unfold conjunction
  cases ranked operands with
  | nil => exact Attempt.matches_throw _
  | cons driver others => exact Attempt.matches_effect (made_matches _ _ _)

theorem disjunction_matches (operands : List Operand) :
    Attempt.Matches whats (disjunction operands) (disjunction operands) fun _ ↦ True := by
  unfold disjunction
  by_cases hlt : operands.length < 2
  · simp only [hlt, if_true]
    exact Attempt.matches_bind (Attempt.matches_throw (Q := fun _ ↦ False) _) fun _ ↦ False.elim
  · simp only [hlt, if_false]
    exact Attempt.matches_effect (made_matches _ _ _)

end Cursor

namespace Context

/-- Both contexts offer the same to plan with. -/
structure PlansAlike (ctx ctx' : Context) : Prop where
  schema : ctx'.schema = ctx.schema
  everyEntry : ctx'.directory.everyEntry = ctx.directory.everyEntry
  size : ctx'.directory.size = ctx.directory.size
  sourceIndex? (t : AttributeType) : ctx'.sourceIndex? t = ctx.sourceIndex? t

variable {ctx ctx' : Context}

theorem everyEntry_matches (h : ctx.PlansAlike ctx') :
    Attempt.Matches whats ctx.everyEntry ctx'.everyEntry fun _ ↦ True := by
  unfold everyEntry
  rw [h.everyEntry]
  exact Attempt.matches_bind (Attempt.matches_except _) fun _ _ ↦ Attempt.matches_pure trivial

theorem scanAll_matches (h : ctx.PlansAlike ctx') (e : Evaluator) :
    Attempt.Matches whats (ctx.scanAll e) (ctx'.scanAll e) fun _ ↦ True :=
  Attempt.matches_bind (everyEntry_matches h) fun _ _ ↦
    Attempt.matches_effect (Cursor.made_matches _ _ _)

theorem planIndexed?_matches (x : Index) (t : Test) :
    ∀ planning ∈ planIndexed? x t, Attempt.Matches whats planning planning fun _ ↦ True := by
  intro planning hplanning
  unfold planIndexed? at hplanning
  cases hkey : t.lookupKey with
  | some key =>
    rw [hkey] at hplanning
    obtain rfl := Option.some.inj hplanning
    exact Attempt.matches_bind (Cursor.ofKey_matches x key) fun _ _ ↦ Attempt.matches_pure trivial
  | none =>
    rw [hkey] at hplanning
    cases hreverse : x.hasReverse with
    | false => simp [hreverse] at hplanning
    | true =>
      simp only [hreverse, if_true] at hplanning
      obtain rfl := Option.some.inj hplanning
      exact Attempt.matches_bind (Cursor.ofIndex_matches x _) fun _ _ ↦
        Attempt.matches_pure trivial

theorem planClause_matches (h : ctx.PlansAlike ctx') (c : Clause) :
    Attempt.Matches whats (ctx.planClause c) (ctx'.planClause c) fun _ ↦ True := by
  unfold planClause
  rw [h.schema, h.size]
  refine Attempt.matches_bind (c.resolve_matches _) fun t _ ↦ ?_
  rw [h.sourceIndex?]
  cases hplanning : (ctx.sourceIndex? t.subject.type).bind fun x ↦ planIndexed? x t with
  | none =>
    exact Attempt.matches_bind (scanAll_matches h _) fun _ _ ↦ Attempt.matches_pure trivial
  | some planning =>
    obtain ⟨x, -, hplanning⟩ := Option.bind_eq_some_iff.1 hplanning
    exact planIndexed?_matches x t planning hplanning

mutual
/-- **What is planned is the same in both contexts**, and to plan it counts nothing. -/
theorem plan_matches (h : ctx.PlansAlike ctx') :
    ∀ f : Filter, Attempt.Matches whats (ctx.plan f) (ctx'.plan f) fun _ ↦ True
  | .all [] => by
    rw [plan, plan, h.schema, h.size]
    exact Attempt.matches_bind (Filter.resolve_matches _ _) fun e _ ↦
      Attempt.matches_bind (scanAll_matches h e) fun _ _ ↦ Attempt.matches_pure trivial
  | .all [part] => by
    rw [plan, plan]
    exact plan_matches h part
  | .all (first :: second :: rest) => by
    rw [plan, plan, h.schema]
    exact Attempt.matches_bind (planEach_matches h (first :: second :: rest)) fun operands _ ↦
      Attempt.matches_bind (Cursor.conjunction_matches _) fun _ _ ↦
        Attempt.matches_bind (Filter.resolve_matches _ _) fun _ _ ↦ Attempt.matches_pure trivial
  | .any [] => by
    rw [plan, plan, h.schema]
    exact Attempt.matches_bind (Filter.resolve_matches _ _) fun _ _ ↦ Attempt.matches_pure trivial
  | .any [part] => by
    rw [plan, plan]
    exact plan_matches h part
  | .any (first :: second :: rest) => by
    rw [plan, plan, h.schema]
    exact Attempt.matches_bind (planEach_matches h (first :: second :: rest)) fun operands _ ↦
      Attempt.matches_bind (Cursor.disjunction_matches _) fun _ _ ↦
        Attempt.matches_bind (Filter.resolve_matches _ _) fun _ _ ↦ Attempt.matches_pure trivial
  | .not part => by
    rw [plan, plan, h.schema, h.size]
    refine Attempt.matches_bind (Filter.resolve_matches _ _) fun negated _ ↦ ?_
    refine Attempt.matches_bind (everyEntry_matches h) fun source _ ↦ ?_
    refine Attempt.matches_bind (Attempt.matches_effect (Cursor.made_matches _ _ _)) fun _ _ ↦ ?_
    exact Attempt.matches_bind (Filter.resolve_matches _ _) fun _ _ ↦ Attempt.matches_pure trivial
  | .leaf c => by
    rw [plan, plan]
    exact planClause_matches h c
theorem planEach_matches (h : ctx.PlansAlike ctx') :
    ∀ fs : List Filter, Attempt.Matches whats (ctx.planEach fs) (ctx'.planEach fs) fun _ ↦ True
  | [] => by
    rw [planEach, planEach]
    exact Attempt.matches_pure trivial
  | f :: fs => by
    rw [planEach, planEach]
    exact Attempt.matches_bind (plan_matches h f) fun _ _ ↦
      Attempt.matches_bind (planEach_matches h fs) fun _ _ ↦ Attempt.matches_pure trivial
end

end Context

/-! ## Planned cursors -/

namespace Comparison

variable {m : Comparison}

/-- The leaf does the same in both contexts, as an evaluator and as a cursor. -/
structure Settles (m : Comparison) (t : Test) : Prop where
  evaluate : Act.Matches m.spared (t.evaluate m.first) (t.evaluate m.second) m.Known fun _ ↦ True
  planned (o : Operand) : m.first.PlannedLeaf t o → o.cursor.Suits m

theorem judges_of_leaves {e : Evaluator} (h : ∀ t ∈ e.leaves, m.Settles t) : m.Judges e :=
  Formula.judge_matches e fun t ht ↦ (h t ht).evaluate

theorem suits_over {x : Acceptance} {r : Reel} (hx : m.Accepts x) (hr : r.Carries m.Known) :
    (Cursor.sieve (.fresh x (.reel r) [])).Suits m :=
  Cursor.suits_sieve.2 ⟨hx, hr, fun _ hc ↦ nomatch hc⟩

theorem accepts_rejecting {e : Evaluator} (he : m.Judges e) : m.Accepts (.rejecting e) :=
  Act.matches_bind he fun _ _ ↦ Act.matches_pure trivial

theorem accepts_joint {position : Nat} {others : List Evaluator}
    (h : ∀ t ∈ Formula.leavesOf others, m.Settles t) : m.Accepts (.joint position others) :=
  Formula.judgeAll_matches others fun t ht ↦ (h t ht).evaluate

end Comparison

namespace Context

/-- The leaves of an operand are among those of the filters it was planned for. -/
theorem PlannedEach.leaves {ctx : Context} {es : List Evaluator} {operands : List Operand}
    (h : ctx.PlannedEach es operands) {o : Operand} (ho : o ∈ operands) {t : Test}
    (ht : t ∈ o.evaluator.leaves) : t ∈ Formula.leavesOf es := by
  have hmem := List.mem_map_of_mem (f := Operand.evaluator) ho
  rw [h.evaluators_eq] at hmem
  obtain ⟨e, he, hcore⟩ := List.mem_map.1 hmem
  rw [← hcore, Formula.leaves_core] at ht
  exact Formula.mem_leavesOf.2 ⟨e, he, ht⟩

/-- Planned cursors of leaves with the one property have the other property, and so have the cursors
that planning makes of them, of all entries, and of evaluators of such leaves. -/
structure Builds (ctx : Context) (L : Test → Prop) (Q : Cursor → Prop) : Prop where
  leaf {t : Test} {o : Operand} : L t → ctx.PlannedLeaf t o → Q o.cursor
  empty : Q (.ofList [])
  scan {e : Evaluator} {r : Reel} : (∀ t ∈ e.leaves, L t) → ctx.directory.everyEntry = .ok r →
    Q (.sieve (.fresh (.matching e) (.reel r) []))
  negation {e : Evaluator} {r : Reel} : (∀ t ∈ e.leaves, L t) →
    ctx.directory.everyEntry = .ok r → Q (.sieve (.fresh (.rejecting e) (.reel r) []))
  /-- The cursors of the others are never moved; their evaluators are asked. -/
  conjunction {driver : Cursor} {position : Nat} {others : List Evaluator} {idle : List Cursor} :
    Q driver → (∀ t ∈ Formula.leavesOf others, L t) →
      Q (.sieve (.fresh (.joint position others) driver idle))
  disjunction {operands : List (Cursor × Evaluator)} :
    (∀ o ∈ operands, Q o.1 ∧ ∀ t ∈ o.2.leaves, L t) → Q (.relay (.fresh operands))

variable {ctx : Context} {L : Test → Prop} {Q : Cursor → Prop}

mutual
/-- A planned cursor has what every cursor has that planning makes. -/
theorem Planned.built (hQ : ctx.Builds L Q) : ∀ {e : Evaluator} {o : Operand},
    ctx.Planned e o → (∀ t ∈ e.leaves, L t) → Q o.cursor
  | .all [], _, h, hleaves => by
    rw [Planned] at h
    obtain ⟨r, hr, rfl⟩ := h
    exact hQ.scan hleaves hr
  | .all [part], _, h, hleaves => by
    rw [Planned] at h
    rw [Formula.leaves, Formula.leavesOf_one] at hleaves
    exact h.built hQ hleaves
  | .all (first :: second :: rest), _, h, hleaves => by
    rw [Planned] at h
    obtain ⟨operands, driver, position, others, hplanned, hranked, rfl⟩ := h
    have hmem : ∀ o ∈ (driver, position) :: others, o.1 ∈ operands := by
      intro o ho
      rw [← hranked] at ho
      exact mem_of_mem_ranked ho
    refine hQ.conjunction (hplanned.built hQ hleaves driver (hmem _ List.mem_cons_self)) ?_
    intro t ht
    obtain ⟨e, he, ht⟩ := Formula.mem_leavesOf.1 ht
    obtain ⟨o, ho, rfl⟩ := List.mem_map.1 he
    exact hleaves t (hplanned.leaves (hmem o (List.mem_cons_of_mem _ ho)) ht)
  | .any [], _, h, _ => by
    rw [Planned] at h
    rw [h]
    exact hQ.empty
  | .any [part], _, h, hleaves => by
    rw [Planned] at h
    rw [Formula.leaves, Formula.leavesOf_one] at hleaves
    exact h.built hQ hleaves
  | .any (first :: second :: rest), _, h, hleaves => by
    rw [Planned] at h
    obtain ⟨operands, hplanned, rfl⟩ := h
    refine hQ.disjunction (List.forall_mem_map.2 fun o ho ↦ ⟨hplanned.built hQ hleaves o ho, ?_⟩)
    exact fun t ht ↦ hleaves t (hplanned.leaves ho ht)
  | .not part, _, h, hleaves => by
    rw [Planned] at h
    obtain ⟨r, hr, rfl⟩ := h
    exact hQ.negation hleaves hr
  | .leaf t, o, h, hleaves => by
    rw [Planned] at h
    exact hQ.leaf (hleaves t List.mem_cons_self) h
theorem PlannedEach.built (hQ : ctx.Builds L Q) :
    ∀ {es : List Evaluator} {operands : List Operand}, ctx.PlannedEach es operands →
      (∀ t ∈ Formula.leavesOf es, L t) → ∀ o ∈ operands, Q o.cursor
  | [], _, h, _ => by
    rw [PlannedEach] at h
    rw [h]
    exact fun _ ho ↦ absurd ho List.not_mem_nil
  | part :: parts, _, h, hleaves => by
    rw [PlannedEach] at h
    obtain ⟨first, rest, rfl, hfirst, hrest⟩ := h
    rw [Formula.leavesOf, List.forall_mem_append] at hleaves
    exact List.forall_mem_cons.2 ⟨hfirst.built hQ hleaves.1, hrest.built hQ hleaves.2⟩
end

variable {m : Comparison}

/-- **A planned cursor suits the comparison**, if the entries that are scanned are known and each
leaf does the same. -/
theorem Planned.suits (hevery : ∀ r, m.first.directory.everyEntry = .ok r → r.Carries m.Known)
    {e : Evaluator} {o : Operand} (h : m.first.Planned e o)
    (hleaves : ∀ t ∈ e.leaves, m.Settles t) : o.cursor.Suits m := by
  refine h.built ?_ hleaves
  exact {
    leaf ht ho := ht.planned _ ho
    empty _ hc := absurd hc List.not_mem_nil
    scan he hr := m.suits_over (m.judges_of_leaves he) (hevery _ hr)
    negation he hr := m.suits_over (m.accepts_rejecting (m.judges_of_leaves he)) (hevery _ hr)
    conjunction hdriver hothers := Cursor.suits_sieve.2
      ⟨Comparison.accepts_joint hothers, hdriver, fun _ hc ↦ nomatch hc⟩
    disjunction hoperands := Cursor.suits_relay.2
      ⟨List.forall_mem_map.2 fun o ho ↦ (hoperands o ho).1,
        List.forall_mem_map.2 fun o ho ↦ m.judges_of_leaves (hoperands o ho).2,
        fun _ hc ↦ nomatch hc⟩ }

end Context

/-! ## Searches in two contexts -/

namespace Context

/-- What a search does between the two log lines that have its identifier. -/
def answer (ctx : Context) (f : Filter) (d : Direction) : Attempt (List EntryId) := do
  let operand ← ctx.plan f
  let (outcome, cursor) ← (Cursor.collect ctx d).perform operand.cursor
  match outcome with
  | .error e =>
    let _ ← (Cursor.release (some e)).perform cursor
    throw e
  | .ok ids =>
    let (closing, _) ← (Cursor.release none).perform cursor
    closing
    return ids

theorem search_eq_answer (ctx : Context) (searchId : String) (f : Filter) (d : Direction) :
    ctx.search searchId f d = do
      note .searchStart [("search_id", searchId), ("filter", f.display)]
      let ids ← ctx.answer f d
      note .searchComplete [("search_id", searchId), ("filter", f.display),
        ("matches", toString ids.length)]
      return ids := by
  simp only [search, answer, bind_assoc]
  refine bind_congr fun _ ↦ bind_congr fun operand ↦ bind_congr fun r ↦ ?_
  obtain ⟨outcome, cursor⟩ := r
  cases outcome with
  | error e =>
    simp only [bind_assoc]
    refine bind_congr fun _ ↦ ?_
    rfl
  | ok ids => simp only [bind_assoc, pure_bind]

end Context

/-- What is done for an answer is the same in both contexts if they offer the same to plan with, the
entries that are scanned are known, and each leaf that the schema can make sense of does the same.
This includes that it fails alike. -/
theorem Comparison.answer_matches (m : Comparison) (h : m.first.PlansAlike m.second)
    (hevery : ∀ r, m.first.directory.everyEntry = .ok r → r.Carries m.Known) {f : Filter}
    (hleaves : ∀ c ∈ f.leaves, ∀ t, c.toTest m.first.schema = .ok t → m.Settles t)
    (d : Direction) :
    Attempt.Matches m.spared (m.first.answer f d) (m.second.answer f d) fun _ ↦ True := by
  have hplan : Attempt.Matches m.spared (m.first.plan f) (m.second.plan f) fun o ↦
      o.cursor.Suits m := by
    refine (Context.plan_matches h f).ensures ((m.first.plan_spec f).mono ?_ fun _ he ↦ he)
    rintro o ⟨e, he, hplanned⟩
    refine hplanned.suits hevery fun t ht ↦ ?_
    obtain ⟨c, hc, hct⟩ := Filter.mem_leaves_toEvaluator he ht
    exact hleaves c hc t hct
  refine Attempt.matches_bind hplan fun o ho ↦ ?_
  refine Attempt.matches_bind (Attempt.matches_effect (Cursor.collect_matches m d o.cursor ho)) ?_
  rintro ⟨outcome, cursor⟩ -
  have hrelease (cause : Option SearchError) :
      Effect.Matches m.spared ((Cursor.release cause).perform cursor)
        ((Cursor.release cause).perform cursor) fun _ ↦ True :=
    Cursor.releaseTree_matches cause cursor
  cases outcome with
  | error e =>
    exact Attempt.matches_bind (Attempt.matches_effect (hrelease (some e))) fun _ _ ↦
      Attempt.matches_throw e
  | ok ids =>
    refine Attempt.matches_bind (Attempt.matches_effect (hrelease none)) fun r _ ↦ ?_
    exact Attempt.matches_bind (Attempt.matches_except r.1) fun _ _ ↦ Attempt.matches_pure trivial

/-- **A search does the same in both contexts** if what is done for its answer is the same. -/
theorem Comparison.search_matches (m : Comparison) (h : m.first.PlansAlike m.second)
    (hevery : ∀ r, m.first.directory.everyEntry = .ok r → r.Carries m.Known) {f : Filter}
    (hleaves : ∀ c ∈ f.leaves, ∀ t, c.toTest m.first.schema = .ok t → m.Settles t)
    (searchId : String) (d : Direction) :
    Attempt.Matches m.spared (m.first.search searchId f d) (m.second.search searchId f d)
      fun _ ↦ True := by
  rw [Context.search_eq_answer, Context.search_eq_answer]
  refine Attempt.matches_bind (Attempt.matches_effect (Effect.matches_note _ _)) fun _ _ ↦ ?_
  refine Attempt.matches_bind (m.answer_matches h hevery hleaves d) fun _ _ ↦ ?_
  exact Attempt.matches_bind (Attempt.matches_effect (Effect.matches_note _ _)) fun _ _ ↦
    Attempt.matches_pure trivial

end DirectoryQuery
