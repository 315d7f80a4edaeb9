import DirectoryQuery.Proofs.Judgement
import DirectoryQuery.Search.Plan

/-!
# What a plan looks like

Making a filter ready for use is a matter of the schema alone (`Filter.toEvaluator`): the first leaf
from the left that the schema cannot make sense of decides the failure, and what is logged does not
matter.  Planning follows the same course.  It fails as making the filter ready for use fails, or
because the store fails; otherwise it comes to an operand that `Context.Planned` describes, for each
shape of the filter, in terms of the operands of the parts (`Context.plan_spec`).

The evaluator of the operand is that of the filter, except that a conjunction or disjunction of one
part is taken for the part (`Context.Planned.evaluator_eq`), which makes no difference to what it
accepts (`Context.Planned.holds_eq`).
-/

set_option autoImplicit false

namespace DirectoryQuery

/-! ## Filters made ready for use -/

/-- A clause made ready for use with a schema. -/
def Clause.toTest (r : Registry) (c : Clause) : Except SearchError Test := do
  let subject ← Subject.resolve r c.name c.condition.slots
  return ⟨c, subject, subject.assertion c.condition⟩

/-- A filter made ready for use with a schema. -/
def Filter.toEvaluator (r : Registry) (f : Filter) : Except SearchError Evaluator :=
  f.traverse (Clause.toTest r)

theorem Clause.resolve_follows (r : Registry) (c : Clause) :
    Attempt.Follows (c.resolve r) (c.toTest r) := by
  refine Attempt.Follows.bind (.except _) fun subject ↦ .effect_bind fun _ ↦ ?_
  by_cases hpattern : subject.assertion c.condition = .pattern none
  · simp only [hpattern, if_true]
    exact .effect_bind fun _ ↦ .pure _
  · simp only [hpattern, if_false]
    exact .pure _

namespace Formula

variable {α β : Type} {g : α → Attempt β} {h : α → Except SearchError β}

mutual
/-- Leaves that are replaced alike make the formula replaced alike. -/
theorem traverse_follows (hg : ∀ a, Attempt.Follows (g a) (h a)) :
    ∀ f : Formula α, Attempt.Follows (f.traverse g) (f.traverse h)
  | all parts => .bind (traverseEach_follows hg parts) fun _ ↦ .pure _
  | any parts => .bind (traverseEach_follows hg parts) fun _ ↦ .pure _
  | not part => .bind (traverse_follows hg part) fun _ ↦ .pure _
  | leaf a => .bind (hg a) fun _ ↦ .pure _
theorem traverseEach_follows (hg : ∀ a, Attempt.Follows (g a) (h a)) :
    ∀ fs : List (Formula α), Attempt.Follows (traverseEach g fs) (traverseEach h fs)
  | [] => .pure _
  | part :: parts =>
    .bind (traverse_follows hg part) fun _ ↦ .bind (traverseEach_follows hg parts) fun _ ↦ .pure _
end

end Formula

namespace Formula

variable {α β ε : Type} {g : α → Except ε β}

theorem length_traverseEach {fs : List (Formula α)} {fs' : List (Formula β)}
    (h : traverseEach g fs = .ok fs') : fs'.length = fs.length := by
  induction fs generalizing fs' with
  | nil =>
    rw [← Except.ok.inj h]
    rfl
  | cons part parts ih =>
    obtain ⟨first, -, hrest⟩ := bind_eq_ok.1 h
    obtain ⟨rest, hrest, hfs⟩ := bind_eq_ok.1 hrest
    rw [← Except.ok.inj hfs, List.length_cons, List.length_cons, ih hrest]

mutual
/-- If every leaf is replaced, so is the formula. -/
theorem exists_traverse : ∀ f : Formula α, (∀ a ∈ f.leaves, ∃ b, g a = .ok b) →
    ∃ f', f.traverse g = .ok f'
  | all parts, h => by
    obtain ⟨parts', hparts⟩ := exists_traverseEach parts h
    exact ⟨all parts', bind_eq_ok.2 ⟨parts', hparts, rfl⟩⟩
  | any parts, h => by
    obtain ⟨parts', hparts⟩ := exists_traverseEach parts h
    exact ⟨any parts', bind_eq_ok.2 ⟨parts', hparts, rfl⟩⟩
  | not part, h => by
    obtain ⟨part', hpart⟩ := exists_traverse part h
    exact ⟨not part', bind_eq_ok.2 ⟨part', hpart, rfl⟩⟩
  | leaf a, h => by
    obtain ⟨b, hb⟩ := h a List.mem_cons_self
    exact ⟨leaf b, bind_eq_ok.2 ⟨b, hb, rfl⟩⟩
theorem exists_traverseEach : ∀ fs : List (Formula α), (∀ a ∈ leavesOf fs, ∃ b, g a = .ok b) →
    ∃ fs', traverseEach g fs = .ok fs'
  | [], _ => ⟨[], rfl⟩
  | part :: parts, h => by
    rw [leavesOf, List.forall_mem_append] at h
    obtain ⟨part', hpart⟩ := exists_traverse part h.1
    obtain ⟨parts', hparts⟩ := exists_traverseEach parts h.2
    exact ⟨part' :: parts', bind_eq_ok.2 ⟨part', hpart, bind_eq_ok.2 ⟨parts', hparts, rfl⟩⟩⟩
end

mutual
/-- The new leaves come from the old ones. -/
theorem mem_leaves_traverse {b : β} : ∀ {f : Formula α} {f' : Formula β}, f.traverse g = .ok f' →
    b ∈ f'.leaves → ∃ a ∈ f.leaves, g a = .ok b
  | all parts, _, h, hb => by
    obtain ⟨parts', hparts, hf⟩ := bind_eq_ok.1 h
    obtain rfl := Except.ok.inj hf
    exact mem_leavesOf_traverseEach hparts hb
  | any parts, _, h, hb => by
    obtain ⟨parts', hparts, hf⟩ := bind_eq_ok.1 h
    obtain rfl := Except.ok.inj hf
    exact mem_leavesOf_traverseEach hparts hb
  | not part, _, h, hb => by
    obtain ⟨part', hpart, hf⟩ := bind_eq_ok.1 h
    obtain rfl := Except.ok.inj hf
    have hleaf : ∃ a ∈ part.leaves, g a = .ok b := mem_leaves_traverse hpart hb
    exact hleaf
  | leaf a, _, h, hb => by
    obtain ⟨b', hb', hf⟩ := bind_eq_ok.1 h
    obtain rfl := Except.ok.inj hf
    obtain rfl := List.mem_singleton.1 hb
    exact ⟨a, List.mem_cons_self, hb'⟩
theorem mem_leavesOf_traverseEach {b : β} : ∀ {fs : List (Formula α)} {fs' : List (Formula β)},
    traverseEach g fs = .ok fs' → b ∈ leavesOf fs' → ∃ a ∈ leavesOf fs, g a = .ok b
  | [], _, h, hb => by
    obtain rfl := Except.ok.inj h
    exact absurd hb List.not_mem_nil
  | part :: parts, _, h, hb => by
    obtain ⟨part', hpart, hrest⟩ := bind_eq_ok.1 h
    obtain ⟨parts', hparts, hfs⟩ := bind_eq_ok.1 hrest
    obtain rfl := Except.ok.inj hfs
    rcases List.mem_append.1 hb with hb | hb
    · obtain ⟨a, ha, hab⟩ := mem_leaves_traverse hpart hb
      exact ⟨a, List.mem_append_left _ ha, hab⟩
    · obtain ⟨a, ha, hab⟩ := mem_leavesOf_traverseEach hparts hb
      exact ⟨a, List.mem_append_right _ ha, hab⟩
end

end Formula

/-- If all leaves make sense to the schema, so does the filter. -/
theorem Filter.exists_toEvaluator {r : Registry} {f : Filter}
    (h : ∀ c ∈ f.leaves, ∃ t, c.toTest r = .ok t) : ∃ e, f.toEvaluator r = .ok e :=
  Formula.exists_traverse f h

theorem Filter.mem_leaves_toEvaluator {r : Registry} {f : Filter} {e : Evaluator} {t : Test}
    (h : f.toEvaluator r = .ok e) (ht : t ∈ e.leaves) : ∃ c ∈ f.leaves, c.toTest r = .ok t :=
  Formula.mem_leaves_traverse h ht

theorem Filter.resolve_follows (r : Registry) (f : Filter) :
    Attempt.Follows (f.resolve r) (f.toEvaluator r) :=
  Formula.traverse_follows (Clause.resolve_follows r) f

/-! ## Planned operands -/

namespace Context

/-- The operand that is planned for a leaf. -/
inductive PlannedLeaf (ctx : Context) (t : Test) : Operand → Prop
  /-- From what the index has under one key. -/
  | keyed {x : Index} {key : Value} {reel : Reel} (hx : ctx.sourceIndex? t.subject.type = some x)
      (hkey : t.lookupKey = some key) (hreel : x.forwardOn key = .ok reel) :
      PlannedLeaf ctx t
        ⟨.sieve (.fresh .keyed (.reel reel) []), .leaf t, some (x.countOf key)⟩
  /-- From the whole index. -/
  | indexed {x : Index} {reel : Reel} (hx : ctx.sourceIndex? t.subject.type = some x)
      (hkey : t.lookupKey = none) (hreverse : x.hasReverse = true) (hreel : x.forward = .ok reel) :
      PlannedLeaf ctx t
        ⟨.sieve (.fresh (.indexed x t.assertion) (.reel reel) []), .leaf t, some x.count⟩
  /-- From all entries. -/
  | scanned {reel : Reel}
      (hx : ∀ x, ctx.sourceIndex? t.subject.type = some x →
        t.lookupKey = none ∧ x.hasReverse = false)
      (hreel : ctx.directory.everyEntry = .ok reel) :
      PlannedLeaf ctx t
        ⟨.sieve (.fresh (.matching (.leaf t)) (.reel reel) []), .leaf t, some ctx.directory.size⟩

mutual
/-- The operand that is planned for a filter made ready for use. -/
def Planned (ctx : Context) : Evaluator → Operand → Prop
  | .all [], o => ∃ reel, ctx.directory.everyEntry = .ok reel ∧
      o = ⟨.sieve (.fresh (.matching (.all [])) (.reel reel) []), .all [], some ctx.directory.size⟩
  | .all [part], o => Planned ctx part o
  | .all (first :: second :: rest), o => ∃ operands driver position others,
      PlannedEach ctx (first :: second :: rest) operands ∧
      Cursor.ranked (negationsLast operands) = (driver, position) :: others ∧
      o = ⟨.sieve (.fresh (.joint position (others.map fun o ↦ o.1.evaluator)) driver.cursor
          (others.map fun o ↦ o.1.cursor)), .all (first :: second :: rest),
        leastEstimate (negationsLast operands)⟩
  | .any [], o => o = ⟨.ofList [], .any [], some 0⟩
  | .any [part], o => Planned ctx part o
  | .any (first :: second :: rest), o => ∃ operands,
      PlannedEach ctx (first :: second :: rest) operands ∧
      o = ⟨.relay (.fresh (operands.map fun o ↦ (o.cursor, o.evaluator))),
        .any (first :: second :: rest), totalEstimate operands⟩
  | .not part, o => ∃ reel, ctx.directory.everyEntry = .ok reel ∧
      o = ⟨.sieve (.fresh (.rejecting part) (.reel reel) []), .not part, some ctx.directory.size⟩
  | .leaf t, o => PlannedLeaf ctx t o
/-- The operands that are planned for filters made ready for use. -/
def PlannedEach (ctx : Context) : List Evaluator → List Operand → Prop
  | [], operands => operands = []
  | part :: parts, operands => ∃ first rest, operands = first :: rest ∧ Planned ctx part first ∧
      PlannedEach ctx parts rest
end

/-- The store fails when it is asked for candidates. -/
def Fails (ctx : Context) (e : SearchError) : Prop :=
  ∃ cause, e = .store cause ∧ (ctx.directory.everyEntry = .error cause ∨
    ∃ t x, ctx.directory.index? t = some x ∧
      (x.forward = .error cause ∨ ∃ key, x.forwardOn key = .error cause))

variable {ctx : Context}

/-! ### Leaves -/

theorem everyEntry_spec (ctx : Context) :
    Attempt.Ensures ctx.everyEntry
      (fun c ↦ ∃ reel, ctx.directory.everyEntry = .ok reel ∧ c = .reel reel) ctx.Fails := by
  refine Attempt.ensures_bind (Attempt.ensures_except ?_)
  cases hreel : ctx.directory.everyEntry with
  | ok reel => exact Attempt.ensures_pure ⟨reel, rfl, rfl⟩
  | error cause => exact ⟨cause, rfl, .inl hreel⟩

theorem scanAll_spec (ctx : Context) (e : Evaluator) :
    Attempt.Ensures (ctx.scanAll e)
      (fun c ↦ ∃ reel, ctx.directory.everyEntry = .ok reel ∧
        c = .sieve (.fresh (.matching e) (.reel reel) []))
      ctx.Fails := by
  refine Attempt.ensures_bind ((everyEntry_spec ctx).mono ?_ fun _ he ↦ he)
  intro _ hpost
  obtain ⟨reel, hreel, rfl⟩ := hpost
  exact Attempt.ensures_effect fun _ ↦ ⟨reel, hreel, rfl⟩

theorem index?_of_sourceIndex? {t : AttributeType} {x : Index} (h : ctx.sourceIndex? t = some x) :
    ctx.directory.index? t = some x := (Option.ite_none_right_eq_some.1 h).2

theorem planIndexed?_spec {x : Index} {t : Test} (hx : ctx.sourceIndex? t.subject.type = some x) :
    match planIndexed? x t with
    | some operand => Attempt.Ensures operand (ctx.PlannedLeaf t) ctx.Fails
    | none => t.lookupKey = none ∧ x.hasReverse = false := by
  have hindex := index?_of_sourceIndex? hx
  unfold planIndexed?
  cases hkey : t.lookupKey with
  | some key =>
    refine Attempt.ensures_bind (Attempt.ensures_bind (Attempt.ensures_except ?_))
    cases hreel : x.forwardOn key with
    | ok reel => exact Attempt.ensures_bind (Attempt.ensures_effect fun _ ↦
        Attempt.ensures_pure (Attempt.ensures_pure (.keyed hx hkey hreel)))
    | error cause => exact ⟨cause, rfl, .inr ⟨_, x, hindex, .inr ⟨key, hreel⟩⟩⟩
  | none =>
    cases hreverse : x.hasReverse with
    | false => exact ⟨rfl, rfl⟩
    | true =>
      have hcursor : Attempt.Ensures (Cursor.ofIndex x t.assertion)
          (fun c ↦ ctx.PlannedLeaf t ⟨c, .leaf t, some x.count⟩) ctx.Fails := by
        unfold Cursor.ofIndex
        rw [hreverse]
        refine Attempt.ensures_bind (Attempt.ensures_except ?_)
        cases hreel : x.forward with
        | ok reel => exact Attempt.ensures_bind (Attempt.ensures_effect fun _ ↦
            Attempt.ensures_pure (.indexed hx hkey hreverse hreel))
        | error cause => exact ⟨cause, rfl, .inr ⟨_, x, hindex, .inl hreel⟩⟩
      exact Attempt.ensures_bind (hcursor.mono (fun _ h ↦ Attempt.ensures_pure h) fun _ he ↦ he)

theorem planClause_spec (ctx : Context) (c : Clause) :
    Attempt.Ensures (ctx.planClause c)
      (fun o ↦ ∃ t, c.toTest ctx.schema = .ok t ∧ ctx.PlannedLeaf t o)
      fun e ↦ c.toTest ctx.schema = .error e ∨ ctx.Fails e := by
  refine Attempt.ensures_bind ((c.resolve_follows ctx.schema).mono ?_ fun _ he ↦ .inl he)
  intro t ht
  have hscan (hx : ∀ x, ctx.sourceIndex? t.subject.type = some x →
      t.lookupKey = none ∧ x.hasReverse = false) :
      Attempt.Ensures
        (do return ⟨← ctx.scanAll (.leaf t), .leaf t, some ctx.directory.size⟩ : Attempt Operand)
        (fun o ↦ ∃ t, c.toTest ctx.schema = .ok t ∧ ctx.PlannedLeaf t o)
        fun e ↦ c.toTest ctx.schema = .error e ∨ ctx.Fails e := by
    refine Attempt.ensures_bind ((ctx.scanAll_spec _).mono ?_ fun _ he ↦ .inr he)
    intro _ hpost
    obtain ⟨reel, hreel, rfl⟩ := hpost
    exact Attempt.ensures_pure ⟨t, ht, .scanned hx hreel⟩
  cases hx : ctx.sourceIndex? t.subject.type with
  | none => exact hscan fun x hx' ↦ nomatch hx.symm.trans hx'
  | some x =>
    have hindexed := planIndexed?_spec hx
    rw [Option.bind_some]
    cases hplan : planIndexed? x t with
    | some operand =>
      rw [hplan] at hindexed
      exact hindexed.mono (fun o ho ↦ ⟨t, ht, ho⟩) fun _ he ↦ .inr he
    | none =>
      rw [hplan] at hindexed
      exact hscan fun x' hx' ↦ Option.some.inj (hx.symm.trans hx') ▸ hindexed

/-! ### Filters -/

theorem negationsLast_perm (operands : List Operand) :
    (negationsLast operands).Perm operands := by
  refine List.perm_append_comm.trans ?_
  exact List.filter_append_perm (fun o : Operand ↦ o.evaluator.isNot) operands

theorem ranked_perm (operands : List Operand) :
    ((Cursor.ranked operands).map Prod.fst).Perm operands := by
  have hsort := (List.mergeSort_perm operands.zipIdx
    fun a b ↦ Cursor.driverRank a.1 ≤ Cursor.driverRank b.1).map Prod.fst
  rwa [List.zipIdx_map_fst] at hsort

/-- A conjunction is made of the operands that were planned, in another order. -/
theorem ranked_negationsLast_perm (operands : List Operand) :
    ((Cursor.ranked (negationsLast operands)).map Prod.fst).Perm operands :=
  (ranked_perm _).trans (negationsLast_perm operands)

theorem mem_of_mem_ranked {operands : List Operand} {o : Operand × Nat}
    (ho : o ∈ Cursor.ranked (negationsLast operands)) : o.1 ∈ operands :=
  (ranked_negationsLast_perm operands).subset (List.mem_map_of_mem ho)

theorem exists_ranked {operands : List Operand} (hpos : 0 < operands.length) :
    ∃ driver position others, Cursor.ranked operands = (driver, position) :: others := by
  cases hranked : Cursor.ranked operands with
  | nil =>
    have hlen := (ranked_perm operands).length_eq
    rw [hranked] at hlen
    exact absurd hlen (Nat.ne_of_lt hpos)
  | cons driver others => exact ⟨driver.1, driver.2, others, rfl⟩

/-- The evaluator of a planned operand is that of the filter without wrappers. -/
theorem Planned.evaluator_eq : ∀ {e : Evaluator} {o : Operand}, ctx.Planned e o →
    o.evaluator = e.core
  | .all [], _, h => by
    rw [Planned] at h
    obtain ⟨reel, -, rfl⟩ := h
    rfl
  | .all [part], _, h => by
    rw [Planned] at h
    rw [h.evaluator_eq, Formula.core]
  | .all (first :: second :: rest), _, h => by
    rw [Planned] at h
    obtain ⟨operands, driver, position, others, -, -, rfl⟩ := h
    rfl
  | .any [], _, h => by
    rw [Planned] at h
    rw [h]
    rfl
  | .any [part], _, h => by
    rw [Planned] at h
    rw [h.evaluator_eq, Formula.core]
  | .any (first :: second :: rest), _, h => by
    rw [Planned] at h
    obtain ⟨operands, -, rfl⟩ := h
    rfl
  | .not part, _, h => by
    rw [Planned] at h
    obtain ⟨reel, -, rfl⟩ := h
    rfl
  | .leaf t, _, h => by
    rw [Planned] at h
    cases h <;> rfl

theorem PlannedEach.evaluators_eq : ∀ {es : List Evaluator} {operands : List Operand},
    ctx.PlannedEach es operands → operands.map Operand.evaluator = es.map Formula.core
  | [], _, h => by
    rw [PlannedEach] at h
    rw [h]
    rfl
  | _ :: _, _, h => by
    rw [PlannedEach] at h
    obtain ⟨first, rest, rfl, hfirst, hrest⟩ := h
    rw [List.map_cons, List.map_cons, hfirst.evaluator_eq, hrest.evaluators_eq]

theorem PlannedEach.length_eq {es : List Evaluator} {operands : List Operand}
    (h : ctx.PlannedEach es operands) : operands.length = es.length := by
  simpa using congrArg List.length h.evaluators_eq

/-- The cursor of a conjunction with parts. -/
theorem conjunction_spec {operands : List Operand} (hpos : 0 < operands.length) :
    Attempt.Ensures (Cursor.conjunction operands)
      (fun c ↦ ∃ driver position others,
        Cursor.ranked operands = (driver, position) :: others ∧
        c = .sieve (.fresh (.joint position (others.map fun o ↦ o.1.evaluator)) driver.cursor
          (others.map fun o ↦ o.1.cursor)))
      fun _ ↦ False := by
  obtain ⟨driver, position, others, hranked⟩ := exists_ranked hpos
  rw [Cursor.conjunction, hranked]
  exact Attempt.ensures_bind (Attempt.ensures_effect fun _ ↦
    Attempt.ensures_pure ⟨driver, position, others, rfl, rfl⟩)

/-- The cursor of a disjunction with at least two parts. -/
theorem disjunction_spec {operands : List Operand} (hlen : 2 ≤ operands.length) :
    Attempt.Ensures (Cursor.disjunction operands)
      (fun c ↦ c = .relay (.fresh (operands.map fun o ↦ (o.cursor, o.evaluator))))
      fun _ ↦ False := by
  unfold Cursor.disjunction
  rw [if_neg (Nat.not_lt.2 hlen)]
  exact Attempt.ensures_bind (Attempt.ensures_effect fun _ ↦ Attempt.ensures_pure rfl)

/-- A filter that was made ready for use comes to the same when it is made ready again. -/
theorem resolve_again {f : Filter} {e : Evaluator} (he : f.toEvaluator ctx.schema = .ok e) :
    Attempt.Ensures (f.resolve ctx.schema) (fun e' ↦ e' = e) fun _ ↦ False := by
  refine (Filter.resolve_follows ctx.schema f).mono ?_ ?_
  · exact fun e' he' ↦ Except.ok.inj (he'.symm.trans he)
  · exact fun e' he' ↦ nomatch he'.symm.trans he

section Parts

variable {parts : List Filter}

/-- The outcomes for the parts decide that for their conjunction. -/
theorem toEvaluator_all {o : Except SearchError (List Evaluator)}
    (h : Formula.traverseEach (Clause.toTest ctx.schema) parts = o) :
    Filter.toEvaluator ctx.schema (.all parts) = o.map .all := by
  rw [Filter.toEvaluator, Formula.traverse, h]
  cases o <;> rfl

theorem toEvaluator_any {o : Except SearchError (List Evaluator)}
    (h : Formula.traverseEach (Clause.toTest ctx.schema) parts = o) :
    Filter.toEvaluator ctx.schema (.any parts) = o.map .any := by
  rw [Filter.toEvaluator, Formula.traverse, h]
  cases o <;> rfl

theorem toEvaluator_not {part : Filter} {o : Except SearchError Evaluator}
    (h : part.toEvaluator ctx.schema = o) :
    Filter.toEvaluator ctx.schema (.not part) = o.map .not := by
  rw [Filter.toEvaluator, Formula.traverse, ← Filter.toEvaluator, h]
  cases o <;> rfl

theorem toEvaluator_leaf {c : Clause} {o : Except SearchError Test}
    (h : c.toTest ctx.schema = o) :
    Filter.toEvaluator ctx.schema (.leaf c) = o.map .leaf := by
  rw [Filter.toEvaluator, Formula.traverse, h]
  cases o <;> rfl

theorem toEvaluators_cons {part : Filter} {o : Except SearchError Evaluator}
    (h : part.toEvaluator ctx.schema = o) :
    Formula.traverseEach (Clause.toTest ctx.schema) (part :: parts) = (do
      let first ← o
      return first :: (← Formula.traverseEach (Clause.toTest ctx.schema) parts)) := by
  rw [Formula.traverseEach, ← Filter.toEvaluator, h]

theorem toEvaluator_all_one {part : Filter} {o : Except SearchError Evaluator}
    (h : part.toEvaluator ctx.schema = o) :
    Filter.toEvaluator ctx.schema (.all [part]) = o.map fun e ↦ .all [e] := by
  rw [toEvaluator_all (toEvaluators_cons h)]
  cases o <;> rfl

theorem toEvaluator_any_one {part : Filter} {o : Except SearchError Evaluator}
    (h : part.toEvaluator ctx.schema = o) :
    Filter.toEvaluator ctx.schema (.any [part]) = o.map fun e ↦ .any [e] := by
  rw [toEvaluator_any (toEvaluators_cons h)]
  cases o <;> rfl

theorem length_toEvaluators {es : List Evaluator}
    (h : Formula.traverseEach (Clause.toTest ctx.schema) parts = .ok es) :
    es.length = parts.length :=
  Formula.length_traverseEach h

/-- Two parts and more make two evaluators and more. -/
theorem toEvaluators_cons_cons {first second : Filter} {es : List Evaluator}
    (h : Formula.traverseEach (Clause.toTest ctx.schema) (first :: second :: parts) = .ok es) :
    ∃ e e' rest, es = e :: e' :: rest := by
  have hlen := length_toEvaluators h
  match es with
  | [] => exact nomatch hlen
  | [_] => exact nomatch Nat.succ.inj hlen
  | e :: e' :: rest => exact ⟨e, e', rest, rfl⟩

end Parts

/-- Planning comes to a planned operand for the evaluator, if there is one.  Otherwise it fails as
making the filter ready for use does, or because the store fails. -/
def Plans (ctx : Context) (ready : Except SearchError Evaluator) (planning : Attempt Operand) :
    Prop :=
  Attempt.Ensures planning (fun o ↦ ∃ e, ready = .ok e ∧ ctx.Planned e o)
    fun e ↦ ready = .error e ∨ ctx.Fails e

/-- The same for several filters. -/
def PlansEach (ctx : Context) (ready : Except SearchError (List Evaluator))
    (planning : Attempt (List Operand)) : Prop :=
  Attempt.Ensures planning (fun os ↦ ∃ es, ready = .ok es ∧ ctx.PlannedEach es os)
    fun e ↦ ready = .error e ∨ ctx.Fails e

/-- The operand planned for a part may be the one planned for the whole. -/
theorem Plans.whole {part whole : Except SearchError Evaluator} {planning : Attempt Operand}
    {g : Evaluator → Evaluator} (h : ctx.Plans part planning)
    (hok : ∀ e, part = .ok e → whole = .ok (g e))
    (herror : ∀ e, part = .error e → whole = .error e)
    (hg : ∀ e o, ctx.Planned e o → ctx.Planned (g e) o) : ctx.Plans whole planning := by
  refine h.mono ?_ ?_
  · intro o hpost
    obtain ⟨e, he, ho⟩ := hpost
    exact ⟨g e, hok e he, hg e o ho⟩
  · intro e he
    rcases he with he | he
    · exact .inl (herror e he)
    · exact .inr he

/-- The operands planned for the parts may be combined to the one planned for the whole. -/
theorem PlansEach.whole {parts : Except SearchError (List Evaluator)}
    {whole : Except SearchError Evaluator} {planning : Attempt (List Operand)}
    {combine : List Operand → Attempt Operand} (h : ctx.PlansEach parts planning)
    (hok : ∀ es operands, parts = .ok es → ctx.PlannedEach es operands →
      ctx.Plans whole (combine operands))
    (herror : ∀ e, parts = .error e → whole = .error e) :
    ctx.Plans whole (planning >>= combine) := by
  refine Attempt.ensures_bind (Attempt.Ensures.mono h ?_ ?_)
  · intro operands hpost
    obtain ⟨es, hes, hoperands⟩ := hpost
    exact hok es operands hes hoperands
  · intro e he
    rcases he with he | he
    · exact .inl (herror e he)
    · exact .inr he

theorem plans_all_nil (ctx : Context) :
    ctx.Plans (Filter.toEvaluator ctx.schema (.all [])) (ctx.plan (.all [])) := by
  rw [plan]
  have hall : Filter.toEvaluator ctx.schema (.all []) = .ok (.all []) := toEvaluator_all rfl
  refine Attempt.ensures_bind ((resolve_again hall).mono ?_ fun _ he ↦ he.elim)
  rintro _ rfl
  refine Attempt.ensures_bind ((ctx.scanAll_spec _).mono ?_ fun _ he ↦ .inr he)
  intro _ hpost
  obtain ⟨reel, hreel, rfl⟩ := hpost
  exact Attempt.ensures_pure ⟨_, hall, by rw [Planned]; exact ⟨reel, hreel, rfl⟩⟩

theorem plans_any_nil (ctx : Context) :
    ctx.Plans (Filter.toEvaluator ctx.schema (.any [])) (ctx.plan (.any [])) := by
  rw [plan]
  have hany : Filter.toEvaluator ctx.schema (.any []) = .ok (.any []) := toEvaluator_any rfl
  refine Attempt.ensures_bind ((resolve_again hany).mono ?_ fun _ he ↦ he.elim)
  rintro _ rfl
  exact Attempt.ensures_pure ⟨_, hany, by rw [Planned]⟩

/-- A conjunction of several parts, given the operands of the parts. -/
theorem plans_all {first second : Filter} {rest : List Filter}
    (h : ctx.PlansEach
      (Formula.traverseEach (Clause.toTest ctx.schema) (first :: second :: rest))
      (ctx.planEach (first :: second :: rest))) :
    ctx.Plans (Filter.toEvaluator ctx.schema (.all (first :: second :: rest)))
      (ctx.plan (.all (first :: second :: rest))) := by
  rw [plan]
  refine h.whole (fun es operands hes hoperands ↦ ?_) fun _ he ↦ toEvaluator_all he
  have hall := toEvaluator_all hes
  have hpos : 0 < (negationsLast operands).length := by
    rw [(negationsLast_perm operands).length_eq, hoperands.length_eq, length_toEvaluators hes]
    exact Nat.zero_lt_succ _
  refine Attempt.ensures_bind ((conjunction_spec hpos).mono ?_ fun _ he ↦ he.elim)
  intro _ hpost
  obtain ⟨driver, position, others, hranked, rfl⟩ := hpost
  refine Attempt.ensures_bind ((resolve_again hall).mono ?_ fun _ he ↦ he.elim)
  rintro _ rfl
  obtain ⟨e, e', es', rfl⟩ := toEvaluators_cons_cons hes
  refine Attempt.ensures_pure ⟨_, hall, ?_⟩
  rw [Planned]
  exact ⟨operands, driver, position, others, hoperands, hranked, rfl⟩

/-- A disjunction of several parts, given the operands of the parts. -/
theorem plans_any {first second : Filter} {rest : List Filter}
    (h : ctx.PlansEach
      (Formula.traverseEach (Clause.toTest ctx.schema) (first :: second :: rest))
      (ctx.planEach (first :: second :: rest))) :
    ctx.Plans (Filter.toEvaluator ctx.schema (.any (first :: second :: rest)))
      (ctx.plan (.any (first :: second :: rest))) := by
  rw [plan]
  refine h.whole (fun es operands hes hoperands ↦ ?_) fun _ he ↦ toEvaluator_any he
  have hany := toEvaluator_any hes
  have hlen : 2 ≤ operands.length := by
    rw [hoperands.length_eq, length_toEvaluators hes]
    exact Nat.le_add_left 2 _
  refine Attempt.ensures_bind ((disjunction_spec hlen).mono ?_ fun _ he ↦ he.elim)
  rintro _ rfl
  refine Attempt.ensures_bind ((resolve_again hany).mono ?_ fun _ he ↦ he.elim)
  rintro _ rfl
  obtain ⟨e, e', es', rfl⟩ := toEvaluators_cons_cons hes
  refine Attempt.ensures_pure ⟨_, hany, ?_⟩
  rw [Planned]
  exact ⟨operands, hoperands, rfl⟩

/-- A negation does not use the operand of its part, only the evaluator. -/
theorem plans_not (ctx : Context) (part : Filter) :
    ctx.Plans (Filter.toEvaluator ctx.schema (.not part)) (ctx.plan (.not part)) := by
  rw [plan]
  refine Attempt.ensures_bind ((Filter.resolve_follows ctx.schema part).mono ?_ ?_)
  · intro e he
    refine Attempt.ensures_bind ((ctx.everyEntry_spec).mono ?_ fun _ he ↦ .inr he)
    intro _ hpost
    obtain ⟨reel, hreel, rfl⟩ := hpost
    refine Attempt.ensures_bind (Attempt.ensures_effect fun _ ↦ ?_)
    have hnot := toEvaluator_not he
    refine Attempt.ensures_bind ((resolve_again hnot).mono ?_ fun _ he ↦ he.elim)
    rintro _ rfl
    exact Attempt.ensures_pure ⟨_, hnot, by rw [Planned]; exact ⟨reel, hreel, rfl⟩⟩
  · exact fun e he ↦ .inl (toEvaluator_not he)

theorem plans_leaf (ctx : Context) (c : Clause) :
    ctx.Plans (Filter.toEvaluator ctx.schema (.leaf c)) (ctx.plan (.leaf c)) := by
  rw [plan]
  refine (ctx.planClause_spec c).mono ?_ ?_
  · intro o hpost
    obtain ⟨t, ht, ho⟩ := hpost
    exact ⟨.leaf t, toEvaluator_leaf ht, by rwa [Planned]⟩
  · intro e he
    rcases he with he | he
    · exact .inl (toEvaluator_leaf he)
    · exact .inr he

/-- The operands of several filters, given that of the first and those of the rest. -/
theorem plansEach_cons {part : Filter} {parts : List Filter}
    (hpart : ctx.Plans (part.toEvaluator ctx.schema) (ctx.plan part))
    (hparts : ctx.PlansEach (Formula.traverseEach (Clause.toTest ctx.schema) parts)
      (ctx.planEach parts)) :
    ctx.PlansEach (Formula.traverseEach (Clause.toTest ctx.schema) (part :: parts))
      (ctx.planEach (part :: parts)) := by
  rw [planEach]
  refine Attempt.ensures_bind (Attempt.Ensures.mono hpart ?_ ?_)
  · intro o hpost
    obtain ⟨e, he, ho⟩ := hpost
    refine Attempt.ensures_bind (Attempt.Ensures.mono hparts ?_ ?_)
    · intro os hpost
      obtain ⟨es, hes, hos⟩ := hpost
      refine Attempt.ensures_pure ⟨e :: es, ?_, by rw [PlannedEach]; exact ⟨o, os, rfl, ho, hos⟩⟩
      rw [toEvaluators_cons he, hes]
      rfl
    · intro err herr
      rcases herr with herr | herr
      · refine .inl ?_
        rw [toEvaluators_cons he, herr]
        rfl
      · exact .inr herr
  · intro err herr
    rcases herr with herr | herr
    · exact .inl (toEvaluators_cons herr)
    · exact .inr herr

mutual
/-- **Planning fails as making the filter ready for use fails, or because the store fails; otherwise
it comes to a planned operand.** -/
theorem plan_spec (ctx : Context) : ∀ f : Filter, ctx.Plans (f.toEvaluator ctx.schema) (ctx.plan f)
  | .all [] => ctx.plans_all_nil
  | .all [part] => by
    rw [plan]
    exact (plan_spec ctx part).whole (fun _ he ↦ toEvaluator_all_one he)
      (fun _ he ↦ toEvaluator_all_one he) fun _ _ ho ↦ by rwa [Planned]
  | .all (first :: second :: rest) => plans_all (planEach_spec ctx (first :: second :: rest))
  | .any [] => ctx.plans_any_nil
  | .any [part] => by
    rw [plan]
    exact (plan_spec ctx part).whole (fun _ he ↦ toEvaluator_any_one he)
      (fun _ he ↦ toEvaluator_any_one he) fun _ _ ho ↦ by rwa [Planned]
  | .any (first :: second :: rest) => plans_any (planEach_spec ctx (first :: second :: rest))
  | .not part => ctx.plans_not part
  | .leaf c => ctx.plans_leaf c
theorem planEach_spec (ctx : Context) : ∀ fs : List Filter,
    ctx.PlansEach (Formula.traverseEach (Clause.toTest ctx.schema) fs) (ctx.planEach fs)
  | [] => by
    rw [planEach]
    exact Attempt.ensures_pure ⟨[], rfl, by rw [PlannedEach]⟩
  | part :: parts => plansEach_cons (plan_spec ctx part) (planEach_spec ctx parts)
end

/-! ### Evaluators of operands -/

/-- The evaluator of a planned operand accepts what the filter accepts. -/
theorem Planned.holds_eq (p : Test → Bool) {e : Evaluator} {o : Operand} (h : ctx.Planned e o) :
    o.evaluator.holds p = e.holds p := by
  rw [h.evaluator_eq, Formula.holds_core]

theorem PlannedEach.holds_eq (p : Test → Bool) {es : List Evaluator} {operands : List Operand}
    (h : ctx.PlannedEach es operands) :
    operands.map (fun o ↦ o.evaluator.holds p) = es.map (Formula.holds p) := by
  have hmap := congrArg (List.map (Formula.holds p)) h.evaluators_eq
  rw [List.map_map, List.map_map] at hmap
  refine hmap.trans (List.map_congr_left fun e _ ↦ Formula.holds_core p e)

end Context
end DirectoryQuery
