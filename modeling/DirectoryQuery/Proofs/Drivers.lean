import Mathlib.Data.Prod.Lex
import DirectoryQuery.Proofs.Estimates
import DirectoryQuery.Proofs.Parity

/-!
# Which part of a conjunction drives

A plan puts the operands that are not negations first, and the operand with the smallest rank drives
the conjunction.  Both steps together choose by one order (`Context.precedence`): first by rank, and
only where ranks agree a negation comes after everything else.  So to come first among the operands
does not make an operand drive (`Context.leads_negationsLast`).

A negation has as many candidates as there are entries.  Another operand may be expected to yield
more, since a disjunction adds up what its parts are expected to yield, and an index counts an entry
once for each of its values.  Exactly if all of them are, a negation drives, although a plan means
to prevent that (`Store.driver_isNot_iff`, `Store.negation_drives`).
-/

set_option autoImplicit false

namespace DirectoryQuery

/-! ## Wrappers -/

variable {s : Store} {r : Registry} {config : SearchConfig}

/-- A wrapper does not change what is expected. -/
theorem Store.supply_core : ∀ e : Evaluator, s.supply config e.core = s.supply config e
  | .all [] => rfl
  | .all [part] => by
    rw [Formula.core, supply_core part, supply, supplies, supplies]
    rfl
  | .all (_ :: _ :: _) => rfl
  | .any [] => rfl
  | .any [part] => by rw [Formula.core, supply_core part, supply]
  | .any (_ :: _ :: _) => rfl
  | .not _ => rfl
  | .leaf _ => rfl

/-- A negation is expected to yield as much as there is. -/
theorem Store.supply_of_isNot {e : Evaluator} (h : e.core.isNot = true) :
    s.supply config e = s.size := by
  rw [← supply_core]
  cases he : e.core with
  | not part => rw [supply]
  | all parts => simp [he, Formula.isNot] at h
  | any parts => simp [he, Formula.isNot] at h
  | leaf t => simp [he, Formula.isNot] at h

namespace Context

variable {ctx : Context} {operands : List Operand} {driver : Operand} {position : Nat}

/-! ## The order in which operands drive -/

/-- What decides whether an operand drives: its rank, and where ranks agree whether it is a
negation. -/
def precedence (o : Operand) : Nat ×ₗ Bool := toLex (Cursor.driverRank o, o.evaluator.isNot)

theorem negationsLast_filter (b : Bool) :
    (negationsLast operands).filter (fun o ↦ o.evaluator.isNot == b) =
      operands.filter fun o ↦ o.evaluator.isNot == b := by
  rw [negationsLast, List.filter_append, List.filter_filter, List.filter_filter]
  cases b <;> simp

theorem pairwise_negationsLast :
    (negationsLast operands).Pairwise fun a b ↦ a.evaluator.isNot ≤ b.evaluator.isNot := by
  rw [negationsLast, List.pairwise_append]
  refine ⟨?_, ?_, ?_⟩
  · refine List.pairwise_of_forall_mem_list fun a ha b _ ↦ ?_
    rw [(by simpa using (List.mem_filter.1 ha).2 : a.evaluator.isNot = false)]
    exact Bool.false_le _
  · refine List.pairwise_of_forall_mem_list fun a _ b hb ↦ ?_
    rw [(List.mem_filter.1 hb).2]
    exact Bool.le_true _
  · intro a _ b hb
    rw [(List.mem_filter.1 hb).2]
    exact Bool.le_true _

/-- The operand that leads is better than all before it, and no worse than all after it. -/
theorem leads_append {ρ : Type} [LT ρ] {rank : Operand → ρ} {pre post : List Operand} :
    Cursor.Leads rank (pre ++ driver :: post) pre.length ↔
      (∀ o ∈ pre, rank driver < rank o) ∧
        ∀ o ∈ post, rank driver < rank o ∨ rank driver = rank o := by
  have hdriver : (pre ++ driver :: post)[pre.length]? = some driver := by simp
  constructor
  · rintro ⟨_, hdriver', hleads⟩
    obtain rfl := Option.some.inj (hdriver.symm.trans hdriver')
    constructor
    · intro o ho
      obtain ⟨k, hk, rfl⟩ := List.mem_iff_getElem.1 ho
      have hcase := hleads k pre[k] (by rw [List.getElem?_append_left hk, List.getElem?_eq_getElem])
      exact hcase.resolve_right fun h ↦ absurd hk (Nat.not_lt.2 h.2)
    · intro o ho
      obtain ⟨k, hk⟩ := List.mem_iff_getElem?.1 ho
      have hcase := hleads (pre.length + (k + 1)) o (by
        rw [List.getElem?_append_right (Nat.le_add_right _ _), Nat.add_sub_cancel_left,
          List.getElem?_cons_succ, hk])
      exact hcase.imp_right And.left
  · rintro ⟨hpre, hpost⟩
    refine ⟨driver, hdriver, fun k o hk ↦ ?_⟩
    rcases Nat.lt_or_ge k pre.length with hlt | hge
    · rw [List.getElem?_append_left hlt] at hk
      exact .inl (hpre o (List.mem_of_getElem? hk))
    · rw [List.getElem?_append_right hge] at hk
      rcases List.mem_cons.1 (List.mem_of_getElem? hk) with rfl | hmem
      · exact .inr ⟨rfl, hge⟩
      · exact (hpost o hmem).imp_right fun heq ↦ ⟨heq, hge⟩

/-- What is of the kind of an operand and ahead of it stays ahead when the negations go last. -/
theorem exists_split {pre post : List Operand}
    (hsplit : negationsLast operands = pre ++ driver :: post) :
    ∃ before after, operands = before ++ driver :: after ∧
      ∀ o ∈ before, o.evaluator.isNot = driver.evaluator.isNot → o ∈ pre := by
  let kind (o : Operand) : Bool := o.evaluator.isNot == driver.evaluator.isNot
  have hkind : kind driver = true := beq_self_eq_true _
  have hfilter : (negationsLast operands).filter kind = operands.filter kind :=
    negationsLast_filter _
  rw [hsplit, List.filter_append, List.filter_cons_of_pos hkind] at hfilter
  obtain ⟨first, rest, rfl, hfirst, hrest⟩ := List.filter_eq_append_iff.1 hfilter.symm
  obtain ⟨between, after, rfl, hbetween, -, -⟩ := List.filter_eq_cons_iff.1 hrest
  refine ⟨first ++ between, after, (List.append_assoc ..).symm, fun o ho hsame ↦ ?_⟩
  rcases List.mem_append.1 ho with ho | ho
  · have hmem : o ∈ first.filter kind := List.mem_filter.2 ⟨ho, beq_iff_eq.2 hsame⟩
    rw [hfirst] at hmem
    exact (List.mem_filter.1 hmem).1
  · exact absurd (beq_iff_eq.2 hsame) (hbetween o ho)

/-- **What leads by rank once the negations are last, leads by precedence before that.** -/
theorem leads_negationsLast (hdriver : (negationsLast operands)[position]? = some driver)
    (hleads : Cursor.Leads Cursor.driverRank (negationsLast operands) position) :
    ∃ j, operands[j]? = some driver ∧ Cursor.Leads precedence operands j := by
  obtain ⟨pre, post, hsplit, rfl⟩ : ∃ pre post,
      negationsLast operands = pre ++ driver :: post ∧ pre.length = position := by
    obtain ⟨hlt, rfl⟩ := List.getElem?_eq_some_iff.1 hdriver
    refine ⟨(negationsLast operands).take position, (negationsLast operands).drop (position + 1),
      ?_, List.length_take_of_le hlt.le⟩
    rw [List.getElem_cons_drop, List.take_append_drop]
  have hpairwise : (negationsLast operands).Pairwise fun a b ↦
      a.evaluator.isNot ≤ b.evaluator.isNot := pairwise_negationsLast
  rw [hsplit] at hleads hpairwise
  obtain ⟨hpre, hpost⟩ := leads_append.1 hleads
  have hnegations : ∀ o ∈ post, driver.evaluator.isNot ≤ o.evaluator.isNot :=
    (List.pairwise_cons.1 (List.pairwise_append.1 hpairwise).2.1).1
  have hle : ∀ o ∈ operands, precedence driver ≤ precedence o := by
    intro o ho
    rw [← (negationsLast_perm operands).mem_iff, hsplit, List.mem_append, List.mem_cons] at ho
    rw [precedence, precedence, Prod.Lex.toLex_le_toLex]
    rcases ho with hfirst | rfl | hlater
    · exact .inl (hpre o hfirst)
    · exact .inr ⟨rfl, le_refl _⟩
    · exact (hpost o hlater).imp_right fun heq ↦ ⟨heq, hnegations o hlater⟩
  obtain ⟨before, after, rfl, hahead⟩ := exists_split hsplit
  refine ⟨before.length, by simp, leads_append.2 ⟨fun o ho ↦ ?_, fun o ho ↦ ?_⟩⟩
  · -- An operand of the same precedence is of the same kind, so it was ahead of the driver after
    -- the negations went last as well, where all ranks ahead are greater.
    refine lt_of_le_of_ne (hle o (List.mem_append_left _ ho)) fun heq ↦ ?_
    obtain ⟨hrank, hkind⟩ := Prod.mk.inj (toLex_inj.1 heq)
    exact absurd hrank (hpre o (hahead o ho hkind.symm)).ne
  · exact lt_or_eq_of_le (hle o (List.mem_append_right _ (List.mem_cons_of_mem _ ho)))

end Context

/-! ## Planned conjunctions -/

/-- What decides whether the part of a conjunction drives. -/
def Store.precedence (s : Store) (config : SearchConfig) (e : Evaluator) : Nat ×ₗ Bool :=
  toLex (s.supply config e, e.core.isNot)

theorem Store.precedence_le_iff {e e' : Evaluator} :
    s.precedence config e ≤ s.precedence config e' ↔
      s.supply config e < s.supply config e' ∨
        s.supply config e = s.supply config e' ∧ (e.core.isNot = true → e'.core.isNot = true) :=
  Prod.Lex.toLex_le_toLex

/-- The cursor is a conjunction of the operands, and takes its candidates from the one given. -/
def Cursor.DrivenBy (c : Cursor) (operands : List Operand) (driver : Operand) : Prop :=
  ∃ s position, c = sieve s ∧ s.driver? = some position ∧ operands[position]? = some driver ∧
    s.source = driver.cursor

namespace Context

variable {ctx : Context} {parts : List Filter} {es : List Evaluator} {operands : List Operand}
  {driver : Operand} {position : Nat}

/-- A planned operand has the precedence of its filter. -/
theorem PlannedEach.precedences_eq (h : (s.context r config).PlannedEach es operands) :
    operands.map precedence = es.map (s.precedence config) := by
  induction es generalizing operands with
  | nil =>
    rw [PlannedEach] at h
    rw [h]
    rfl
  | cons e es ih =>
    rw [PlannedEach] at h
    obtain ⟨first, rest, rfl, hfirst, hrest⟩ := h
    rw [List.map_cons, List.map_cons, ih hrest, precedence, Cursor.driverRank,
      hfirst.estimate_eq, hfirst.evaluator_eq]
    rfl

theorem PlannedEach.precedence_eq (h : (s.context r config).PlannedEach es operands) (k : Nat) :
    operands[k]?.map precedence = es[k]?.map (s.precedence config) := by
  rw [← List.getElem?_map, ← List.getElem?_map, h.precedences_eq]

/-- The driver has the precedence of a part, and no part has a smaller one. -/
theorem PlannedEach.exists_least (h : (s.context r config).PlannedEach es operands)
    (hdriver : (negationsLast operands)[position]? = some driver)
    (hleads : Cursor.Leads Cursor.driverRank (negationsLast operands) position) :
    ∃ e ∈ es, driver.evaluator.isNot = e.core.isNot ∧
      ∀ e' ∈ es, s.precedence config e ≤ s.precedence config e' := by
  obtain ⟨j, hj, hleads⟩ := leads_negationsLast hdriver hleads
  obtain ⟨_, hj', hleast⟩ := hleads
  obtain rfl := Option.some.inj (hj.symm.trans hj')
  have hpart := h.precedence_eq j
  rw [hj, Option.map_some, eq_comm, Option.map_eq_some_iff] at hpart
  obtain ⟨e, he, heq⟩ := hpart
  refine ⟨e, List.mem_of_getElem? he, (Prod.mk.inj (toLex_inj.1 heq)).2.symm, fun e' he' ↦ ?_⟩
  obtain ⟨k, hk⟩ := List.mem_iff_getElem?.1 he'
  have hother := h.precedence_eq k
  rw [hk, Option.map_some, Option.map_eq_some_iff] at hother
  obtain ⟨o, ho, heq'⟩ := hother
  rw [heq, ← heq']
  exact (hleast k o ho).elim le_of_lt fun h ↦ h.1.le

/-- A negation drives exactly if there is one, and all other parts are expected to yield more than
there are entries. -/
theorem PlannedEach.driver_isNot (h : (s.context r config).PlannedEach es operands)
    (hdriver : (negationsLast operands)[position]? = some driver)
    (hleads : Cursor.Leads Cursor.driverRank (negationsLast operands) position) :
    driver.evaluator.isNot = true ↔ (∃ e ∈ es, e.core.isNot = true) ∧
      ∀ e ∈ es, e.core.isNot = false → s.size < s.supply config e := by
  obtain ⟨e, he, heq, hleast⟩ := h.exists_least hdriver hleads
  rw [heq]
  constructor
  · intro hnot
    refine ⟨⟨e, he, hnot⟩, fun e' he' hpositive ↦ ?_⟩
    have hle := Store.precedence_le_iff.1 (hleast e' he')
    rw [hpositive, Store.supply_of_isNot hnot] at hle
    exact hle.resolve_right fun hsame ↦ absurd (hsame.2 hnot) Bool.false_ne_true
  · rintro ⟨⟨e', he', hnot⟩, hmore⟩
    refine Bool.eq_true_of_not_eq_false fun hpositive ↦ ?_
    have hle := Store.precedence_le_iff.1 (hleast e' he')
    rw [Store.supply_of_isNot hnot] at hle
    have hmore := hmore e he hpositive
    exact hle.elim hmore.asymm fun hsame ↦ hmore.ne hsame.1.symm

/-- Planning a conjunction of several parts plans the parts and lets the first one by rank drive,
once the negations are last. -/
theorem plan_all_outcome (hparts : 2 ≤ parts.length) {t : Trace} {o : Operand}
    (ho : Attempt.outcome (ctx.plan (.all parts)) t = .ok o) :
    ∃ operands driver position, Attempt.outcome (ctx.planEach parts) t = .ok operands ∧
      o.cursor.DrivenBy (negationsLast operands) driver ∧
      (negationsLast operands)[position]? = some driver ∧
      Cursor.Leads Cursor.driverRank (negationsLast operands) position := by
  obtain ⟨first, second, rest, rfl⟩ : ∃ first second rest, parts = first :: second :: rest := by
    rcases parts with _ | ⟨first, _ | ⟨second, rest⟩⟩
    · simp at hparts
    · simp at hparts
    · exact ⟨first, second, rest, rfl⟩
  rw [plan] at ho
  obtain ⟨operands, t₁, hoperands, ho⟩ := Attempt.exists_of_outcome_bind ho
  obtain ⟨c, t₂, hc, ho⟩ := Attempt.exists_of_outcome_bind ho
  obtain ⟨e, t₃, -, ho⟩ := Attempt.exists_of_outcome_bind ho
  obtain rfl := Except.ok.inj ho
  rw [Cursor.conjunction] at hc
  cases hranked : Cursor.ranked (negationsLast operands) with
  | nil =>
    rw [hranked] at hc
    have hfailed : Except.error _ = Except.ok c := hc
    cases hfailed
  | cons first others =>
    obtain ⟨driver, position⟩ := first
    rw [hranked] at hc
    obtain rfl := Except.ok.inj hc
    obtain ⟨hdriver, hleads⟩ := Cursor.leads_of_ranked hranked
    exact ⟨operands, driver, position, hoperands, ⟨_, position, rfl, rfl, hdriver, rfl⟩, hdriver,
      hleads⟩

end Context

namespace Store

/-- The operands of several filters. -/
theorem planEach_planned (s : Store) (r : Registry) (config : SearchConfig) {fs : List Filter}
    {t : Trace} {operands : List Operand}
    (h : Attempt.outcome ((s.context r config).planEach fs) t = .ok operands) :
    ∃ es, Formula.traverseEach (Clause.toTest r) fs = .ok es ∧
      (s.context r config).PlannedEach es operands := by
  have hplan := Attempt.Ensures.outcome (Context.planEach_spec (s.context r config) fs) t
  rw [h] at hplan
  exact hplan

/-- **When a negation drives a conjunction.**  Whatever the store, its indexes and the settings are,
the cursor that is planned for a conjunction of several parts takes its candidates from the operand
of one of them.  That one is a negation exactly if one of the parts is, and every part that is none
is expected to yield more candidates than there are entries. -/
theorem driver_isNot_iff (s : Store) (r : Registry) (config : SearchConfig) {parts : List Filter}
    (hparts : 2 ≤ parts.length) {t : Trace} {o : Operand}
    (ho : Attempt.outcome ((s.context r config).plan (.all parts)) t = .ok o) :
    ∃ es operands driver, Formula.traverseEach (Clause.toTest r) parts = .ok es ∧
      Attempt.outcome ((s.context r config).planEach parts) t = .ok operands ∧
      operands.map Operand.evaluator = es.map Formula.core ∧
      o.cursor.DrivenBy (Context.negationsLast operands) driver ∧
      (driver.evaluator.isNot = true ↔ (∃ e ∈ es, e.core.isNot = true) ∧
        ∀ e ∈ es, e.core.isNot = false → s.size < s.supply config e) := by
  obtain ⟨operands, driver, position, hoperands, hcursor, hdriver, hleads⟩ :=
    Context.plan_all_outcome hparts ho
  obtain ⟨es, hes, hplanned⟩ := s.planEach_planned r config hoperands
  exact ⟨es, operands, driver, hes, hoperands, hplanned.evaluators_eq, hcursor,
    hplanned.driver_isNot hdriver hleads⟩

/-- Two people, and who of them is called Bob but not Eve.  Both parts are expected to yield two
entries, and the one that is not a negation drives although it comes later. -/
theorem driver_isNot_iff_people :
    let ctx := people.context .names .fullScan
    let parts : List Filter := [.not (.leaf ⟨"cn", .equalTo (.text "eve")⟩),
      .any [.leaf ⟨"cn", .equalTo (.text "bob")⟩]]
    ∃ operands driver o, Attempt.outcome (ctx.planEach parts) (.start .warn false) = .ok operands ∧
      Attempt.outcome (ctx.plan (.all parts)) (.start .warn false) = .ok o ∧
      o.cursor.DrivenBy (Context.negationsLast operands) driver ∧
      driver.evaluator.isNot = false := by
  intro ctx parts
  have hready : (Formula.traverseEach (Clause.toTest .names) parts).toOption.any (fun es ↦
      es.any fun e ↦ decide (e.core.isNot = false ∧ people.supply .fullScan e = people.size)) =
        true := by
    decide +kernel
  obtain ⟨es, hes, hyields⟩ := (Option.any_eq_true _ _).1 hready
  obtain ⟨e, he, hyields⟩ := List.any_eq_true.1 hyields
  obtain ⟨hpositive, hsupply⟩ := of_decide_eq_true hyields
  rw [toOption_eq_some] at hes
  have hlen : 2 ≤ parts.length := Nat.le_refl 2
  have hall : Filter.toEvaluator .names (.all parts) = .ok (.all es) :=
    bind_eq_ok.2 ⟨es, hes, rfl⟩
  obtain ⟨o, ho⟩ : ∃ o, Attempt.outcome (ctx.plan (.all parts)) (.start .warn false) = .ok o :=
    plan_eq_ok hall _
  obtain ⟨es', operands, driver, hes', hoperands, -, hcursor, hiff⟩ :=
    driver_isNot_iff people .names .fullScan hlen ho
  obtain rfl := Except.ok.inj (hes.symm.trans hes')
  refine ⟨operands, driver, o, hoperands, ho, hcursor, Bool.eq_false_iff.2 fun hnot ↦ ?_⟩
  exact absurd hsupply ((hiff.1 hnot).2 e he hpositive).ne'

/-- **A negation drives although there is another operand.**  Of two entries a disjunction of two
clauses is expected to yield four, and a negation only two. -/
theorem negation_drives :
    let ctx := (run [.add ((Entry.empty 1).add "cn" (.text "a")),
      .add ((Entry.empty 2).add "cn" (.text "b"))]).context .names .fullScan
    let parts : List Filter := [
      .any [.leaf ⟨"cn", .equalTo (.text "b")⟩, .leaf ⟨"cn", .equalTo (.text "a")⟩],
      .not (.leaf ⟨"cn", .equalTo (.text "z")⟩)]
    ∃ operands driver o, Attempt.outcome (ctx.planEach parts) (.start .warn false) = .ok operands ∧
      Attempt.outcome (ctx.plan (.all parts)) (.start .warn false) = .ok o ∧
      o.cursor.DrivenBy (Context.negationsLast operands) driver ∧
      (∃ o' ∈ operands, o'.evaluator.isNot = false) ∧ driver.evaluator.isNot = true := by
  intro ctx parts
  let s := run [.add ((Entry.empty 1).add "cn" (.text "a")),
    .add ((Entry.empty 2).add "cn" (.text "b"))]
  have hready : (Formula.traverseEach (Clause.toTest .names) parts).toOption.any (fun es ↦
      decide ((∃ e ∈ es, e.core.isNot = false) ∧ (∃ e ∈ es, e.core.isNot = true) ∧
        ∀ e ∈ es, e.core.isNot = false → s.size < s.supply .fullScan e)) = true := by
    decide +kernel
  obtain ⟨es, hes, hparts⟩ := (Option.any_eq_true _ _).1 hready
  obtain ⟨⟨e, he, hpositive⟩, hnegation⟩ := of_decide_eq_true hparts
  rw [toOption_eq_some] at hes
  have hlen : 2 ≤ parts.length := Nat.le_refl 2
  have hall : Filter.toEvaluator .names (.all parts) = .ok (.all es) :=
    bind_eq_ok.2 ⟨es, hes, rfl⟩
  obtain ⟨o, ho⟩ : ∃ o, Attempt.outcome (ctx.plan (.all parts)) (.start .warn false) = .ok o :=
    plan_eq_ok hall _
  obtain ⟨operands, driver, position, hoperands, hcursor, hdriver, hleads⟩ :=
    Context.plan_all_outcome hlen ho
  obtain ⟨es', hes', hplanned⟩ := s.planEach_planned .names .fullScan hoperands
  obtain rfl := Except.ok.inj (hes.symm.trans hes')
  have hmem : e.core ∈ operands.map Operand.evaluator := by
    rw [hplanned.evaluators_eq]
    exact List.mem_map_of_mem he
  obtain ⟨o', ho', heq⟩ := List.mem_map.1 hmem
  exact ⟨operands, driver, o, hoperands, ho, hcursor, ⟨o', ho', heq ▸ hpositive⟩,
    (hplanned.driver_isNot hdriver hleads).2 hnegation⟩

end Store
end DirectoryQuery
