import DirectoryQuery.Proofs.Assemblies
import DirectoryQuery.Proofs.Histories
import DirectoryQuery.Proofs.Lengths

/-!
# Estimates

Every operand that is planned over a store has an estimate, which can be read off the filter
(`Store.supply`).  A leaf counts what its index has, or else the entries of the store, a conjunction
takes the least of its parts, and a disjunction their sum, which is cut off at the greatest number
that can be an estimate.

The estimate of an operand bounds the extent of its cursor (`Operand.Bounded`) and so whatever a
full pass finds (`Store.estimate_bounds`).  For a conjunction this is because the operand that
drives has the least estimate, for a disjunction because the sum was not cut off.
-/

set_option autoImplicit false

namespace DirectoryQuery

open Std

variable {s : Store} {r : Registry} {config : SearchConfig}

/-! ## How much there is -/

theorem Groups.size_eq_length {κ ν : Type} [Ord κ] [TransOrd κ] [Ord ν] [TransOrd ν]
    (g : Groups κ ν) : g.size = g.toList.length := by
  have hfoldl (l : List (κ × ExtTreeSet ν)) (n : Nat) :
      l.foldl (fun n entry ↦ n + entry.2.size) n = n + (l.map fun entry ↦ entry.2.size).sum := by
    induction l generalizing n with
    | nil => rfl
    | cons entry l ih => rw [List.foldl_cons, ih, List.map_cons, List.sum_cons, Nat.add_assoc]
  rw [size, ExtTreeMap.foldl_eq_foldl_toList, hfoldl, Nat.zero_add, toList, List.length_flatMap]
  simp

theorem ValueIndex.length_forward (x : ValueIndex) : x.forward.length = x.count := by
  rw [forward, toList, List.length_map, List.length_map, count, Groups.size_eq_length]

theorem ValueIndex.length_forwardOn (x : ValueIndex) (key : Value) :
    (x.forwardOn key).length = x.countOf key := by
  rw [forwardOn, postingsOf, List.length_map, List.length_map, idsOf, ExtTreeSet.length_toList,
    countOf]

theorem Store.length_toList (s : Store) : s.toList.length = s.size := by
  rw [toList, values_eq_map_toList, List.length_map, ExtTreeMap.length_toList, size]

/-! ## What a filter is expected to yield -/

/-- How many candidates there are for a leaf. -/
def Test.supply (s : Store) (config : SearchConfig) (t : Test) : Nat :=
  match s.sourceIndex? config t.subject.type, t.lookupKey with
  | some x, some key => x.countOf key
  | some x, none => if x.hasReverse then x.count else s.size
  | none, _ => s.size

namespace Store

mutual
/-- How many entries the operand of a filter is expected to yield. -/
def supply (s : Store) (config : SearchConfig) : Evaluator → Nat
  | .all parts => (supplies s config parts).min?.getD s.size
  | .any [part] => supply s config part
  | .any parts => (supplies s config parts).foldl Context.addEstimates 0
  | .not _ => s.size
  | .leaf t => t.supply s config
/-- How many entries the operands of filters are expected to yield. -/
def supplies (s : Store) (config : SearchConfig) : List Evaluator → List Nat
  | [] => []
  | part :: parts => supply s config part :: supplies s config parts
end

mutual
/-- In no disjunction the parts are expected to yield more together than an estimate can say. -/
def SumsFit (s : Store) (config : SearchConfig) : Evaluator → Prop
  | .all parts => SumsFitEach s config parts
  | .any parts => (s.supplies config parts).sum ≤ Cursor.greatestEstimate ∧
      SumsFitEach s config parts
  | .not _ => True
  | .leaf _ => True
/-- The same of all filters. -/
def SumsFitEach (s : Store) (config : SearchConfig) : List Evaluator → Prop
  | [] => True
  | part :: parts => SumsFit s config part ∧ SumsFitEach s config parts
end

mutual
/-- Whether the sums fit can be found out. -/
def decidableSumsFit (s : Store) (config : SearchConfig) :
    ∀ e : Evaluator, Decidable (s.SumsFit config e)
  | .all parts => decidableSumsFitEach s config parts
  | .any parts => @instDecidableAnd _ _ (Nat.decLe _ _) (decidableSumsFitEach s config parts)
  | .not _ => .isTrue trivial
  | .leaf _ => .isTrue trivial
/-- The same of all filters. -/
def decidableSumsFitEach (s : Store) (config : SearchConfig) :
    ∀ es : List Evaluator, Decidable (s.SumsFitEach config es)
  | [] => .isTrue trivial
  | part :: parts =>
    @instDecidableAnd _ _ (decidableSumsFit s config part) (decidableSumsFitEach s config parts)
end

instance (s : Store) (config : SearchConfig) (e : Evaluator) : Decidable (s.SumsFit config e) :=
  decidableSumsFit s config e

end Store

/-! ## Estimates of several operands -/

/-- The operand has an estimate, and its cursor has no more entries to go through. -/
def Operand.Bounded (o : Operand) : Prop := ∃ n, o.estimate = some n ∧ o.cursor.extent ≤ n

namespace Context

variable {operands : List Operand} {ns : List Nat} {m n : Nat}

theorem leastEstimate_eq_some : leastEstimate operands = some n ↔
    (∃ o ∈ operands, o.estimate = some n) ∧
      ∀ o ∈ operands, ∀ m, o.estimate = some m → n ≤ m := by
  rw [leastEstimate, List.min?_eq_some_iff, List.mem_filterMap]
  refine and_congr_right fun _ ↦ ⟨fun h o ho m hm ↦ h m (List.mem_filterMap.2 ⟨o, ho, hm⟩), ?_⟩
  intro h m hm
  obtain ⟨o, ho, hm⟩ := List.mem_filterMap.1 hm
  exact h o ho m hm

theorem addEstimates_foldl (ns : List Nat) (n : Nat) (hn : n ≤ Cursor.greatestEstimate) :
    ns.foldl addEstimates n = min (n + ns.sum) Cursor.greatestEstimate := by
  induction ns generalizing n with
  | nil => exact (Nat.min_eq_left hn).symm
  | cons m ns ih =>
    rw [List.foldl_cons, addEstimates, ih _ (Nat.min_le_right _ _), List.sum_cons]
    omega

theorem totalEstimate_eq (h : operands.map Operand.estimate = ns.map some) :
    totalEstimate operands = some (ns.foldl addEstimates 0) := by
  have hmap : operands.mapM Operand.estimate = some ns := by
    induction operands generalizing ns with
    | nil =>
      obtain rfl := List.map_eq_nil_iff.1 h.symm
      rfl
    | cons o operands ih =>
      obtain _ | ⟨n, ns⟩ := ns
      · cases h
      · obtain ⟨hn, hns⟩ := List.cons.inj h
        simp [List.mapM_cons, hn, ih hns]
  rw [totalEstimate, hmap, Option.map_some]

/-- The order of the operands does not matter for the least estimate. -/
theorem leastEstimate_eq (h : operands.map Operand.estimate = ns.map some) :
    leastEstimate (negationsLast operands) = ns.min? := by
  have hperm := (negationsLast_perm operands).filterMap Operand.estimate
  have hns : operands.filterMap Operand.estimate = ns := by
    have hid := congrArg (List.filterMap id) h
    rwa [List.filterMap_map, List.filterMap_map, Function.id_comp, Function.id_comp,
      List.filterMap_some] at hid
  rw [hns] at hperm
  refine Option.ext fun n ↦ ?_
  rw [leastEstimate, List.min?_eq_some_iff, List.min?_eq_some_iff, hperm.mem_iff]
  exact and_congr_right fun _ ↦ forall_congr' fun m ↦ by rw [hperm.mem_iff]

/-! ## Estimates of planned operands -/

theorem PlannedLeaf.estimate_eq {t : Test} {o : Operand}
    (h : (s.context r config).PlannedLeaf t o) : o.estimate = some (t.supply s config) := by
  rw [Test.supply]
  cases h with
  | keyed hx hkey hreel =>
    rw [Store.sourceIndex?_context, Option.map_eq_some_iff] at hx
    obtain ⟨x, hx, rfl⟩ := hx
    rw [hx, hkey]
    rfl
  | indexed hx hkey hreverse hreel =>
    rw [Store.sourceIndex?_context, Option.map_eq_some_iff] at hx
    obtain ⟨x, hx, rfl⟩ := hx
    rw [hx, hkey]
    exact congrArg some (if_pos hreverse).symm
  | scanned hx hreel =>
    rw [Store.sourceIndex?_context] at hx
    cases hsource : s.sourceIndex? config t.subject.type with
    | none => rfl
    | some x =>
      obtain ⟨hkey, hreverse⟩ := hx x.index (by rw [hsource]; rfl)
      rw [hkey]
      exact congrArg some (if_neg (Bool.eq_false_iff.1 hreverse)).symm

mutual
/-- The estimate of the operand of a filter can be read off the filter. -/
theorem Planned.estimate_eq : ∀ {e : Evaluator} {o : Operand}, (s.context r config).Planned e o →
    o.estimate = some (s.supply config e)
  | .all [], _, ho => by
    rw [Planned] at ho
    obtain ⟨reel, -, rfl⟩ := ho
    rw [Store.supply, Store.supplies]
    rfl
  | .all [part], _, ho => by
    rw [Planned] at ho
    rw [ho.estimate_eq, Store.supply, Store.supplies, Store.supplies]
    rfl
  | .all (first :: second :: rest), _, ho => by
    rw [Planned] at ho
    obtain ⟨operands, driver, position, others, hplanned, -, rfl⟩ := ho
    rw [leastEstimate_eq hplanned.estimates_eq, Store.supply, Store.supplies, List.min?_cons]
    rfl
  | .any [], _, ho => by
    rw [Planned] at ho
    rw [ho, Store.supply, Store.supplies]
    · rfl
    · simp
  | .any [part], _, ho => by
    rw [Planned] at ho
    rw [ho.estimate_eq, Store.supply]
  | .any (first :: second :: rest), _, ho => by
    rw [Planned] at ho
    obtain ⟨operands, hplanned, rfl⟩ := ho
    rw [totalEstimate_eq hplanned.estimates_eq, Store.supply]
    simp
  | .not part, _, ho => by
    rw [Planned] at ho
    obtain ⟨reel, -, rfl⟩ := ho
    rw [Store.supply]
    rfl
  | .leaf t, _, ho => by
    rw [Planned] at ho
    rw [PlannedLeaf.estimate_eq ho, Store.supply]
theorem PlannedEach.estimates_eq : ∀ {es : List Evaluator} {operands : List Operand},
    (s.context r config).PlannedEach es operands →
      operands.map Operand.estimate = (s.supplies config es).map some
  | [], _, ho => by
    rw [PlannedEach] at ho
    rw [ho, Store.supplies]
    rfl
  | e :: es, _, ho => by
    rw [PlannedEach] at ho
    obtain ⟨first, rest, rfl, hfirst, hrest⟩ := ho
    rw [List.map_cons, hfirst.estimate_eq, hrest.estimates_eq, Store.supplies, List.map_cons]
end

/-! ## Extents of planned cursors -/

/-- **The operand that drives has the least estimate**, if all have one. -/
theorem leastEstimate_ranked {driver : Operand} {position : Nat} {others : List (Operand × Nat)}
    (hranked : Cursor.ranked operands = (driver, position) :: others)
    (h : ∀ o ∈ operands, o.estimate ≠ none) : leastEstimate operands = driver.estimate := by
  obtain ⟨hdriver, _, hdriver', hleads⟩ := Cursor.leads_of_ranked hranked
  obtain rfl := Option.some.inj (hdriver.symm.trans hdriver')
  obtain ⟨n, hn⟩ := Option.ne_none_iff_exists'.1 (h _ (List.mem_of_getElem? hdriver))
  rw [hn, leastEstimate_eq_some]
  refine ⟨⟨_, List.mem_of_getElem? hdriver, hn⟩, fun o ho m hm ↦ ?_⟩
  obtain ⟨k, hk⟩ := List.mem_iff_getElem?.1 ho
  have hle : Cursor.driverRank driver ≤ Cursor.driverRank o :=
    (hleads k o hk).elim Nat.le_of_lt fun h ↦ Nat.le_of_eq h.1
  rwa [Cursor.driverRank, Cursor.driverRank, hn, hm] at hle

/-- A disjunction has no more to go through than its operands are expected to yield together. -/
theorem extent_relay_le (h : operands.map Operand.estimate = ns.map some)
    (hbounded : ∀ o ∈ operands, o.Bounded) :
    Cursor.extent (.relay (.fresh (operands.map fun o ↦ (o.cursor, o.evaluator)))) ≤ ns.sum := by
  show Cursor.extentOf _ ≤ _
  rw [Cursor.extentOf_eq_sum, List.map_map, List.map_map]
  induction operands generalizing ns with
  | nil => exact Nat.zero_le _
  | cons o operands ih =>
    obtain ⟨⟨n, hn, hle⟩, hrest⟩ := List.forall_mem_cons.1 hbounded
    obtain _ | ⟨m, ns⟩ := ns
    · cases h
    · obtain ⟨hm, hns⟩ := List.cons.inj h
      obtain rfl := Option.some.inj (hn.symm.trans hm)
      rw [List.map_cons, List.sum_cons, List.sum_cons]
      exact Nat.add_le_add hle (ih hns hrest)

theorem PlannedLeaf.bounded {t : Test} {o : Operand} (h : (s.context r config).PlannedLeaf t o) :
    o.Bounded := by
  cases h with
  | keyed hx hkey hreel =>
    rw [Store.sourceIndex?_context, Option.map_eq_some_iff] at hx
    obtain ⟨x, -, rfl⟩ := hx
    obtain rfl := Except.ok.inj hreel
    exact ⟨_, rfl, Nat.le_of_eq (x.length_forwardOn _)⟩
  | indexed hx hkey hreverse hreel =>
    rw [Store.sourceIndex?_context, Option.map_eq_some_iff] at hx
    obtain ⟨x, -, rfl⟩ := hx
    obtain rfl := Except.ok.inj hreel
    exact ⟨_, rfl, Nat.le_of_eq x.length_forward⟩
  | scanned hx hreel =>
    obtain rfl := Except.ok.inj hreel
    exact ⟨_, rfl, Nat.le_of_eq ((List.length_map _).trans s.length_toList)⟩

mutual
/-- **The estimate of a planned operand bounds the extent of its cursor.** -/
theorem Planned.bounded : ∀ {e : Evaluator} {o : Operand}, s.SumsFit config e →
    (s.context r config).Planned e o → o.Bounded
  | .all [], _, _, ho => by
    rw [Planned] at ho
    obtain ⟨reel, hreel, rfl⟩ := ho
    obtain rfl := Except.ok.inj hreel
    exact ⟨_, rfl, Nat.le_of_eq ((List.length_map _).trans s.length_toList)⟩
  | .all [part], _, hfit, ho => by
    rw [Planned] at ho
    rw [Store.SumsFit, Store.SumsFitEach] at hfit
    exact ho.bounded hfit.1
  | .all (first :: second :: rest), _, hfit, ho => by
    rw [Planned] at ho
    obtain ⟨operands, driver, position, others, hplanned, hranked, rfl⟩ := ho
    rw [Store.SumsFit] at hfit
    have hbounded : ∀ o ∈ negationsLast operands, o.Bounded := fun o ho ↦
      hplanned.bounded hfit o ((negationsLast_perm operands).subset ho)
    have hdriver : driver ∈ negationsLast operands := by
      have hperm := ranked_perm (negationsLast operands)
      rw [hranked] at hperm
      exact hperm.subset List.mem_cons_self
    obtain ⟨n, hn, hle⟩ := hbounded driver hdriver
    refine ⟨n, (leastEstimate_ranked hranked fun o ho hnone ↦ ?_).trans hn, hle⟩
    obtain ⟨m, hm, -⟩ := hbounded o ho
    exact nomatch hnone.symm.trans hm
  | .any [], _, _, ho => by
    rw [Planned] at ho
    rw [ho]
    exact ⟨0, rfl, Nat.le_refl 0⟩
  | .any [part], _, hfit, ho => by
    rw [Planned] at ho
    rw [Store.SumsFit, Store.SumsFitEach] at hfit
    exact ho.bounded hfit.2.1
  | .any (first :: second :: rest), _, hfit, ho => by
    rw [Planned] at ho
    obtain ⟨operands, hplanned, rfl⟩ := ho
    rw [Store.SumsFit] at hfit
    refine ⟨_, totalEstimate_eq hplanned.estimates_eq, ?_⟩
    rw [addEstimates_foldl _ _ (Nat.zero_le _), Nat.zero_add, Nat.min_eq_left hfit.1]
    exact extent_relay_le hplanned.estimates_eq (hplanned.bounded hfit.2)
  | .not part, _, _, ho => by
    rw [Planned] at ho
    obtain ⟨reel, hreel, rfl⟩ := ho
    obtain rfl := Except.ok.inj hreel
    exact ⟨_, rfl, Nat.le_of_eq ((List.length_map _).trans s.length_toList)⟩
  | .leaf t, _, _, ho => by
    rw [Planned] at ho
    exact PlannedLeaf.bounded ho
theorem PlannedEach.bounded : ∀ {es : List Evaluator} {operands : List Operand},
    s.SumsFitEach config es → (s.context r config).PlannedEach es operands →
      ∀ o ∈ operands, o.Bounded
  | [], _, _, ho => by
    rw [PlannedEach] at ho
    rw [ho]
    exact fun o ho ↦ absurd ho List.not_mem_nil
  | e :: es, _, hfit, ho => by
    rw [PlannedEach] at ho
    obtain ⟨first, rest, rfl, hfirst, hrest⟩ := ho
    rw [Store.SumsFitEach] at hfit
    exact List.forall_mem_cons.2 ⟨hfirst.bounded hfit.1, hrest.bounded hfit.2⟩
end

end Context

namespace Store

open Cursor

/-- **The estimate of an operand bounds what its cursor finds.**  Every operand that is planned over
a store has an estimate.  If in no disjunction the sum was cut off, a full pass in either direction
finds no more entries, whatever moves were made before it, and to collect the entries from the start
does not fail and comes to no more of them. -/
theorem estimate_bounds (changes : List Change) (r : Registry) (config : SearchConfig) {f : Filter}
    {t : Trace} {o : Operand}
    (ho : Attempt.outcome (((run changes).context r config).plan f) t = .ok o) :
    ∃ e, f.toEvaluator r = .ok e ∧ o.estimate = some ((run changes).supply config e) ∧
      ((run changes).SumsFit config e → ∀ d,
        (Cursor.collect ((run changes).context r config) d).Ensures o.cursor
          (fun ids _ ↦ ids.length ≤ (run changes).supply config e) (fun _ _ ↦ False) ∧
        ∀ c, Reached ((run changes).context r config) o.cursor c → ∀ found c',
          Pass ((run changes).context r config) d c found c' →
            found.length ≤ (run changes).supply config e) := by
  have hplan := ((run changes).plan_planned r config f).outcome t
  rw [ho] at hplan
  obtain ⟨e, he, hplanned⟩ := hplan
  have hestimate := hplanned.estimate_eq
  refine ⟨e, he, hestimate, fun hfit d ↦ ?_⟩
  obtain ⟨n, hn, hle⟩ := hplanned.bounded hfit
  obtain rfl := Option.some.inj (hn.symm.trans hestimate)
  refine ⟨?_, fun c hc found c' hpass ↦ ?_⟩
  · obtain ⟨l, hserves, -⟩ := hplanned.serves (consistent_run changes) (d := d)
    have hlength := (walker_bounded ((run changes).context r config) o.cursor.height).collect d
    have hcollect : (Cursor.collect ((run changes).context r config) d).Ensures o.cursor
        (fun ids _ ↦ ids.length ≤ o.cursor.extent) fun _ _ ↦ True :=
      Act.ensures_bind (Act.ensures_get (hlength o.cursor))
    refine ((collect_spec hserves hplanned.plain).and hcollect).mono ?_ fun _ _ h ↦ h.1
    exact fun ids _ h ↦ Nat.le_trans h.2 hle
  · exact Nat.le_trans (hc.length_le (hplanned.made compositional_firm) hpass) hle

/-- A disjunction over two entries with an index on their names is expected to yield four, two from
each part. -/
theorem estimate_bounds_names :
    let ctx := (run (nameChanges.take 3)).context .names .standard
    let f : Filter := .any [.leaf ⟨"cn", .present⟩,
      .all [.leaf ⟨"cn", .equalTo (.text "bob")⟩, .not (.leaf ⟨"cn", .equalTo (.text "eve")⟩)]]
    ∃ o, Attempt.outcome (ctx.plan f) (.start .warn false) = .ok o ∧ o.estimate = some 4 ∧
      ∀ d, (Cursor.collect ctx d).Ensures o.cursor (fun ids _ ↦ ids.length ≤ 4) (fun _ _ ↦ False) ∧
        ∀ c, Reached ctx o.cursor c → ∀ found c', Pass ctx d c found c' → found.length ≤ 4 := by
  intro ctx f
  have hfit : (f.toEvaluator .names).toOption.any (fun e ↦
      (run (nameChanges.take 3)).supply .standard e = 4 ∧
        (run (nameChanges.take 3)).SumsFit .standard e) = true := by
    decide +kernel
  obtain ⟨e, he, hfit⟩ := (Option.any_eq_true _ _).1 hfit
  obtain ⟨hsupply, hfit⟩ := of_decide_eq_true hfit
  obtain ⟨o, ho⟩ := plan_eq_ok (toOption_eq_some.1 he) (.start .warn false)
  obtain ⟨e', he', hestimate, hbounds⟩ := estimate_bounds (nameChanges.take 3) .names .standard ho
  obtain rfl := Option.some.inj (he.symm.trans (toOption_eq_some.2 he'))
  rw [hsupply] at hestimate hbounds
  exact ⟨o, ho, hestimate, hbounds hfit⟩

end Store
end DirectoryQuery
