import DirectoryQuery.Proofs.Drivers
import DirectoryQuery.Proofs.Fairness
import DirectoryQuery.Proofs.Mirrors
import DirectoryQuery.Proofs.Subtypes

/-!
# The order of a full scan

When no index is used, the filter and the entries decide what a search comes to, and in which order
(`Store.order`).

* A leaf, a negation and an empty conjunction list what they accept in the order of the direction.
* A disjunction lists what its parts list one after the other, in the order of the direction, and
  of an entry that comes up again only the first occurrence.
* A conjunction lists what the part that drives lists, as far as all parts accept it.  Which part
  drives does not depend on the direction (`Store.driving`).

Every operand that is planned lists its entries in this order (`Context.Planned.serves_order`), and
so does every search (`Store.returns_order`).
-/

set_option autoImplicit false

namespace DirectoryQuery

/-! ## Merging without repetition -/

theorem eraseDups_of_nodup {l : List EntryId} (h : l.Nodup) : l.eraseDups = l := by
  induction l with
  | nil => rfl
  | cons i l ih =>
    obtain ⟨hi, hl⟩ := List.nodup_cons.1 h
    have hfilter : l.filter (fun i' ↦ !i' == i) = l := List.filter_eq_self.2 fun i' hi' ↦ by
      simpa using fun heq : i' = i ↦ hi (heq ▸ hi')
    rw [List.eraseDups_cons, hfilter, ih hl]

/-- The operand lists nothing twice, accepts whatever it lists, and has nothing to skip. -/
structure Leg.Free (leg : Leg) : Prop where
  nodup : leg.ids.Nodup
  accepting : leg.Accepting
  skips (i : EntryId) : leg.skips i = false

theorem Leg.Free.fresh_eq {leg : Leg} (h : leg.Free) (out : List EntryId) :
    leg.fresh out = leg.ids.removeAll out := by
  rw [fresh, List.removeAll]
  refine List.filter_congr fun i hi ↦ ?_
  rw [h.skips, h.accepting i hi, Bool.false_or, Bool.true_and, List.contains_eq_mem,
    List.elem_eq_mem]

/-- **Operands that are free yield what they list, without what has come up before.** -/
theorem append_merge {legs : List Leg} (h : ∀ leg ∈ legs, leg.Free) {out : List EntryId}
    (hout : out.Nodup) : out ++ merge out legs = (out ++ legs.flatMap Leg.ids).eraseDups := by
  induction legs generalizing out with
  | nil => rw [merge, List.flatMap_nil, List.append_nil, eraseDups_of_nodup hout]
  | cons leg legs ih =>
    obtain ⟨hleg, hlegs⟩ := List.forall_mem_cons.1 h
    have hfirst : (out ++ leg.ids).eraseDups = out ++ leg.fresh out := by
      rw [List.eraseDups_append, eraseDups_of_nodup hout, hleg.fresh_eq]
      exact congrArg _ (eraseDups_of_nodup (hleg.nodup.filter _))
    have hnew : (out ++ leg.fresh out).Nodup := by
      refine List.nodup_append.2 ⟨hout, hleg.nodup.filter _, ?_⟩
      rintro i hi _ hfresh rfl
      obtain ⟨hmem, -, hnot⟩ := Leg.mem_fresh.1 hfresh
      exact hnot (hleg.accepting i hmem) hi
    have hsame : ∀ l : List EntryId, l.removeAll (out ++ leg.fresh out) =
        l.removeAll (out ++ leg.ids) := fun l ↦ List.filter_congr fun i _ ↦ by
      rw [← hfirst]
      simp only [List.elem_eq_mem, List.mem_eraseDups]
    calc out ++ merge out (leg :: legs)
        = (out ++ leg.fresh out) ++ merge (out ++ leg.fresh out) legs := by
          rw [merge, List.append_assoc]
      _ = (out ++ leg.fresh out ++ legs.flatMap Leg.ids).eraseDups := ih hlegs hnew
      _ = (out ++ leg.ids).eraseDups ++
            ((legs.flatMap Leg.ids).removeAll (out ++ leg.ids)).eraseDups := by
          rw [List.eraseDups_append, eraseDups_of_nodup hnew, hfirst, hsame]
      _ = (out ++ (leg :: legs).flatMap Leg.ids).eraseDups := by
          rw [← List.eraseDups_append, List.flatMap_cons, List.append_assoc]

theorem merge_eq_eraseDups {legs : List Leg} (h : ∀ leg ∈ legs, leg.Free) :
    merge [] legs = (legs.flatMap Leg.ids).eraseDups :=
  append_merge h List.nodup_nil

variable {s : Store} {r : Registry} {config : SearchConfig} {d : Direction}

/-! ## What a filter lists without indexes -/

theorem SearchConfig.scans_fullScan : fullScan.Scans := ⟨rfl, rfl⟩

namespace Store

/-- The entry of the identifier passes the filter. -/
def passes (s : Store) (e : Evaluator) (i : EntryId) : Bool := s.entries[i]?.any e.acceptsEntry

/-- The position of the part that drives a conjunction, the first one of the least precedence. -/
def driving (s : Store) (config : SearchConfig) (parts : List Evaluator) (h : parts ≠ []) : Nat :=
  parts.minIdxOn (s.precedence config) h

mutual
/-- The entries that a filter lists without indexes, in the order in which it lists them. -/
def order (s : Store) (config : SearchConfig) (d : Direction) : Evaluator → List EntryId
  | .all [] => d.arrange (s.ids.filter (s.passes (.all [])))
  | .all [part] => order s config d part
  | .all (first :: second :: rest) =>
    let driver := s.driving config (first :: second :: rest) (List.cons_ne_nil _ _)
    ((orders s config d (first :: second :: rest))[driver]?.getD []).filter
      (s.passes (.all (first :: second :: rest)))
  | .any [part] => order s config d part
  | .any parts => (d.arrange (orders s config d parts)).flatten.eraseDups
  | .not part => d.arrange (s.ids.filter (s.passes (.not part)))
  | .leaf t => d.arrange (s.ids.filter (s.passes (.leaf t)))
/-- The same of each filter. -/
def orders (s : Store) (config : SearchConfig) (d : Direction) :
    List Evaluator → List (List EntryId)
  | [] => []
  | part :: parts => order s config d part :: orders s config d parts
end

theorem orders_eq_map (parts : List Evaluator) :
    s.orders config d parts = parts.map (s.order config d) := by
  induction parts with
  | nil => rw [orders, List.map_nil]
  | cons part parts ih => rw [orders, ih, List.map_cons]

/-! ### Verdicts without indexes -/

/-- Without indexes the verdict of a filter on an entry is whether the entry passes. -/
theorem accepts_eq_passes (hconfig : config.Scans) (h : s.Consistent) {i : EntryId}
    (hi : i ∈ s.ids) (e : Evaluator) : s.accepts config e i = s.passes e i := by
  obtain ⟨entry, hentry⟩ := h.mem_ids.1 hi
  rw [accepts, passes, hentry, Option.any_some, Evaluator.acceptsEntry]
  exact Formula.holds_congr e fun t _ ↦ Test.verdict_of_entry (.inr hconfig.1) hentry

theorem filter_accepts (hconfig : config.Scans) (h : s.Consistent) (e : Evaluator) :
    s.ids.filter (s.accepts config e) = s.ids.filter (s.passes e) :=
  List.filter_congr fun _ hi ↦ accepts_eq_passes hconfig h hi e

/-- Of what the part that drives lists, what passes all parts is what the others accept. -/
theorem filter_passes (hconfig : config.Scans) (h : s.Consistent) {parts : List Evaluator}
    {j : Nat} {part : Evaluator} {l : List EntryId} (hpart : parts[j]? = some part)
    (hl : Fair s config part l) :
    l.filter (s.passes (.all parts)) = l.filter fun i ↦
      Formula.allHold (fun t ↦ t.verdict s config i) (parts.eraseIdx j) := by
  refine List.filter_congr fun i hi ↦ ?_
  rw [← accepts_eq_passes hconfig h (hl.stored i hi), Bool.eq_iff_iff, accepts, Formula.holds,
    Formula.allHold_iff_eraseIdx hpart]
  exact and_iff_right (hl.accepted i hi)

/-- The parts of a disjunction are free where each of them lists what it accepts. -/
theorem merge_orders {parts : List Evaluator}
    (h : ∀ part ∈ parts, Fair s config part (s.order config d part)) :
    merge [] (d.arrange (List.zipWith (s.legOf config) parts (s.orders config d parts))) =
      (d.arrange (s.orders config d parts)).flatten.eraseDups := by
  have hlegs : List.zipWith (s.legOf config) parts (s.orders config d parts) =
      parts.map fun part ↦ s.legOf config part (s.order config d part) := by
    rw [orders_eq_map, List.zipWith_map_right, List.zipWith_self]
  have hids : (d.arrange (List.zipWith (s.legOf config) parts (s.orders config d parts))).map
      Leg.ids = d.arrange (s.orders config d parts) := by
    rw [← d.arrange_map, hlegs, List.map_map, orders_eq_map]
    rfl
  rw [merge_eq_eraseDups, List.flatMap_def, hids]
  intro leg hleg
  rw [(d.arrange_perm _).mem_iff, hlegs] at hleg
  obtain ⟨part, hpart, rfl⟩ := List.mem_map.1 hleg
  exact ⟨(h part hpart).nodup, (h part hpart).accepted, fun _ ↦ rfl⟩

/-- What passes is listed without repetition, and accepted. -/
theorem fair_passes (hconfig : config.Scans) (h : s.Consistent) (e : Evaluator) :
    Fair s config e (d.arrange (s.ids.filter (s.passes e))) := by
  refine fair_arrange ((nodup_ids h).filter _) fun i hi ↦ ?_
  obtain ⟨hstored, hpasses⟩ := List.mem_filter.1 hi
  exact ⟨hstored, (accepts_eq_passes hconfig h hstored e).trans hpasses⟩

theorem getElem?_orders {parts : List Evaluator} {j : Nat} {part : Evaluator}
    (hpart : parts[j]? = some part) :
    (s.orders config d parts)[j]? = some (s.order config d part) := by
  rw [orders_eq_map, List.getElem?_map, hpart, Option.map_some]

theorem driving_lt {parts : List Evaluator} (hne : parts ≠ []) :
    s.driving config parts hne < parts.length :=
  List.minIdxOn_lt_length hne

mutual
/-- A filter lists only what it accepts, and nothing twice. -/
theorem fair_order (hconfig : config.Scans) (h : s.Consistent) :
    ∀ e : Evaluator, Fair s config e (s.order config d e)
  | .all [] => by
    rw [order]
    exact fair_passes hconfig h _
  | .all [part] => by
    rw [order]
    exact (fair_order hconfig h part).congr (accepts_all_one part)
  | .all (first :: second :: rest) => by
    have hlt : s.driving config (first :: second :: rest) (List.cons_ne_nil _ _) <
        (first :: second :: rest).length := driving_lt _
    have hpart := List.getElem?_eq_getElem hlt
    have hfair := fair_orders hconfig h _ _ (List.mem_of_getElem? hpart)
    rw [order, getElem?_orders hpart, Option.getD_some, filter_passes hconfig h hpart hfair]
    exact hfair.filter hpart
  | .any [] => by
    rw [order, ← merge_orders fun part hpart ↦ absurd hpart List.not_mem_nil]
    · exact .merge fun hpart _ ↦ absurd (List.mem_of_getElem? hpart) List.not_mem_nil
    · simp
  | .any [part] => by
    rw [order]
    exact (fair_order hconfig h part).congr (accepts_any_one part)
  | .any (first :: second :: rest) => by
    have hfair := fair_orders hconfig h (first :: second :: rest)
    rw [order, ← merge_orders hfair]
    · refine .merge fun hpart hl ↦ ?_
      rw [getElem?_orders hpart] at hl
      exact Option.some.inj hl ▸ hfair _ (List.mem_of_getElem? hpart)
    · simp
  | .not part => by
    rw [order]
    exact fair_passes hconfig h _
  | .leaf t => by
    rw [order]
    exact fair_passes hconfig h _
theorem fair_orders (hconfig : config.Scans) (h : s.Consistent) :
    ∀ parts : List Evaluator, ∀ part ∈ parts, Fair s config part (s.order config d part)
  | [] => fun _ hmem ↦ absurd hmem List.not_mem_nil
  | part :: parts =>
    List.forall_mem_cons.2 ⟨fair_order hconfig h part, fair_orders hconfig h parts⟩
end

end Store

/-! ## What planned operands list without indexes -/

namespace Context

open Operand

/-- The operand that leads belongs to the part that drives. -/
theorem PlannedEach.driving_eq {parts : List Evaluator} {operands : List Operand} {j : Nat}
    (h : (s.context r config).PlannedEach parts operands)
    (hleads : Cursor.Leads precedence operands j) (hne : parts ≠ []) :
    s.driving config parts hne = j := by
  obtain ⟨driver, hdriver, hleast⟩ := hleads
  obtain ⟨hj, -⟩ := List.getElem?_eq_some_iff.1 hdriver
  rw [h.length_eq] at hj
  have hdriving : precedence driver = s.precedence config parts[j] := by
    have hpart := h.precedence_eq j
    rw [hdriver, List.getElem?_eq_getElem hj] at hpart
    exact Option.some.inj hpart
  have hprecedes (k : Nat) (hk : k < parts.length) :
      s.precedence config parts[j] < s.precedence config parts[k] ∨
        s.precedence config parts[j] = s.precedence config parts[k] ∧ j ≤ k := by
    have hpart := h.precedence_eq k
    rw [List.getElem?_eq_getElem hk, Option.map_some, Option.map_eq_some_iff] at hpart
    obtain ⟨o, ho, heq⟩ := hpart
    rw [← hdriving, ← heq]
    exact hleast k o ho
  rw [Store.driving, List.minIdxOn_eq_iff]
  refine ⟨hj, fun k hk ↦ ?_, fun k hk ↦ ?_⟩
  · exact (hprecedes k hk).elim le_of_lt fun heq ↦ heq.1.le
  · exact (hprecedes k (hk.trans hj)).resolve_right fun heq ↦ absurd heq.2 (Nat.not_le.2 hk)

mutual
/-- **Without indexes, the operand of a filter lists entries in the order of the filter.** -/
theorem Planned.serves_order (hconfig : config.Scans) (h : s.Consistent) :
    ∀ {e : Evaluator} {o : Operand}, (s.context r config).Planned e o →
      o.Serves s r config d (s.order config d e)
  | .all [], _, ho => by
    rw [Planned] at ho
    obtain ⟨reel, hreel, rfl⟩ := ho
    obtain rfl := Except.ok.inj hreel
    have hall : s.ids.filter (s.accepts config (.all [])) = s.ids := List.filter_true _
    rw [Store.order, ← Store.filter_accepts hconfig h, hall]
    exact serves_every h _ _
  | .all [part], _, ho => by
    rw [Planned] at ho
    rw [Store.order]
    exact ho.serves_order hconfig h
  | .all (first :: second :: rest), _, ho => by
    rw [Planned] at ho
    obtain ⟨operands, driver, position, others, hplanned, hranked, rfl⟩ := ho
    obtain ⟨hdriver, hleads⟩ := Cursor.leads_of_ranked hranked
    obtain ⟨j, hj, hleads⟩ := leads_negationsLast hdriver hleads
    obtain ⟨l, hl, hserves⟩ := hplanned.serves_orders hconfig h j driver hj
    obtain ⟨part, hpart⟩ : ∃ part, (first :: second :: rest)[j]? = some part := by
      have hlt := (List.getElem?_eq_some_iff.1 hj).1
      rw [hplanned.length_eq] at hlt
      exact ⟨_, List.getElem?_eq_getElem hlt⟩
    rw [Store.getElem?_orders hpart] at hl
    obtain rfl := Option.some.inj hl
    have hfair : s.Fair config part (s.order config d part) := Store.fair_order hconfig h part
    have hothers : (s.order config d part).filter (fun i ↦ Formula.allHold
          (fun t ↦ t.verdict s config i) ((first :: second :: rest).eraseIdx j)) =
        (s.order config d part).filter fun i ↦ Formula.allHold
          (fun t ↦ t.verdict s config i) (others.map fun o ↦ o.1.evaluator) := by
      refine List.filter_congr fun i _ ↦ ?_
      rw [← allHold_others hplanned (others_perm hranked hj), List.map_map]
      rfl
    -- The operand that leads is the one at the first least precedence, as the order has it.
    rw [Store.order, hplanned.driving_eq hleads, Store.getElem?_orders hpart, Option.getD_some,
      Store.filter_passes hconfig h hpart hfair, hothers]
    exact serves_joint hserves position others _ _
  | .any [], _, ho => by
    rw [Planned] at ho
    rw [ho, Store.order, Store.orders, (d.arrange_perm []).eq_nil]
    · exact serves_nothing _ _
    · simp
  | .any [part], _, ho => by
    rw [Planned] at ho
    rw [Store.order]
    exact ho.serves_order hconfig h
  | .any (first :: second :: rest), _, ho => by
    rw [Planned] at ho
    obtain ⟨operands, hplanned, rfl⟩ := ho
    have hpos : 0 < operands.length := by
      rw [hplanned.length_eq]
      exact Nat.zero_lt_succ _
    have hserves : Serves s r config d _ _ := serves_relay hpos (hplanned.serves_orders hconfig h)
      (.any (first :: second :: rest)) (totalEstimate operands)
    rw [hplanned.legs_eq, Store.merge_orders (Store.fair_orders hconfig h _)] at hserves
    rw [Store.order]
    · exact hserves
    · simp
  | .not part, _, ho => by
    rw [Planned] at ho
    obtain ⟨reel, hreel, rfl⟩ := ho
    obtain rfl := Except.ok.inj hreel
    rw [Store.order, ← Store.filter_accepts hconfig h]
    exact serves_negation h part _ _
  | .leaf t, _, ho => by
    rw [Planned] at ho
    rw [Store.order, ← Store.filter_accepts hconfig h]
    have hfound : t.found s config = s.ids.filter (s.accepts config (.leaf t)) := by
      rw [Test.found, Store.sourceIndex?, hconfig.2]
      rfl
    rw [← hfound]
    exact serves_leaf h ho
theorem PlannedEach.serves_orders (hconfig : config.Scans) (h : s.Consistent) :
    ∀ {parts : List Evaluator} {operands : List Operand},
      (s.context r config).PlannedEach parts operands →
        ServesEach s r config d operands (s.orders config d parts)
  | [], _, ho => by
    rw [PlannedEach] at ho
    rw [ho]
    exact fun j o hj ↦ absurd hj (by simp)
  | part :: parts, _, ho => by
    rw [PlannedEach] at ho
    obtain ⟨first, rest, rfl, hfirst, hrest⟩ := ho
    rw [Store.orders]
    intro j o hj
    cases j with
    | zero => exact ⟨_, rfl, Option.some.inj hj ▸ hfirst.serves_order hconfig h⟩
    | succ j => exact hrest.serves_orders hconfig h j o hj
end

end Context

/-! ## Searches -/

namespace Store

/-- **The order of a full scan.**  If no index may be used and all leaves make sense to the schema,
every search comes to the entries of the filter in its order, in either direction, and a leaf is
expected to yield as many entries as there are. -/
theorem returns_order (changes : List Change) (r : Registry) (hconfig : config.Scans) {f : Filter}
    (hf : ∀ c ∈ f.leaves, ∃ t, c.toTest r = .ok t) :
    ∃ e, f.toEvaluator r = .ok e ∧
      (∀ t : Test, t.supply (run changes) config = (run changes).size) ∧
      (run changes).Returns r config f fun d ↦ (run changes).order config d e := by
  obtain ⟨e, he⟩ := Filter.exists_toEvaluator hf
  have hsupply (t : Test) : t.supply (run changes) config = (run changes).size := by
    rw [Test.supply, sourceIndex?, hconfig.2]
    rfl
  refine ⟨e, he, hsupply, fun d searchId t ↦ ?_⟩
  obtain ⟨o, ho, hplan⟩ := exists_plan (run changes) config he
  have hserves : o.Serves (run changes) r config d ((run changes).order config d e) :=
    ho.serves_order hconfig (consistent_run changes)
  have hsearch := search_of_plan (Q := fun ids ↦ ids = (run changes).order config d e) hplan
    (fun o' ho' ↦ ⟨ho' ▸ ho.plain, _, ho' ▸ hserves, rfl⟩) searchId
  have hsame := hsearch.outcome t
  cases hids : Attempt.outcome (((run changes).context r config).search searchId f d) t with
  | ok ids =>
    rw [hids] at hsame
    exact congrArg _ hsame
  | error err =>
    rw [hids] at hsame
    exact hsame.elim

/-- Three people.  The first disjunction drives, since it has fewer parts than the second one, and
so `b` comes before `a`; whoever has a name comes after that, or before it on the way back. -/
theorem returns_order_three :
    let changes : List Change := [.add ((Entry.empty 1).add "cn" (.text "a")),
      .add ((Entry.empty 2).add "cn" (.text "b")), .add ((Entry.empty 3).add "cn" (.text "c"))]
    let named (name : String) : Filter := .leaf ⟨"cn", .equalTo (.text name)⟩
    let f : Filter := .any [named "d", .all [.any [named "b", named "a"],
      .any [named "a", named "b", named "c"]], .leaf ⟨"cn", .present⟩]
    ∀ searchId t,
      Attempt.outcome (((run changes).context .names .fullScan).search searchId f .forward) t =
        .ok [2, 1, 3] ∧
      Attempt.outcome (((run changes).context .names .fullScan).search searchId f .backward) t =
        .ok [3, 2, 1] := by
  intro changes named f searchId t
  have hleaves : f.leaves.all (fun c ↦ (c.toTest .names).toOption.isSome) = true := by
    decide +kernel
  have horder : (f.toEvaluator .names).toOption.any (fun e ↦ decide (
      (run changes).order .fullScan .forward e = [2, 1, 3] ∧
        (run changes).order .fullScan .backward e = [3, 2, 1])) = true := by
    decide +kernel
  obtain ⟨e, he, horder⟩ := (Option.any_eq_true _ _).1 horder
  obtain ⟨hforward, hbackward⟩ := of_decide_eq_true horder
  have hready : ∀ c ∈ f.leaves, ∃ t, c.toTest .names = .ok t := fun c hc ↦
    let ⟨t, ht⟩ := Option.isSome_iff_exists.1 (List.all_eq_true.1 hleaves c hc)
    ⟨t, toOption_eq_some.1 ht⟩
  obtain ⟨e', he', -, hreturns⟩ :=
    returns_order changes .names SearchConfig.scans_fullScan hready
  obtain rfl := Except.ok.inj ((toOption_eq_some.1 he).symm.trans he')
  exact ⟨hforward ▸ hreturns .forward searchId t, hbackward ▸ hreturns .backward searchId t⟩

end Store
end DirectoryQuery
