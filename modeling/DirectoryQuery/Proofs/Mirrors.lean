import DirectoryQuery.Proofs.Histories
import DirectoryQuery.Proofs.Preparations
import DirectoryQuery.Proofs.Repetition

/-!
# Searches in both directions

The cursor of an operand lists entries forwards, and entries backwards, starting from the same plan
each time.  A leaf or a negation lists the same entries in the opposite order, and a conjunction
leaves out the same ones of what drives it.  A disjunction of several parts does not mirror: the
direction decides which of its parts comes up with an entry first, and so where the entry is listed,
and how often.  But either way each entry of each part is listed (`mem_merge_legs`).

So a search comes to the same entries in both directions, and to the opposite order where no
disjunction is involved (`Store.search_mirrors`).  Nothing is assumed about how cursors and
evaluators agree.
-/

set_option autoImplicit false

namespace DirectoryQuery

/-! ## Filters without disjunctions -/

namespace Formula

variable {α β ε : Type}

mutual
/-- Outside of negations the formula has no disjunction of several parts. -/
def Straight : Formula α → Prop
  | all parts => StraightEach parts
  | any parts => parts.length < 2 ∧ StraightEach parts
  | not _ => True
  | leaf _ => True
/-- The same of all formulas. -/
def StraightEach : List (Formula α) → Prop
  | [] => True
  | part :: parts => Straight part ∧ StraightEach parts
end

variable {g : α → Except ε β}

mutual
/-- To replace the leaves makes no disjunctions. -/
theorem Straight.traverse : ∀ {f : Formula α} {f' : Formula β}, f.Straight →
    f.traverse g = .ok f' → f'.Straight
  | all parts, _, hf, h => by
    obtain ⟨parts', hparts, hf'⟩ := bind_eq_ok.1 h
    obtain rfl := Except.ok.inj hf'
    exact StraightEach.traverse hf hparts
  | any parts, _, hf, h => by
    obtain ⟨parts', hparts, hf'⟩ := bind_eq_ok.1 h
    obtain rfl := Except.ok.inj hf'
    exact ⟨(length_traverseEach hparts).trans_lt hf.1, StraightEach.traverse hf.2 hparts⟩
  | not part, _, _, h => by
    obtain ⟨part', -, hf'⟩ := bind_eq_ok.1 h
    obtain rfl := Except.ok.inj hf'
    exact trivial
  | leaf a, _, _, h => by
    obtain ⟨b, -, hf'⟩ := bind_eq_ok.1 h
    obtain rfl := Except.ok.inj hf'
    exact trivial
theorem StraightEach.traverse : ∀ {fs : List (Formula α)} {fs' : List (Formula β)},
    StraightEach fs → traverseEach g fs = .ok fs' → StraightEach fs'
  | [], _, _, h => by
    obtain rfl := Except.ok.inj h
    exact trivial
  | part :: parts, _, hfs, h => by
    obtain ⟨part', hpart, hrest⟩ := bind_eq_ok.1 h
    obtain ⟨parts', hparts, hfs'⟩ := bind_eq_ok.1 hrest
    obtain rfl := Except.ok.inj hfs'
    exact ⟨hfs.1.traverse hpart, StraightEach.traverse hfs.2 hparts⟩
end

end Formula

variable {s : Store} {r : Registry} {config : SearchConfig} {d : Direction}

/-! ## Operands -/

/-- What a disjunction merges is what its parts list, as long as none has to skip anything. -/
theorem mem_merge_legs {parts : List Evaluator} {ls : List (List EntryId)} {i : EntryId} :
    i ∈ merge [] (d.arrange (List.zipWith (s.legOf config) parts ls)) ↔
      ∃ (j : Nat) (part : Evaluator) (l : List EntryId),
        parts[j]? = some part ∧ ls[j]? = some l ∧ i ∈ l := by
  constructor
  · intro hi
    obtain ⟨leg, hleg, hi, -⟩ := exists_of_mem_merge hi
    obtain ⟨j, part, l, hpart, hl, rfl⟩ := Store.mem_legs.1 hleg
    exact ⟨j, part, l, hpart, hl, hi⟩
  · rintro ⟨j, part, l, hpart, hl, hi⟩
    have hleg : s.legOf config part l ∈ d.arrange (List.zipWith (s.legOf config) parts ls) :=
      Store.mem_legs.2 ⟨j, part, l, hpart, hl, rfl⟩
    have hmerged : i ∈ [] ∨ i ∈ merge [] _ := mem_or_mem_merge hleg hi rfl
    exact hmerged.resolve_left List.not_mem_nil

/-- The operand lists the same entries in both directions, and if the condition holds in the
opposite order. -/
structure Operand.Mirrors (s : Store) (r : Registry) (config : SearchConfig) (straight : Prop)
    (o : Operand) (l l' : List EntryId) : Prop where
  forward : o.Serves s r config .forward l
  backward : o.Serves s r config .backward l'
  mem_iff (i : EntryId) : i ∈ l' ↔ i ∈ l
  reverse_eq : straight → l' = l.reverse

namespace Operand

/-- What is served in the order of each direction is mirrored. -/
theorem Mirrors.of_arrange {o : Operand} {l : List EntryId} (straight : Prop)
    (h : ∀ d : Direction, o.Serves s r config d (d.arrange l)) :
    o.Mirrors s r config straight l l.reverse :=
  ⟨h .forward, h .backward, fun _ ↦ List.mem_reverse, fun _ ↦ rfl⟩

theorem Mirrors.imp {o : Operand} {l l' : List EntryId} {straight straight' : Prop}
    (h : o.Mirrors s r config straight l l') (himp : straight' → straight) :
    o.Mirrors s r config straight' l l' :=
  ⟨h.forward, h.backward, h.mem_iff, fun hstraight ↦ h.reverse_eq (himp hstraight)⟩

end Operand

namespace Context

open Operand

mutual
/-- **The operand of a filter lists the same entries in both directions**, in the opposite order if
the filter is straight. -/
theorem Planned.mirrors (h : s.Consistent) : ∀ {e : Evaluator} {o : Operand},
    (s.context r config).Planned e o → ∃ l l', o.Mirrors s r config e.Straight l l'
  | .all [], _, ho => by
    rw [Planned] at ho
    obtain ⟨reel, hreel, rfl⟩ := ho
    obtain rfl := Except.ok.inj hreel
    exact ⟨_, _, .of_arrange _ fun d ↦ serves_every h _ _⟩
  | .all [part], _, ho => by
    rw [Planned] at ho
    obtain ⟨l, l', hl⟩ := ho.mirrors h
    exact ⟨l, l', hl.imp fun hstraight ↦ hstraight.1⟩
  | .all (first :: second :: rest), _, ho => by
    rw [Planned] at ho
    obtain ⟨operands, driver, position, others, hplanned, hranked, rfl⟩ := ho
    obtain ⟨ls, ls', hls⟩ := hplanned.mirrors h
    obtain ⟨j, hj, -⟩ := exists_driver hranked
    obtain ⟨l, l', -, -, hl⟩ := hls j driver hj
    refine ⟨_, _, serves_joint hl.forward position others _ _,
      serves_joint hl.backward position others _ _, fun i ↦ ?_, fun hstraight ↦ ?_⟩
    · rw [List.mem_filter, List.mem_filter, hl.mem_iff]
    · rw [hl.reverse_eq hstraight, List.filter_reverse]
  | .any [], _, ho => by
    rw [Planned] at ho
    rw [ho]
    exact ⟨[], [], serves_nothing _ _, serves_nothing _ _, fun _ ↦ Iff.rfl, fun _ ↦ rfl⟩
  | .any [part], _, ho => by
    rw [Planned] at ho
    obtain ⟨l, l', hl⟩ := ho.mirrors h
    exact ⟨l, l', hl.imp fun hstraight ↦ hstraight.2.1⟩
  | .any (first :: second :: rest), _, ho => by
    rw [Planned] at ho
    obtain ⟨operands, hplanned, rfl⟩ := ho
    obtain ⟨ls, ls', hls⟩ := hplanned.mirrors h
    have hpos : 0 < operands.length := by
      rw [hplanned.length_eq]
      exact Nat.zero_lt_succ _
    have hforward : ServesEach s r config .forward operands ls := fun j o hj ↦
      let ⟨l, _, hl, _, hmirrors⟩ := hls j o hj
      ⟨l, hl, hmirrors.forward⟩
    have hbackward : ServesEach s r config .backward operands ls' := fun j o hj ↦
      let ⟨_, l', _, hl', hmirrors⟩ := hls j o hj
      ⟨l', hl', hmirrors.backward⟩
    refine ⟨_, _, serves_relay hpos hforward _ _, serves_relay hpos hbackward _ _, fun i ↦ ?_,
      fun hstraight ↦ absurd hstraight.1 (by simp)⟩
    rw [mem_merge_legs, mem_merge_legs]
    refine exists_congr fun j ↦ exists_congr fun part ↦ ?_
    rw [exists_and_left, exists_and_left]
    refine and_congr_right fun hpart ↦ ?_
    rw [List.getElem?_map, Option.map_eq_some_iff] at hpart
    obtain ⟨o, ho, -⟩ := hpart
    obtain ⟨l, l', hl, hl', hmirrors⟩ := hls j o ho
    rw [hl, hl']
    simp [hmirrors.mem_iff]
  | .not part, _, ho => by
    rw [Planned] at ho
    obtain ⟨reel, hreel, rfl⟩ := ho
    obtain rfl := Except.ok.inj hreel
    exact ⟨_, _, .of_arrange _ fun d ↦ serves_negation h part _ _⟩
  | .leaf t, _, ho => by
    rw [Planned] at ho
    exact ⟨_, _, .of_arrange _ fun d ↦ serves_leaf h ho⟩
theorem PlannedEach.mirrors (h : s.Consistent) :
    ∀ {parts : List Evaluator} {operands : List Operand},
      (s.context r config).PlannedEach parts operands →
        ∃ ls ls' : List (List EntryId), ∀ (j : Nat) (o : Operand), operands[j]? = some o →
          ∃ l l', ls[j]? = some l ∧ ls'[j]? = some l' ∧
            o.Mirrors s r config (Formula.StraightEach parts) l l'
  | [], _, ho => by
    rw [PlannedEach] at ho
    rw [ho]
    exact ⟨[], [], fun j o hj ↦ absurd hj (by simp)⟩
  | part :: parts, _, ho => by
    rw [PlannedEach] at ho
    obtain ⟨first, rest, rfl, hfirst, hrest⟩ := ho
    obtain ⟨l, l', hl⟩ := hfirst.mirrors h
    obtain ⟨ls, ls', hls⟩ := hrest.mirrors h
    refine ⟨l :: ls, l' :: ls', fun j o hj ↦ ?_⟩
    cases j with
    | zero =>
      obtain rfl := Option.some.inj hj
      exact ⟨l, l', rfl, rfl, hl.imp fun hstraight ↦ hstraight.1⟩
    | succ j =>
      obtain ⟨m, m', hm, hm', hmirrors⟩ := hls j o hj
      exact ⟨m, m', hm, hm', hmirrors.imp fun hstraight ↦ hstraight.2⟩
end

end Context

/-! ## Searches -/

namespace Store

/-- Planning comes to one operand, whatever was logged before. -/
theorem exists_plan (s : Store) (config : SearchConfig) {f : Filter} {e : Evaluator}
    (he : f.toEvaluator r = .ok e) :
    ∃ o, (s.context r config).Planned e o ∧
      Attempt.Ensures ((s.context r config).plan f) (fun o' ↦ o' = o) fun _ ↦ False := by
  obtain ⟨o, ho⟩ :
      ∃ o, Attempt.outcome ((s.context r config).plan f) (.start .warn false) = .ok o :=
    plan_eq_ok he _
  have hplanned := (s.plan_planned r config f).outcome (.start .warn false)
  rw [ho] at hplanned
  obtain ⟨e', he', hplanned⟩ := hplanned
  obtain rfl := Except.ok.inj (he.symm.trans he')
  have hprepares : Context.Prepares (fun _ _ ↦ True) ((s.context r config).plan f)
      fun o ↦ [o.cursor] :=
    Context.plan_prepares (fun _ x _ ↦ x.reads_true) f
  refine ⟨o, hplanned, (hprepares.of_outcome ho).ensures.mono ?_ ?_⟩
  · rintro o' ⟨p, ho', -⟩
    exact ho'
  · rintro _ ⟨p, hfalse⟩
    exact hfalse

/-- **Searches in both directions return the same entries.**  They return them in opposite orders if
outside of negations the filter has no disjunction of several parts. -/
theorem search_mirrors (changes : List Change) (r : Registry) (config : SearchConfig) {f : Filter}
    {searchId searchId' : String} {t t' : Trace} {ids ids' : List EntryId}
    (h : Attempt.outcome (((run changes).context r config).search searchId f .forward) t = .ok ids)
    (h' : Attempt.outcome (((run changes).context r config).search searchId' f .backward) t' =
      .ok ids') :
    (∀ i, i ∈ ids' ↔ i ∈ ids) ∧ (f.Straight → ids' = ids.reverse) := by
  have hs := consistent_run changes
  have hspec := (search_spec hs r config searchId f .forward).outcome t
  rw [h] at hspec
  obtain ⟨e, he, -⟩ := hspec
  obtain ⟨o, ho, hplan⟩ := exists_plan (run changes) config he
  obtain ⟨l, l', hmirrors⟩ := ho.mirrors hs
  have hforward : ids = l := by
    have hsearch := (search_of_plan (Q := fun ids ↦ ids = l) hplan
      (fun o' ho' ↦ ⟨ho' ▸ ho.plain, l, ho' ▸ hmirrors.forward, rfl⟩) searchId).outcome t
    rwa [h] at hsearch
  have hbackward : ids' = l' := by
    have hsearch := (search_of_plan (Q := fun ids ↦ ids = l') hplan
      (fun o' ho' ↦ ⟨ho' ▸ ho.plain, l', ho' ▸ hmirrors.backward, rfl⟩) searchId').outcome t'
    rwa [h'] at hsearch
  subst hforward hbackward
  exact ⟨hmirrors.mem_iff, fun hf ↦ hmirrors.reverse_eq (hf.traverse he)⟩

/-- `Bob` and `Eve`, with an index on their names that only candidates come from.  In lower case
both come after `b`, as they are written before it.  So the first part lists both without accepting
them, and what the second part has come up with it lists once more. -/
theorem search_mirrors_folded :
    let ctx := (run [.add ((Entry.empty 1).add "cn" (.text "Bob")),
      .add ((Entry.empty 2).add "cn" (.text "Eve")), .keepIndexOn .names "cn"]).context .names
        candidatesOnly
    let folded : Filter := .leaf ⟨"cn", .atLeast (.text "b")⟩
    let f : Filter := .any [folded, .leaf ⟨"cn", .equalTo (.text "eve")⟩]
    let search (f : Filter) (d : Direction) :=
      Attempt.outcome (ctx.search "" f d) (.start .warn false)
    search f .forward = .ok [1, 2] ∧ search f .backward = .ok [2, 2, 1] ∧
      (∀ i : EntryId, i ∈ [2, 2, 1] ↔ i ∈ [1, 2]) ∧
      search folded .forward = .ok [1, 2] ∧ search folded .backward = .ok [1, 2].reverse := by
  intro ctx folded f search
  have hforward : search f .forward = .ok [1, 2] := toOption_eq_some.1 (by decide +kernel)
  have hbackward : search f .backward = .ok [2, 2, 1] := toOption_eq_some.1 (by decide +kernel)
  have hfolded : search folded .forward = .ok [1, 2] := toOption_eq_some.1 (by decide +kernel)
  have hopposite : search folded .backward = .ok [2, 1] := toOption_eq_some.1 (by decide +kernel)
  refine ⟨hforward, hbackward, (search_mirrors _ .names _ hforward hbackward).1, hfolded, ?_⟩
  rw [hopposite, (search_mirrors _ .names _ hfolded hopposite).2 trivial]

end Store
end DirectoryQuery
