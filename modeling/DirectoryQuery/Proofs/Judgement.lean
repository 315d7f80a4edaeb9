import Mathlib.Data.List.Perm.Basic
import DirectoryQuery.Evaluator.Basic
import DirectoryQuery.Proofs.Readings

/-!
# Judging a formula

When a computation judges the leaves of a formula, what stays as it is at every leaf stays so
(`Formula.judge_stays`), and if it judges every leaf as given then it judges the formula by what
`Formula.holds` makes of that (`Formula.judge_spec`).  A conjunction holds of what one part and all
others hold of, whichever part that is (`Formula.allHold_iff_eraseIdx`).

Evaluators judge candidates in this way.  An evaluator may attach an entry and a value to the
candidate, but it never turns to another entry, and it leaves nothing behind but what comes of
reading indexes in reverse (`Evaluator.evaluate_stays`).
-/

set_option autoImplicit false

namespace DirectoryQuery
namespace Formula

/-! ## Parts of a formula -/

section Parts

variable {α : Type} {part : Formula α} {parts : List (Formula α)} {j : Nat}

theorem allHold_eq_all (v : α → Bool) (parts : List (Formula α)) :
    allHold v parts = parts.all (holds v) := by
  induction parts with
  | nil => rfl
  | cons part parts ih => rw [allHold, ih, List.all_cons]

theorem anyHolds_eq_any (v : α → Bool) (parts : List (Formula α)) :
    anyHolds v parts = parts.any (holds v) := by
  induction parts with
  | nil => rfl
  | cons part parts ih => rw [anyHolds, ih, List.any_cons]

/-- A conjunction of one part holds as the part does. -/
theorem holds_all_one (v : α → Bool) (part : Formula α) : (all [part]).holds v = part.holds v :=
  Bool.and_true _

/-- A disjunction of one part holds as the part does. -/
theorem holds_any_one (v : α → Bool) (part : Formula α) : (any [part]).holds v = part.holds v :=
  Bool.or_false _

theorem leavesOf_one (part : Formula α) : leavesOf [part] = part.leaves := List.append_nil _

/-- The formula with conjunctions and disjunctions of one part taken for the part, as far as they
are around it. -/
def core : Formula α → Formula α
  | all [part] => core part
  | any [part] => core part
  | f => f

theorem leaves_core : ∀ f : Formula α, f.core.leaves = f.leaves
  | all [] => rfl
  | all [part] => by rw [core, leaves_core part, leaves, leavesOf_one]
  | all (_ :: _ :: _) => rfl
  | any [] => rfl
  | any [part] => by rw [core, leaves_core part, leaves, leavesOf_one]
  | any (_ :: _ :: _) => rfl
  | not _ => rfl
  | leaf _ => rfl

theorem holds_core (v : α → Bool) : ∀ f : Formula α, f.core.holds v = f.holds v
  | all [] => rfl
  | all [part] => by rw [core, holds_core v part, holds_all_one]
  | all (_ :: _ :: _) => rfl
  | any [] => rfl
  | any [part] => by rw [core, holds_core v part, holds_any_one]
  | any (_ :: _ :: _) => rfl
  | not _ => rfl
  | leaf _ => rfl

theorem mem_leavesOf {fs : List (Formula α)} {a : α} :
    a ∈ leavesOf fs ↔ ∃ f ∈ fs, a ∈ f.leaves := by
  induction fs with
  | nil => simp [leavesOf]
  | cons f fs ih => rw [leavesOf, List.mem_append, ih, List.exists_mem_cons_iff]

/-- All parts hold if one of them does and all others do. -/
theorem allHold_iff_eraseIdx {v : α → Bool} (hj : parts[j]? = some part) :
    allHold v parts = true ↔ part.holds v = true ∧ allHold v (parts.eraseIdx j) = true := by
  obtain ⟨hlt, rfl⟩ := List.getElem?_eq_some_iff.1 hj
  have hperm := List.getElem_cons_eraseIdx_perm hlt
  rw [allHold_eq_all, allHold_eq_all, ← hperm.all_eq, List.all_cons, Bool.and_eq_true]

mutual
/-- What a formula comes to depends on its leaves. -/
theorem holds_congr {v v' : α → Bool} : ∀ f : Formula α, (∀ a ∈ f.leaves, v a = v' a) →
    f.holds v = f.holds v'
  | all parts, h => allHold_congr parts h
  | any parts, h => anyHolds_congr parts h
  | not part, h => congrArg _ (holds_congr part h)
  | leaf a, h => h a List.mem_cons_self
theorem allHold_congr {v v' : α → Bool} : ∀ fs : List (Formula α),
    (∀ a ∈ leavesOf fs, v a = v' a) → allHold v fs = allHold v' fs
  | [], _ => rfl
  | part :: parts, h => by
    rw [leavesOf, List.forall_mem_append] at h
    rw [allHold, allHold, holds_congr part h.1, allHold_congr parts h.2]
theorem anyHolds_congr {v v' : α → Bool} : ∀ fs : List (Formula α),
    (∀ a ∈ leavesOf fs, v a = v' a) → anyHolds v fs = anyHolds v' fs
  | [], _ => rfl
  | part :: parts, h => by
    rw [leavesOf, List.forall_mem_append] at h
    rw [anyHolds, anyHolds, holds_congr part h.1, anyHolds_congr parts h.2]
end

end Parts

/-! ## Leaf by leaf -/

variable {α σ : Type} {p : α → Act σ Bool} {I : σ → Prop} {E : SearchError → Prop} {v : α → Bool}

section Stays

variable {A : Option SearchError → Footprint → Prop} (hA : Footprint.Allows A)

include hA

mutual
/-- What stays as it is when a leaf is judged stays so when the formula is. -/
theorem judge_stays (h : ∀ a, (p a).Stays I A) : ∀ f : Formula α, (f.judge p).Stays I A
  | all parts => judgeAll_stays h parts
  | any parts => judgeAny_stays h parts
  | not part => .bind hA (judge_stays h part) fun _ ↦ .pure hA _
  | leaf a => h a
theorem judgeAll_stays (h : ∀ a, (p a).Stays I A) :
    ∀ fs : List (Formula α), (judgeAll p fs).Stays I A
  | [] => .pure hA true
  | part :: parts => by
    refine .bind hA (judge_stays h part) fun accepted ↦ ?_
    cases accepted with
    | true => exact judgeAll_stays h parts
    | false => exact .pure hA false
theorem judgeAny_stays (h : ∀ a, (p a).Stays I A) :
    ∀ fs : List (Formula α), (judgeAny p fs).Stays I A
  | [] => .pure hA false
  | part :: parts => by
    refine .bind hA (judge_stays h part) fun accepted ↦ ?_
    cases accepted with
    | true => exact .pure hA true
    | false => exact judgeAny_stays h parts
end

end Stays

mutual
/-- If every leaf is judged as given, then so is the formula. -/
theorem judge_spec : ∀ (f : Formula α) {s : σ}, I s →
    (∀ a ∈ f.leaves, ∀ s, I s → (p a).Ensures s (fun b s' ↦ b = v a ∧ I s') fun e _ ↦ E e) →
    (f.judge p).Ensures s (fun b s' ↦ b = f.holds v ∧ I s') fun e _ ↦ E e
  | all parts, _, hs, h => judgeAll_spec parts hs h
  | any parts, _, hs, h => judgeAny_spec parts hs h
  | not part, _, hs, h => by
    refine Act.ensures_bind ((judge_spec part hs h).imp ?_)
    intro _ s' hpost
    obtain ⟨rfl, hs'⟩ := hpost
    exact Act.ensures_pure ⟨rfl, hs'⟩
  | leaf a, s, hs, h => h a List.mem_cons_self s hs
theorem judgeAll_spec : ∀ (fs : List (Formula α)) {s : σ}, I s →
    (∀ a ∈ leavesOf fs, ∀ s, I s → (p a).Ensures s (fun b s' ↦ b = v a ∧ I s') fun e _ ↦ E e) →
    (judgeAll p fs).Ensures s (fun b s' ↦ b = allHold v fs ∧ I s') fun e _ ↦ E e
  | [], _, hs, _ => Act.ensures_pure ⟨rfl, hs⟩
  | part :: parts, _, hs, h => by
    have hpart := judge_spec part hs fun a ha ↦ h a (List.mem_append_left _ ha)
    refine Act.ensures_bind (hpart.imp ?_)
    intro _ s' hpost
    obtain ⟨rfl, hs'⟩ := hpost
    rw [allHold]
    cases holds v part with
    | true => exact judgeAll_spec parts hs' fun a ha ↦ h a (List.mem_append_right _ ha)
    | false => exact Act.ensures_pure ⟨rfl, hs'⟩
theorem judgeAny_spec : ∀ (fs : List (Formula α)) {s : σ}, I s →
    (∀ a ∈ leavesOf fs, ∀ s, I s → (p a).Ensures s (fun b s' ↦ b = v a ∧ I s') fun e _ ↦ E e) →
    (judgeAny p fs).Ensures s (fun b s' ↦ b = anyHolds v fs ∧ I s') fun e _ ↦ E e
  | [], _, hs, _ => Act.ensures_pure ⟨rfl, hs⟩
  | part :: parts, _, hs, h => by
    have hpart := judge_spec part hs fun a ha ↦ h a (List.mem_append_left _ ha)
    refine Act.ensures_bind (hpart.imp ?_)
    intro _ s' hpost
    obtain ⟨rfl, hs'⟩ := hpost
    rw [anyHolds]
    cases holds v part with
    | true => exact Act.ensures_pure ⟨rfl, hs'⟩
    | false => exact judgeAny_spec parts hs' fun a ha ↦ h a (List.mem_append_right _ ha)
end

/-- A conjunction of what comes from a list is judged by what each comes to. -/
theorem judgeAll_map_spec {ι : Type} {f : ι → Formula α} {u : ι → Bool} {l : List ι} {s : σ}
    (h : ∀ i ∈ l, ∀ s, I s →
      ((f i).judge p).Ensures s (fun b s' ↦ b = u i ∧ I s') fun e _ ↦ E e)
    (hs : I s) :
    (judgeAll p (l.map f)).Ensures s (fun b s' ↦ b = l.all u ∧ I s') fun e _ ↦ E e := by
  induction l generalizing s with
  | nil => exact Act.ensures_pure ⟨rfl, hs⟩
  | cons i l ih =>
    obtain ⟨hi, hl⟩ := List.forall_mem_cons.1 h
    refine Act.ensures_bind ((hi s hs).imp ?_)
    rintro _ s' ⟨rfl, hs'⟩
    rw [List.all_cons]
    cases u i with
    | true => exact ih hl hs'
    | false => exact Act.ensures_pure ⟨rfl, hs'⟩

end Formula

/-! ## Evaluators keep to the entry -/

/-- The footprints of reading the entry in reverse are allowed for every index that may be read
so. -/
def Context.ReadsOf (A : Option SearchError → Footprint → Prop) (ctx : Context) (id : EntryId) :
    Prop :=
  ∀ t x, ctx.reverseIndex? t = some x → x.ReadsOf A id

/-- The footprints of reading an index in reverse are allowed for every index that may be read
so. -/
def Context.Reads (A : Option SearchError → Footprint → Prop) (ctx : Context) : Prop :=
  ∀ id, ctx.ReadsOf A id

theorem Context.reads_true (ctx : Context) : ctx.Reads fun _ _ ↦ True :=
  fun id _ x _ ↦ x.reads_true id

section Evaluators

variable {A : Option SearchError → Footprint → Prop} {ctx : Context} {i : EntryId}

/-- To read an index in reverse for the entry of a candidate is counted and then done. -/
theorem Index.lookup_stays (hA : Footprint.Allows A) {x : Index} (hx : x.ReadsOf A i)
    (wanted : Value → Bool) {α : Type} {f : Option Value → Act Candidate α}
    (hf : ∀ found, (f found).Stays (fun c ↦ c.id = i) A) :
    (do
      tally .reverseLookup
      let found ← Act.attempt (x.firstKey? (← get).id wanted)
      f found : Act Candidate α).Stays (fun c ↦ c.id = i) A := by
  refine .of_leaves ?_
  rintro c rfl
  refine Act.leaves_bind (Act.leaves_effect (Effect.leaves_tally ?_))
  refine Act.leaves_bind (Act.leaves_get (Act.leaves_bind (Act.leaves_attempt ?_)))
  refine Effect.Leaves.mono (hx wanted) fun o p hp ↦ ?_
  cases o with
  | ok found =>
    refine Effect.Leaves.mono (hf found c rfl) fun r q hq ↦ ?_
    have hall := hA.followed hp hq.2
    obtain ⟨o, c'⟩ := r
    cases o <;> exact ⟨hq.1, by simpa using hall⟩
  | error e => exact ⟨rfl, by simpa using hp⟩

theorem Test.entryOf_stays (hA : Footprint.Allows A) (t : Test) (directory : Directory) :
    (t.entryOf directory).Stays (fun c ↦ c.id = i) A := by
  refine .get_bind hA fun c hc ↦ ?_
  cases c.record with
  | some e => exact .pure hA e
  | none =>
    refine .bind hA (.tally hA _) fun _ ↦ ?_
    cases directory.lookup c.id with
    | ok e => exact .bind hA (.set hA hc) fun _ ↦ .pure hA _
    | error e => exact .throw hA _

theorem Test.evaluate_stays (hA : Footprint.Allows A) (hctx : ctx.ReadsOf A i) (t : Test) :
    (t.evaluate ctx).Stays (fun c ↦ c.id = i) A := by
  refine .bind hA (.tally hA _) fun _ ↦ ?_
  cases hindex : ctx.reverseIndex? t.subject.type with
  | some x => exact Index.lookup_stays hA (hctx _ x hindex) _ fun _ ↦ .pure hA _
  | none =>
    refine .bind hA (t.entryOf_stays hA _) fun e ↦ ?_
    cases t.firstValue? e with
    | none => exact .pure hA _
    | some v =>
      cases t.assertion.isPresent with
      | true => exact .pure hA _
      | false => exact .bind hA (.modify hA fun _ hc ↦ hc) fun _ ↦ .pure hA _

theorem Evaluator.evaluate_stays (hA : Footprint.Allows A) (hctx : ctx.ReadsOf A i)
    (e : Evaluator) : (e.evaluate ctx).Stays (fun c ↦ c.id = i) A :=
  Formula.judge_stays hA (fun t ↦ t.evaluate_stays hA hctx) e

/-- An evaluator keeps a candidate the same entry, whatever it comes to. -/
theorem Evaluator.evaluate_id (e : Evaluator) (ctx : Context) (c : Candidate) :
    (e.evaluate ctx).Ensures c (fun _ c' ↦ c'.id = c.id) fun _ c' ↦ c'.id = c.id :=
  (e.evaluate_stays Footprint.allows_true (ctx.reads_true c.id)).keeps c rfl

end Evaluators
end DirectoryQuery
