import DirectoryQuery.Cursor.Sieve
import DirectoryQuery.Proofs.Judgement

/-!
# What was logged before makes no difference

Nothing that a search does looks at what has been logged and counted before.  So an act on a thing
comes to the same whatever the trace is (`Act.Steady`), and one may speak of *the* outcome of an act
(`Act.outcome`).  For the conditions that sieves put to their candidates this follows from their
having a footprint (`Acceptance.accept_stays`).  Such a condition keeps the candidate the same
entry, so that one may also speak of the candidate that is kept (`Acceptance.kept?`).
-/

set_option autoImplicit false

namespace DirectoryQuery

variable {σ α β : Type}

/-! ## Steady computations -/

/-- The effect comes to the same whatever the trace is. -/
def Effect.Steady (x : Effect α) : Prop := ∀ t t', (StateT.run x t).1 = (StateT.run x t').1

/-- What has an answer and a footprint has the same answer whatever the trace is. -/
theorem Effect.Leaves.steady {x : Effect α} {Q : α → Footprint → Prop} (h : Effect.Leaves x Q) :
    Effect.Steady x := by
  obtain ⟨a, p, hrun, -⟩ := h
  intro t t'
  rw [hrun, hrun]

/-- Done to the same thing, the act comes to the same whatever the trace is. -/
def Act.Steady (act : Act σ α) : Prop := ∀ s, Effect.Steady (act.perform s)

namespace Act

/-- The outcome of a steady act is what it comes to. -/
theorem Steady.ensures {act : Act σ α} (h : act.Steady) (s : σ) :
    act.Ensures s (fun a s' ↦ act.outcome s = (.ok a, s'))
      fun e s' ↦ act.outcome s = (.error e, s') := by
  intro t
  have ht : act.outcome s = (StateT.run (act.perform s) t).1 := h s _ t
  rw [ht]
  obtain ⟨o, s'⟩ := (StateT.run (act.perform s) t).1
  cases o <;> exact rfl

end Act

/-! ## Conditions are steady -/

/-- What an evaluator says of a candidate does not depend on what was logged before. -/
theorem Evaluator.steady_evaluate (e : Evaluator) (ctx : Context) : (e.evaluate ctx).Steady :=
  fun c ↦ (e.evaluate_stays Footprint.allows_true (ctx.reads_true c.id) c rfl).steady

namespace Acceptance

/-- The footprints of reading an index in reverse are allowed for the index that the condition
reads. -/
def Reads (A : Option SearchError → Footprint → Prop) : Acceptance → Prop
  | indexed index _ => index.Reads A
  | _ => True

theorem reads_true (x : Acceptance) : x.Reads fun _ _ ↦ True := by
  cases x with
  | indexed index assertion => exact index.reads_true
  | _ => exact trivial

/-- A condition keeps the candidate the same entry, and leaves nothing behind but what comes of
reading indexes in reverse. -/
theorem accept_stays {A : Option SearchError → Footprint → Prop} {x : Acceptance} {ctx : Context}
    (hA : Footprint.Allows A) (hctx : ctx.Reads A) (hx : x.Reads A) {i : EntryId} :
    (x.accept ctx).Stays (fun c ↦ c.id = i) A := by
  have hleaf : ∀ t : Test, (t.evaluate ctx).Stays (fun c ↦ c.id = i) A :=
    fun t ↦ t.evaluate_stays hA (hctx i)
  cases x with
  | matching e => exact Formula.judge_stays hA hleaf e
  | rejecting e => exact .bind hA (Formula.judge_stays hA hleaf e) fun _ ↦ .pure hA _
  | joint driver others => exact Formula.judgeAll_stays hA hleaf others
  | indexed index assertion =>
    refine .bind hA (.get hA) fun c ↦ ?_
    cases c.value.filter assertion.holds with
    | none => exact .pure hA false
    | some key => exact Index.lookup_stays hA (hx i) _ fun _ ↦ .pure hA _
  | keyed => exact .bind hA (.get hA) fun _ ↦ .pure hA _

variable (x : Acceptance) (ctx : Context)

/-- **What a condition says of a candidate does not depend on what was logged before.** -/
theorem steady_accept : (x.accept ctx).Steady :=
  fun c ↦ (accept_stays Footprint.allows_true ctx.reads_true x.reads_true c rfl).steady

/-- A condition keeps the candidate the same entry. -/
theorem accept_id (i : EntryId) : (x.accept ctx).Keeps fun c ↦ c.id = i :=
  (accept_stays Footprint.allows_true ctx.reads_true x.reads_true).keeps

/-- The candidate as the condition leaves it, if it passes. -/
def kept? (c : Candidate) : Option Candidate :=
  match (x.accept ctx).outcome c with
  | (.ok true, c') => some c'
  | _ => none

/-- Whether the candidate passes. -/
def passes (c : Candidate) : Bool := (x.kept? ctx c).isSome

/-- The condition cannot be put to the candidate. -/
def Fails (c : Candidate) : Prop := ∃ e c', (x.accept ctx).outcome c = (.error e, c')

variable {x ctx}

/-- Put to a candidate without failure, the condition comes to whether the candidate passes. -/
theorem accept_spec {c : Candidate} (h : ¬x.Fails ctx c) : (x.accept ctx).Ensures c
    (fun accepted c' ↦ accepted = x.passes ctx c ∧ c'.id = c.id ∧
      (accepted = true → x.kept? ctx c = some c'))
    fun _ _ ↦ False := by
  refine (((x.steady_accept ctx).ensures c).and (x.accept_id ctx c.id c rfl)).mono ?_ ?_
  · rintro accepted c' ⟨houtcome, hid⟩
    have hkept : x.kept? ctx c = if accepted then some c' else none := by
      rw [kept?, houtcome]
      cases accepted <;> rfl
    refine ⟨?_, hid, ?_⟩
    · rw [passes, hkept]
      cases accepted <;> rfl
    · rintro rfl
      exact hkept
  · rintro e c' ⟨houtcome, -⟩
    exact h ⟨e, c', houtcome⟩

end Acceptance
end DirectoryQuery
