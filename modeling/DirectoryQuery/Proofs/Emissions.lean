import DirectoryQuery.Proofs.Announcements
import DirectoryQuery.Proofs.Schemas
import DirectoryQuery.Proofs.Sessions

/-!
# Entries that are skipped without having been emitted

What an operand of a disjunction has to skip is what it was told of in some call (`Report.Tells`).
Such a call has either emitted the entry through another operand (`Report.Emits`), or it has failed
because an operand failed that was asked later (`Report.Withholds`).  So every entry that is skipped
has been emitted exactly if the entries of the failed calls were emitted by others
(`Cursor.skips_emitted_iff`).  That they need not be is shown by three operands of which the last
one fails (`Cursor.skips_never_emitted`).
-/

set_option autoImplicit false

namespace DirectoryQuery
namespace Cursor

variable {ctx : Context} {d : Direction} {c : Cursor} {r r₁ r' : Relay Cursor} {j : Nat}
  {i : EntryId}

/-- Whether the cursor is a disjunction whose operand `j` has to skip the entry. -/
def skips : Cursor → Nat → EntryId → Bool
  | relay r, j, i => r.skips j i
  | _, _, _ => false

/-! ## What a call tells the operands -/

/-- The call has emitted the entry through the operand `k`. -/
def Report.Emits (report : Report) (k : Nat) (i : EntryId) : Prop :=
  report.outcome = .ok (.found true) ∧ ∃ r x, report.after = relay r ∧ r.active = k ∧
    r.standing.position = .onElement x ∧ x.id = i

/-- On the way from `r` to `r'` the disjunction comes up with the candidate, and the outcome is that
of asking about it: the candidate is emitted, or the failure of an evaluator is passed on. -/
structure Brings (ctx : Context) (r : Relay Cursor) (o : Except SearchError Answer)
    (r' : Relay Cursor) (x : Candidate) : Prop where
  raises : Relay.Raises current ctx r r' x
  outcome : (∃ x', (r'.asked ctx x).2 = .ok x' ∧ o = .ok (.found true) ∧
      r'.standing.position = .onElement x') ∨
    ∃ e, (r'.asked ctx x).2 = .error e ∧ o = .error e

/-- In the call another operand has come up with the entry, and the operand `j`, asked about it, has
accepted it. -/
def Report.Tells (ctx : Context) (report : Report) (j : Nat) (i : EntryId) : Prop :=
  ∃ r r' x, report.before = relay r ∧ report.after = relay r' ∧
    Brings ctx r report.outcome r' x ∧ x.id = i ∧ j ∈ (r'.asked ctx x).1

/-- The same, but the call has failed, because one of the operands that were asked has. -/
def Report.Withholds (ctx : Context) (report : Report) (j : Nat) (i : EntryId) : Prop :=
  report.Tells ctx j i ∧ ∃ e, report.outcome = .error e

/-- A call that leads from the one disjunction to the other tells the operands nothing, or it comes
up with a candidate. -/
def Turns (ctx : Context) (r : Relay Cursor) (o : Except SearchError Answer) (r' : Relay Cursor) :
    Prop :=
  r'.lanes = r.lanes ∨ ∃ x, Brings ctx r o r' x

theorem Turns.of_lanes {o : Except SearchError Answer} (h : Turns ctx r₁ o r')
    (hlanes : r₁.lanes = r.lanes) : Turns ctx r o r' := by
  rcases h with h | ⟨x, hx⟩
  · exact .inl (h.trans hlanes)
  · exact .inr ⟨x, hx.raises.of_lanes hlanes, hx.outcome⟩

theorem turns_rewind (d : Direction) (r : Relay Cursor) :
    (Cursor.rewind ctx d).Ensures (relay r) (fun _ c ↦ ∃ r', c = relay r' ∧ r'.lanes = r.lanes)
      fun _ c ↦ ∃ r', c = relay r' ∧ r'.lanes = r.lanes := by
  refine (ensures_rewind_iff (Nat.le_succ _)).2 (embeds_relay.ensures_rewind ?_)
  exact (Relay.lanes_rewind _ d r).mono (fun _ r' h ↦ ⟨r', rfl, h⟩) fun _ r' h ↦ ⟨r', rfl, h⟩

theorem turns_advance (d : Direction) (r : Relay Cursor) :
    (Cursor.advance ctx d).Ensures (relay r)
      (fun found c ↦ ∃ r', c = relay r' ∧ Turns ctx r (.ok (.found found)) r')
      fun e c ↦ ∃ r', c = relay r' ∧ Turns ctx r (.error e) r' := by
  obtain ⟨sources, lanes, active, standing⟩ := r
  refine (ensures_advance_iff (Nat.le_succ _)).2 (embeds_relay.ensures_advance ?_)
  refine (Relay.advance_comes _ ctx d _).mono ?_ ?_
  · rintro found r' ⟨o, rfl, hcomes, hposition⟩
    refine ⟨r', rfl, ?_⟩
    rcases hcomes with ⟨hlanes, -⟩ | ⟨x, hx, ho⟩
    · exact .inl hlanes
    · cases hasked : (r'.asked ctx x).2 with
      | error e => simp [hasked, Except.map] at ho
      | ok x' =>
        obtain rfl : some x' = o := by simpa [hasked, Except.map] using ho
        exact .inr ⟨x, hx, .inl ⟨x', hasked, rfl, hposition⟩⟩
  · rintro e r' hcomes
    refine ⟨r', rfl, ?_⟩
    rcases hcomes with ⟨hlanes, -⟩ | ⟨x, hx, ho⟩
    · exact .inl hlanes
    · cases hasked : (r'.asked ctx x).2 with
      | ok x' => simp [hasked, Except.map] at ho
      | error e' =>
        obtain rfl : e' = e := by simpa [hasked, Except.map] using ho
        exact .inr ⟨x, hx, .inr ⟨e', hasked, rfl⟩⟩

theorem lanes_release (cause : Option SearchError) (r : Relay Cursor) :
    (Cursor.release cause).Ensures (relay r) (fun _ c ↦ ∃ r', c = relay r' ∧ r'.lanes = r.lanes)
      fun _ c ↦ ∃ r', c = relay r' ∧ r'.lanes = r.lanes := by
  obtain ⟨sources, lanes, active, standing⟩ := r
  have hsame : ∀ (o : Except SearchError Unit) (sources' : List Cursor)
      (standing' : Standing Candidate),
      Effect.Ensures (pure (o, relay ⟨sources', lanes, active, standing'⟩)) fun p ↦
        Meets (fun _ ↦ ∃ r', p.2 = relay r' ∧ r'.lanes = lanes)
          (fun _ ↦ ∃ r', p.2 = relay r' ∧ r'.lanes = lanes) p.1 := by
    intro o sources' standing'
    cases o <;> exact Effect.ensures_pure ⟨_, rfl, rfl⟩
  refine Act.ensures_of ?_
  rw [releaseTree]
  split
  · exact hsame _ _ _
  · exact Effect.ensures_bind fun _ ↦ Effect.ensures_bind fun _ ↦ hsame _ _ _

/-- **A call to a disjunction tells its operands nothing, or it comes up with a candidate.** -/
theorem turns_call (call : Call) (r : Relay Cursor) :
    (call.perform ctx).Ensures (relay r) (fun a c ↦ ∃ r', c = relay r' ∧ Turns ctx r (.ok a) r')
      fun e c ↦ ∃ r', c = relay r' ∧ Turns ctx r (.error e) r' := by
  have hquiet : ∀ {c : Cursor} {o : Except SearchError Answer},
      (∃ r', c = relay r' ∧ r'.lanes = r.lanes) → ∃ r', c = relay r' ∧ Turns ctx r o r' :=
    fun h ↦ h.imp fun r' h' ↦ ⟨h'.1, .inl h'.2⟩
  cases call with
  | rewind d =>
    exact Act.ensures_bind ((turns_rewind d r).mono (fun _ _ h ↦ Act.ensures_pure (hquiet h))
      fun _ _ h ↦ hquiet h)
  | begin d =>
    refine Act.ensures_bind (Act.ensures_bind ((turns_rewind d r).mono ?_ fun _ _ h ↦ hquiet h))
    rintro _ _ ⟨r₁, rfl, hlanes⟩
    refine (turns_advance d r₁).mono ?_ ?_
    · rintro found _ ⟨r', rfl, h⟩
      exact Act.ensures_pure ⟨r', rfl, h.of_lanes hlanes⟩
    · rintro e _ ⟨r', rfl, h⟩
      exact ⟨r', rfl, h.of_lanes hlanes⟩
  | advance d => exact Act.ensures_bind ((turns_advance d r).imp fun _ _ h ↦ Act.ensures_pure h)
  | get =>
    have hsame : ∃ r', relay r = relay r' ∧ r'.lanes = r.lanes := ⟨r, rfl, rfl⟩
    refine Act.ensures_bind (Act.ensures_get (Act.ensures_except_bind (fun _ _ ↦ hquiet hsame) ?_))
    exact fun _ _ ↦ Act.ensures_pure (hquiet hsame)
  | release cause =>
    exact Act.ensures_bind ((lanes_release cause r).mono (fun _ _ h ↦ Act.ensures_pure (hquiet h))
      fun _ _ h ↦ hquiet h)

theorem turns_report (ctx : Context) (call : Call) (t : Trace) (r : Relay Cursor) :
    ∃ r', (call.report ctx t (relay r)).after = relay r' ∧
      Turns ctx r (call.report ctx t (relay r)).outcome r' :=
  (turns_call call r).run (P := fun o c ↦ ∃ r', c = relay r' ∧ Turns ctx r o r') t

/-- After a call an operand has to skip what it had to skip before and what it was told of. -/
theorem skips_report_iff (call : Call) (t : Trace) (r : Relay Cursor) (j : Nat) (i : EntryId) :
    (call.report ctx t (relay r)).after.skips j i = true ↔
      r.skips j i = true ∨ (call.report ctx t (relay r)).Tells ctx j i := by
  obtain ⟨r', hr', hturns⟩ := turns_report ctx call t r
  have hmono : r.skips j i = true → r'.skips j i = true := by
    rcases hturns with hlanes | ⟨x, hx⟩
    · simp [Relay.skips_of_lanes hlanes]
    · simp +contextual [hx.raises.skips]
  rw [hr']
  constructor
  · intro hskips
    rcases hturns with hlanes | ⟨x, hx⟩
    · exact .inl ((Relay.skips_of_lanes hlanes j i).symm.trans hskips)
    · rw [skips, hx.raises.skips] at hskips
      rcases Bool.or_eq_true_iff.1 hskips with hskips | htold
      · exact .inl hskips
      · obtain ⟨hj, hi⟩ : j ∈ (r'.asked ctx x).1 ∧ x.id = i := by simpa using htold
        exact .inr ⟨r, r', x, rfl, hr', hx, hi, hj⟩
  · rintro (hskips | ⟨r₁, r₁', x, hbefore, hafter, hx, rfl, hj⟩)
    · exact hmono hskips
    · obtain rfl : r₁' = r' := Cursor.relay.inj (hafter.symm.trans hr')
      simp [skips, hx.raises.skips, hj]

/-- A call that tells an operand of an entry emits the entry through another one, or withholds
it. -/
theorem Report.Tells.emits_or_withholds {report : Report} (h : report.Tells ctx j i) :
    (∃ k, k ≠ j ∧ report.Emits k i) ∨ report.Withholds ctx j i := by
  obtain ⟨r, r', x, hbefore, hafter, hx, rfl, hj⟩ := h
  rcases hx.outcome with ⟨x', hasked, houtcome, hposition⟩ | ⟨e, hasked, houtcome⟩
  · have hne : r'.active ≠ j := by
      have hinactive : j ∈ r'.inactive := (Relay.mem_ask hj).1
      rintro rfl
      simp [Relay.inactive] at hinactive
    exact .inl ⟨r'.active, hne, houtcome, r', x', hafter, rfl, hposition, Relay.ask_id hasked⟩
  · exact .inr ⟨⟨r, r', x, hbefore, hafter, hx, rfl, hj⟩, e, houtcome⟩

/-! ## Sessions -/

/-- Calls make no other cursor of a disjunction, and what an operand has to skip is what it was told
of in one of them. -/
theorem Session.skips_iff {operands : List (Cursor × Evaluator)} {reports : List Report}
    (h : Session ctx (relay (.fresh operands)) reports c) :
    (∃ r, c = relay r) ∧
      ∀ j i, c.skips j i = true ↔ ∃ report ∈ reports, report.Tells ctx j i := by
  induction h with
  | start => exact ⟨⟨_, rfl⟩, fun j i ↦ by simp [skips, Relay.skips_fresh]⟩
  | call _ call t ih =>
    obtain ⟨⟨r, rfl⟩, hskips⟩ := ih
    obtain ⟨r', hr', -⟩ := turns_report ctx call t r
    refine ⟨⟨r', hr'⟩, fun j i ↦ ?_⟩
    rw [skips_report_iff]
    simp only [List.mem_append, List.mem_singleton, or_and_right, exists_or, exists_eq_left,
      ← hskips j i, skips]

/-- **Every entry that an operand has to skip has been emitted through another one, if and only if
this is so for the entries that were withheld by calls that failed.** -/
theorem skips_emitted_iff {operands : List (Cursor × Evaluator)} {reports : List Report}
    (h : Session ctx (relay (.fresh operands)) reports c) :
    (∀ j i, c.skips j i = true ↔ ∃ report ∈ reports, report.Tells ctx j i) ∧
    ((∀ j i, c.skips j i = true → ∃ report ∈ reports, ∃ k, k ≠ j ∧ report.Emits k i) ↔
      ∀ report ∈ reports, ∀ j i, report.Withholds ctx j i →
        ∃ report' ∈ reports, ∃ k, k ≠ j ∧ report'.Emits k i) := by
  have hskips := h.skips_iff.2
  refine ⟨hskips, fun hall report hreport j i hwithholds ↦ ?_, fun hall j i hskip ↦ ?_⟩
  · exact hall j i ((hskips j i).2 ⟨report, hreport, hwithholds.1⟩)
  · obtain ⟨report, hreport, htells⟩ := (hskips j i).1 hskip
    rcases htells.emits_or_withholds with ⟨k, hk, hemits⟩ | hwithholds
    · exact ⟨report, hreport, k, hk, hemits⟩
    · exact hall report hreport j i hwithholds

/-- Two operands that list the same entry, after a move. -/
theorem skips_emitted_iff_common_entry :
    let ctx : Context := ⟨Store.empty.directory, .empty, .standard⟩
    let operands : List (Cursor × Evaluator) :=
      [(ofList [.bare 1], .all []), (ofList [.bare 1], .all [])]
    let report := (Call.advance .forward).report ctx (.start .warn false) (relay (.fresh operands))
    (∀ j i, report.after.skips j i = true ↔ ∃ rep ∈ [report], rep.Tells ctx j i) ∧
    ((∀ j i, report.after.skips j i = true → ∃ rep ∈ [report], ∃ k, k ≠ j ∧ rep.Emits k i) ↔
      ∀ rep ∈ [report], ∀ j i, rep.Withholds ctx j i →
        ∃ rep' ∈ [report], ∃ k, k ≠ j ∧ rep'.Emits k i) :=
  skips_emitted_iff (.call .start (.advance .forward) (.start .warn false))

/-- An operand can have to skip an entry that was never emitted.  The first operand comes up with
the entry 1, the second one accepts it, the third one cannot, for its record is missing; and when
the traversal goes on, no operand comes up with anything. -/
theorem skips_never_emitted :
    let ctx : Context := ⟨Store.empty.directory, .empty, .standard⟩
    let test : Test :=
      ⟨⟨"cn", .present⟩, ⟨.commonName, [], ⟨"1.1", "text", true⟩, none⟩, .present⟩
    let operands : List (Cursor × Evaluator) :=
      [(ofList [.bare 1], .all []), (ofList [.bare 1], .all []), (ofList [], .leaf test)]
    let first := (Call.advance .forward).report ctx (.start .warn false) (relay (.fresh operands))
    let second := (Call.advance .forward).report ctx (.start .warn false) first.after
    Session ctx (relay (.fresh operands)) [first, second] second.after ∧
      second.outcome = .ok (.found false) ∧ second.after.skips 1 1 = true ∧
      ∀ report ∈ [first, second], ∀ k i, ¬report.Emits k i := by
  intro ctx test operands first second
  have hstart : Session ctx (relay (.fresh operands)) [first] first.after :=
    .call .start (.advance .forward) (.start .warn false)
  have hsession : Session ctx (relay (.fresh operands)) [first, second] second.after :=
    hstart.call (.advance .forward) (.start .warn false)
  have hfirst : first.outcome.isOk = false := by decide +kernel
  have hsecond : ends (second.outcome, second.after) = true := by decide +kernel
  have hskips : second.after.skips 1 1 = true := by decide +kernel
  -- What the two calls have come to is all that matters from here on.
  clear_value second first
  have hend : second.outcome = .ok (.found false) := congrArg Prod.fst (eq_of_ends hsecond)
  refine ⟨hsession, hend, hskips, fun report hreport k i hemits ↦ ?_⟩
  rcases List.mem_pair.1 hreport with rfl | rfl
  · simp [hemits.1, Except.isOk, Except.toBool] at hfirst
  · simp [hemits.1] at hend

end Cursor
end DirectoryQuery
