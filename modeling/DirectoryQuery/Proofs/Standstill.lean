import DirectoryQuery.Proofs.Parts
import DirectoryQuery.Proofs.Schemas
import DirectoryQuery.Proofs.Sessions

/-!
# Moves that fail

A move can fail on the way: at a monitor, at a condition that cannot be put to a candidate, at an
operand that is asked about one.  A cursor changes its own standing last, when nothing can fail any
more, so a move that fails leaves it where it was, with the candidate it had.

There is one exception.  A disjunction that was never moved begins with its own call to go to the
edge, where a sieve sends only its source there.  So once this call has been made, the disjunction
stands at the edge, and stays there when the move fails later on (`Cursor.startsOver`).  It has no
candidate before and none afterwards, but the next move in the other direction then does not begin
at the other end any more.
-/

set_option autoImplicit false

namespace DirectoryQuery

/-! ## Where relays stand -/

namespace Relay

variable {σ : Type} {w : Walker σ} {ctx : Context} {d : Direction} {r : Relay σ}
  {standing : Standing Candidate}

/-- Nothing but the last step of a move changes where a relay stands. -/
theorem standing_onActive {α : Type} {otherwise : α} (act : Act σ α) :
    (onActive otherwise act).Keeps fun r ↦ r.standing = standing := by
  intro r hr
  cases hsource : r.sources[r.active]? with
  | none => exact ensures_onActive_none hsource hr
  | some source =>
    exact ensures_onActive hsource (Act.ensures_of_forall (fun _ _ ↦ hr) fun _ _ ↦ hr)

theorem standing_activate (w : Walker σ) (d : Direction) (j : Nat) :
    (activate w d j).Keeps fun r ↦ r.standing = standing :=
  .bind (.modify fun _ hr ↦ hr) fun _ ↦ standing_onActive _

theorem standing_seekActive (w : Walker σ) (ctx : Context) (d : Direction) :
    (seekActive w ctx d).Keeps fun r ↦ r.standing = standing := by
  refine .bind .get fun r ↦ .bind (standing_onActive _) fun found ↦ ?_
  cases found with
  | none => exact .pure none
  | some c => exact .bind (keeps_announce (fun _ _ _ hr ↦ hr) _ c) fun _ ↦ .pure _

theorem standing_sweep (w : Walker σ) (ctx : Context) (d : Direction) (operands : Nat) :
    (sweep w ctx d operands).Keeps fun r ↦ r.standing = standing := by
  induction operands with
  | zero => exact .pure none
  | succ operands ih =>
    refine .bind (standing_seekActive w ctx d) fun found ↦ ?_
    cases found with
    | some c => exact .pure _
    | none =>
      refine .bind .get fun r ↦ ?_
      cases r.nextOperand? d with
      | none => exact .pure none
      | some j => exact .bind (standing_activate w d j) fun _ ↦ ih

theorem standing_rewind (w : Walker σ) (d : Direction) (r : Relay σ) :
    (rewind w d).Ensures r (fun _ r' ↦ r'.standing = r.standing.moveTo (.start d))
      fun _ r' ↦ r'.standing = r.standing := by
  refine Act.ensures_bind (Act.ensures_get (Act.ensures_except_bind (fun _ _ ↦ rfl) fun _ _ ↦ ?_))
  refine Act.ensures_bind ((standing_activate w d _ r rfl).imp fun _ r' hr' ↦ ?_)
  exact Act.ensures_modify (congrArg (Standing.moveTo · _) hr')

/-- When a move fails, a relay stands at the edge if it was never moved before and got there, and
where it stood otherwise.  Whether it gets there is given. -/
theorem standing_advance {edge : Bool}
    (h : (rewind w d).Ensures r (fun _ _ ↦ edge = true) fun _ _ ↦ edge = false) :
    (advance w ctx d).Ensures r (fun _ _ ↦ True) fun _ r' ↦ r'.standing =
      if r.standing.position.isUnpositioned && edge then r.standing.moveTo (.start d)
      else r.standing := by
  generalize hlater : (if r.standing.position.isUnpositioned && edge then
    r.standing.moveTo (.start d) else r.standing) = later
  have hmoved : r.standing.position.isUnpositioned = false → r.standing = later := by
    intro hfalse
    rw [← hlater, hfalse]
    rfl
  refine ensures_advance (I := fun r' ↦ r'.standing = later) (fun hclosed ↦ hmoved ?_)
    (fun hfresh ↦ ?_) hmoved fun r' hr' ↦ ?_
  · cases hposition : r.standing.position <;>
      first | rfl | (rw [hposition] at hclosed; cases hclosed)
  · rw [← hlater, hfresh]
    refine ((standing_rewind w d r).and h).mono ?_ ?_
    · rintro _ r' ⟨hr', rfl⟩
      exact hr'
    · rintro _ r' ⟨hr', rfl⟩
      exact hr'
  · exact (standing_sweep w ctx d r.size r' hr').mono (fun _ _ _ ↦ trivial) fun _ _ hr'' ↦ hr''

end Relay

namespace Cursor

variable {ctx : Context} {d : Direction} {c c' : Cursor}

/-! ## What a failed move changes -/

/-- The cursor is a disjunction that was never moved, behind monitors or not, and a move begins with
it getting to the edge. -/
def startsOver (ctx : Context) (d : Direction) : Cursor → Bool
  | reel _ | sieve _ => false
  | monitored m inner => m.refusal?.isNone && startsOver ctx d inner
  | relay r =>
    r.standing.position.isUnpositioned && ((Cursor.rewind ctx d).outcome (relay r)).1.isOk

/-- What the cursor shows is the same, but for the position of one that starts over. -/
def StandsStill (ctx : Context) (d : Direction) (c c' : Cursor) : Prop :=
  c'.current = c.current ∧
    c'.position = if c.startsOver ctx d then .start d else c.position

theorem position_of_startsOver : ∀ c : Cursor, c.startsOver ctx d = true →
    c.position = .unpositioned
  | reel _, h | sieve _, h => by rw [startsOver] at h; cases h
  | monitored _ inner, h => by
    rw [startsOver, Bool.and_eq_true] at h
    exact position_of_startsOver inner h.2
  | relay ⟨_, _, _, ⟨p, _⟩⟩, h => by
    rw [startsOver, Bool.and_eq_true] at h
    cases p <;> first | rfl | cases h.1

/-- Whether a cursor gets to the edge does not depend on what was logged before. -/
theorem rewind_isOk (ctx : Context) (d : Direction) (c : Cursor) :
    (Cursor.rewind ctx d).Ensures c
      (fun _ _ ↦ ((Cursor.rewind ctx d).outcome c).1.isOk = true)
      fun _ _ ↦ ((Cursor.rewind ctx d).outcome c).1.isOk = false := by
  have hreads : ∀ c : Cursor, c.Reads fun _ _ ↦ True := fun _ part _ ↦ part.reads_true
  have hsteady : (Cursor.rewind ctx d).Steady := fun c ↦ by
    rw [perform_rewind (Nat.le_refl _)]
    exact ((walker_stays Footprint.allows_true ctx.reads_true _ (hreads c)).rewind d c rfl).steady
  refine (hsteady.ensures c).mono ?_ ?_
  · exact fun _ _ h ↦ by rw [h]; rfl
  · exact fun _ _ h ↦ by rw [h]; rfl

theorem standsStill_reel (r : Reel) (d : Direction) : (Cursor.advance ctx d).Ensures (reel r)
    (fun _ _ ↦ True) fun _ c' ↦ StandsStill ctx d (reel r) c' := by
  refine (ensures_advance_iff (Nat.le_refl _)).2 (embeds_reel.ensures_advance ?_)
  refine Act.ensures_bind (Act.ensures_get (Act.ensures_bind (Act.ensures_set ?_)))
  cases r.monitor.bind Monitor.refusal? with
  | some e => exact Act.ensures_throw ⟨rfl, rfl⟩
  | none =>
    refine Reel.ensures_onListing (Act.ensures_bind (Act.ensures_get ?_))
    refine Act.ensures_except_bind (fun _ _ ↦ ⟨rfl, rfl⟩) fun _ _ ↦ ?_
    exact Act.ensures_bind (Act.ensures_set (Act.ensures_pure trivial))

theorem standsStill_sieve (s : Sieve Cursor) (d : Direction) :
    (Cursor.advance ctx d).Ensures (sieve s) (fun _ _ ↦ True)
      fun _ c' ↦ StandsStill ctx d (sieve s) c' := by
  refine (ensures_advance_iff (Nat.le_succ _)).2 (embeds_sieve.ensures_advance ?_)
  refine Sieve.ensures_advance (I := fun _ ↦ True) (fun _ ↦ ⟨rfl, rfl⟩) (fun _ ↦ ?_)
    (fun _ ↦ trivial) fun _ _ ↦ ?_
  · exact Act.ensures_of_forall (fun _ _ ↦ trivial) fun _ _ ↦ ⟨rfl, rfl⟩
  · exact Act.ensures_of_forall (fun _ _ ↦ trivial) fun _ _ ↦ ⟨rfl, rfl⟩

theorem standsStill_relay (r : Relay Cursor) (d : Direction) :
    (Cursor.advance ctx d).Ensures (relay r) (fun _ _ ↦ True)
      fun _ c' ↦ StandsStill ctx d (relay r) c' := by
  have hedge := (ensures_rewind_iff (Nat.le_succ (relay r).height)).1 (rewind_isOk ctx d (relay r))
  rw [Act.Ensures, embeds_relay.rewind] at hedge
  refine (ensures_advance_iff (Nat.le_succ _)).2 (embeds_relay.ensures_advance ?_)
  refine (Relay.standing_advance hedge).mono (fun _ _ _ ↦ trivial) fun _ r' hr' ↦ ?_
  cases hover : startsOver ctx d (relay r) with
  | false =>
    replace hr' : r'.standing = r.standing := hr'.trans (if_neg (Bool.eq_false_iff.1 hover))
    simp [StandsStill, hover, current, position, Relay.current, hr']
  | true =>
    -- neither before nor afterwards there is an element
    replace hr' : r'.standing = r.standing.moveTo (.start d) := hr'.trans (if_pos hover)
    have hbefore := position_of_startsOver _ hover
    have hafter : (relay r').position = .start d := by
      rw [position, hr']
      cases d <;> rfl
    refine ⟨?_, by rw [hafter, hover]; rfl⟩
    rw [current_of_off _ (by cases d <;> simp [hafter, Position.start]),
      current_of_off _ (by simp [hbefore]), isClosed, isClosed, hafter, hbefore]
    cases d <;> rfl

/-- **A move that fails leaves a cursor where it was, unless it starts over.** -/
theorem standsStill_advance (ctx : Context) (d : Direction) : ∀ c : Cursor,
    (Cursor.advance ctx d).Ensures c (fun _ _ ↦ True) fun _ c' ↦ StandsStill ctx d c c'
  | reel r => standsStill_reel r d
  | sieve s => standsStill_sieve s d
  | relay r => standsStill_relay r d
  | monitored m inner => by
    rw [ensures_advance_iff (Nat.le_refl _), height, Act.Ensures, advance_monitored]
    cases hrefusal : m.refusal? with
    | some e =>
      refine Effect.ensures_pure ⟨rfl, ?_⟩
      simp [startsOver, hrefusal, position]
    | none =>
      have hinner := (ensures_advance_iff (Nat.le_refl _)).1 (standsStill_advance ctx d inner)
      refine Effect.ensures_bind (Effect.Ensures.mono hinner fun r hr ↦ Effect.ensures_pure ?_)
      refine hr.mono (fun _ _ ↦ trivial) fun _ h ↦ ⟨h.1, ?_⟩
      have hsame : startsOver ctx d (monitored m inner) = startsOver ctx d inner := by
        simp [startsOver, hrefusal]
      rw [hsame]
      exact h.2

/-- **A move that fails leaves the candidate as it is, and the position too unless the cursor starts
over**, which only one that was never moved can do. -/
theorem standsStill_of_error {t : Trace} {e : SearchError}
    (h : (Call.advance d).run ctx t c = (.error e, c')) :
    c'.current = c.current ∧ (c'.position = c.position ↔ c.startsOver ctx d = false) ∧
      (c.startsOver ctx d = true → c.position = .unpositioned ∧ c'.position = .start d) := by
  have hcall : ((Call.advance d).perform ctx).Ensures c (fun _ _ ↦ True)
      fun _ c' ↦ StandsStill ctx d c c' :=
    Act.ensures_bind ((standsStill_advance ctx d c).imp fun _ _ _ ↦ Act.ensures_pure trivial)
  obtain ⟨hcurrent, hposition⟩ : StandsStill ctx d c c' := by
    have hrun : Meets _ (fun _ ↦ StandsStill ctx d c ((Call.advance d).run ctx t c).2)
      ((Call.advance d).run ctx t c).1 := hcall t
    rw [h] at hrun
    exact hrun
  refine ⟨hcurrent, ?_, fun hover ↦ ⟨position_of_startsOver c hover, ?_⟩⟩
  · cases hover : c.startsOver ctx d with
    | false => simp [hposition, hover]
    | true =>
      rw [hposition, hover, position_of_startsOver c hover]
      cases d <;> simp [Position.start]
  · rw [hposition, if_pos hover]

/-- The test whether an entry has a name. -/
def nameTest : Test :=
  ⟨⟨"cn", .present⟩, ⟨.commonName, [], ⟨"1.1", "text", true⟩, none⟩, .present⟩

/-- A scan whose condition cannot be put to its only candidate, since there is no record. -/
theorem standsStill_of_error_scan :
    let ctx : Context := ⟨Store.empty.directory, .empty, .standard⟩
    let c : Cursor := sieve (.fresh (.matching (.leaf nameTest)) (ofList [.bare 1]) [])
    ∃ e c', (Call.advance .forward).run ctx (.start .warn false) c = (.error e, c') ∧
      c'.current = c.current ∧ (c'.position = c.position ↔ c.startsOver ctx .forward = false) ∧
      (c.startsOver ctx .forward = true →
        c.position = .unpositioned ∧ c'.position = .start .forward) := by
  intro ctx c
  have hfails : ((Call.advance .forward).run ctx (.start .warn false) c).1.isOk = false := by
    decide +kernel
  obtain ⟨⟨o, c'⟩, hrun⟩ : ∃ r, (Call.advance .forward).run ctx (.start .warn false) c = r :=
    ⟨_, rfl⟩
  rw [hrun] at hfails
  cases o with
  | ok a => cases hfails
  | error e => exact ⟨e, c', hrun, standsStill_of_error hrun⟩

/-- A disjunction that was never moved shows another position after its first move has failed.  The
first operand comes up with the entry 1, and the second one, asked about it, has no record to look
at. -/
theorem failed_move_reaches_edge :
    let ctx : Context := ⟨Store.empty.directory, .empty, .standard⟩
    let report := (Call.advance .forward).report ctx (.start .warn false)
      (relay (.fresh [(ofList [.bare 1], .all []), (ofList [], .leaf nameTest)]))
    report.outcome.isOk = false ∧ report.before.position = .unpositioned ∧
      report.after.position = .beforeFirst := by
  decide +kernel

end Cursor
end DirectoryQuery
