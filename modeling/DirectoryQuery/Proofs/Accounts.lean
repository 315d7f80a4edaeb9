import Mathlib.Algebra.Order.Ring.Int
import Mathlib.Algebra.Order.Pi
import DirectoryQuery.Proofs.Failures

/-!
# Counters account for the work done

What a search counts can be booked to an account: some things bring something in, others cost
something.  Which do is different from account to account, but in each of them a test pays for the
one look-up that it may make, and a candidate taken from a source pays for the look-up of its key,
for being passed over and for being handed on (`Account`).

Nothing is ever done on credit.  A computation is given what it may spend and hands back what it has
not spent (`Act.Affords`); a failure hands back nothing.  A move of a cursor is given nothing.  What
a sieve or relay needs to hand a candidate on, it has left over from the candidate taken from its
source (`Walker.Affords.seek`).

Hence, whatever is done with cursors and evaluators of one context, no account is ever overdrawn,
not even in the middle of a move (`Deed.affords_performAll`).  One account books candidates and
another one look-ups; that these two are in order is what the counters show
(`Deed.counters_balanced`).
-/

set_option autoImplicit false

namespace DirectoryQuery

variable {σ τ α β : Type}

/-! ## Accounts -/

/-- What each thing that is counted brings in, or costs if that is negative. -/
structure Account where
  value : Tally → Int
  /-- A test costs nothing. -/
  evaluation : 0 ≤ value .evaluation
  /-- A test pays for the look-up of an entry. -/
  record : 0 ≤ value .evaluation + value .recordLookup
  /-- A test pays for a reading in reverse. -/
  reverse : 0 ≤ value .evaluation + value .reverseLookup
  /-- To be handed on brings nothing in. -/
  emitted : value .emitted ≤ 0
  /-- A candidate pays for being handed on. -/
  found : 0 ≤ value .examined + value .emitted
  /-- A candidate pays for being passed over. -/
  skipped : 0 ≤ value .examined + value .skipped
  /-- A candidate pays for a reading in reverse and for being handed on after it. -/
  least : 0 ≤ value .examined + value .reverseLookup + value .emitted

namespace Account

/-- Candidates come in when they are examined, and go out once. -/
def ofCandidates : Account where
  value
    | .examined => 1
    | .emitted | .skipped => -1
    | _ => 0
  evaluation := by decide
  record := by decide
  reverse := by decide
  emitted := by decide
  found := by decide
  skipped := by decide
  least := by decide

/-- Every test and every candidate examined stands for one look-up. -/
def ofLookups : Account where
  value
    | .examined | .evaluation => 1
    | .recordLookup | .reverseLookup => -1
    | _ => 0
  evaluation := by decide
  record := by decide
  reverse := by decide
  emitted := by decide
  found := by decide
  skipped := by decide
  least := by decide

/-- What all that was counted comes to. -/
def balance (a : Account) (counts : List Tally) : Int := (counts.map a.value).sum

theorem balance_append (a : Account) (later earlier : List Tally) :
    a.balance (later ++ earlier) = a.balance later + a.balance earlier := by
  simp [balance]

end Account

/-- So much in each account. -/
abbrev Budget := Account → Int

namespace Budget

/-- What it brings in to count this. -/
def income (what : Tally) : Budget := fun a ↦ a.value what

/-- What has to be left when a candidate is found: what it costs to hand it on. -/
def price (found : Bool) : Budget := if found then -income .emitted else 0

theorem evaluation_nonneg : 0 ≤ income .evaluation := fun a ↦ a.evaluation

theorem le_add_record (before : Budget) :
    before ≤ before + income .evaluation + income .recordLookup := by
  rw [add_assoc]
  exact le_add_of_nonneg_right fun a ↦ a.record

theorem le_add_reverse (before : Budget) :
    before ≤ before + income .evaluation + income .reverseLookup := by
  rw [add_assoc]
  exact le_add_of_nonneg_right fun a ↦ a.reverse

theorem price_nonneg (found : Bool) : 0 ≤ price found := by
  intro a
  have hemitted := a.emitted
  cases found <;> simp [price, income, hemitted]

/-- What an examined candidate brings in is enough to hand it on. -/
theorem price_le (found : Bool) : price found ≤ income .examined := by
  intro a
  have hemitted := a.emitted
  have hfound := a.found
  cases found <;> simp [price, income] <;> omega

/-- What an examined candidate brings in is enough to look its key up and to hand it on. -/
theorem price_le_reverse (found : Bool) :
    price found ≤ income .examined + income .reverseLookup := by
  intro a
  have hemitted := a.emitted
  have hleast := a.least
  cases found <;> simp [price, income] <;> omega

theorem examined_nonneg : 0 ≤ income .examined := (price_nonneg false).trans (price_le false)

theorem reverse_nonneg : 0 ≤ income .examined + income .reverseLookup :=
  (price_nonneg false).trans (price_le_reverse false)

theorem skipped_nonneg : 0 ≤ income .examined + income .skipped := fun a ↦ a.skipped

/-- With so much at the outset no account is ever overdrawn, and so much is left in the end.  What
was counted last stands first. -/
structure Affords (before : Budget) (counts : List Tally) (after : Budget) : Prop where
  always (a : Account) (earlier : List Tally) : earlier <:+ counts →
    0 ≤ before a + a.balance earlier
  left (a : Account) : after a ≤ before a + a.balance counts

variable {before middle after : Budget} {counts counts' : List Tally} {what : Tally}

theorem Affords.nil (hbefore : 0 ≤ before) (hafter : after ≤ before) : before.Affords [] after where
  always a earlier h := by simpa [List.suffix_nil.1 h, Account.balance] using hbefore a
  left a := by simpa [Account.balance] using hafter a

theorem Affords.one (hbefore : 0 ≤ before) (hwhat : 0 ≤ before + income what) :
    before.Affords [what] (before + income what) where
  always a earlier h := by
    rcases List.suffix_cons_iff.1 h with rfl | h
    · simpa [Account.balance, income] using hwhat a
    · simpa [List.suffix_nil.1 h, Account.balance] using hbefore a
  left a := by simp [Account.balance, income]

theorem Affords.append (h : before.Affords counts middle) (h' : middle.Affords counts' after) :
    before.Affords (counts' ++ counts) after where
  always a earlier hearlier := by
    obtain hfirst | ⟨later, rfl⟩ :=
      List.suffix_or_suffix_of_suffix hearlier (List.suffix_append counts' counts)
    · exact h.always a earlier hfirst
    · obtain ⟨last, hlast⟩ := hearlier
      rw [← List.append_assoc] at hlast
      have hlater := h'.always a later ⟨last, List.append_cancel_right hlast⟩
      have hleft := h.left a
      rw [Account.balance_append]
      omega
  left a := by
    have hleft := h.left a
    have hleft' := h'.left a
    rw [Account.balance_append]
    omega

theorem Affords.mono {after' : Budget} (h : before.Affords counts after) (hafter : after' ≤ after) :
    before.Affords counts after' :=
  ⟨h.always, fun a ↦ (hafter a).trans (h.left a)⟩

end Budget

/-! ## What computations spend -/

/-- What is left in the end: what an answer leaves, and nothing after a failure. -/
def leftOver (after : α → Budget) : Except SearchError α → Budget
  | .ok x => after x
  | .error _ => 0

/-- With so much at the outset the effect never overdraws an account, and its answer leaves so much,
whatever the trace is. -/
def Effect.Affords (x : Effect α) (before : Budget) (after : α → Budget) : Prop :=
  Effect.Leaves x fun r p ↦ before.Affords p.counts (after r)

/-- With so much at the outset the attempt never overdraws an account, and an answer leaves so
much. -/
def Attempt.Affords (x : Attempt α) (before : Budget) (after : α → Budget) : Prop :=
  Effect.Affords x.run before (leftOver after)

/-- With so much at the outset the act never overdraws an account, whatever it is done to, and an
answer leaves so much. -/
def Act.Affords (act : Act σ α) (before : Budget) (after : α → Budget) : Prop :=
  ∀ s, Effect.Affords (act.perform s) before fun r ↦ leftOver after r.1

open Budget

variable {before : Budget} {after : α → Budget}

namespace Effect

theorem affords_pure {x : α} (hbefore : 0 ≤ before) (hafter : after x ≤ before) :
    Effect.Affords (pure x) before after :=
  leaves_pure (.nil hbefore hafter)

theorem affords_bind {x : Effect β} {f : β → Effect α} {between : β → Budget}
    (hx : Effect.Affords x before between)
    (hf : ∀ b, Effect.Affords (f b) (between b) after) :
    Effect.Affords (x >>= f) before after :=
  leaves_bind (Leaves.mono hx fun b _ hb ↦ Leaves.mono (hf b) fun _ _ hr ↦ hb.append hr)

/-- To turn the answer into another one costs nothing. -/
theorem affords_map {x : Effect β} {g : β → α}
    (hx : Effect.Affords x before fun b ↦ after (g b)) :
    Effect.Affords (x >>= fun b ↦ pure (g b)) before after :=
  leaves_bind (Leaves.mono hx fun _ _ hb ↦ leaves_pure (by rwa [Footprint.followed_nothing]))

/-- What counts nothing costs nothing. -/
theorem affords_of_matches {x y : Effect α} {Q : α → Prop}
    (h : Effect.Matches Tally.all x y Q) (hbefore : 0 ≤ before)
    (hafter : ∀ r, after r ≤ before) : Effect.Affords x before after := by
  refine Leaves.mono h.2 fun r p hp ↦ ?_
  rw [Footprint.counts_eq_nil hp.2]
  exact .nil hbefore (hafter r)

end Effect

@[simp] theorem leftOver_map {g : β → α} {o : Except SearchError β} :
    leftOver after (o.map g) = leftOver (fun x ↦ after (g x)) o := by
  cases o <;> rfl

theorem leftOver_le {o : Except SearchError α} (hbefore : 0 ≤ before)
    (hafter : ∀ x, after x ≤ before) : leftOver after o ≤ before := by
  cases o with
  | ok x => exact hafter x
  | error e => exact hbefore

namespace Attempt

/-- What counts nothing costs nothing. -/
theorem affords_of_matches {x y : Attempt α} {Q : α → Prop}
    (h : Attempt.Matches Tally.all x y Q) (hbefore : 0 ≤ before) :
    Attempt.Affords x before fun _ ↦ before :=
  Effect.affords_of_matches h hbefore fun _ ↦ leftOver_le hbefore fun _ ↦ le_rfl

end Attempt

namespace Act

theorem Affords.mono {act : Act σ α} {after' : α → Budget} (h : act.Affords before after)
    (hafter : ∀ x, after' x ≤ after x) : act.Affords before after' := by
  refine fun s ↦ Effect.Leaves.mono (h s) ?_
  rintro ⟨o, s'⟩ p hp
  cases o with
  | ok x => exact hp.mono (hafter x)
  | error e => exact hp

theorem affords_pure {x : α} (hbefore : 0 ≤ before) (hafter : after x ≤ before) :
    Act.Affords (pure x : Act σ α) before after :=
  fun _ ↦ Effect.affords_pure hbefore hafter

theorem affords_bind {x : Act σ β} {f : β → Act σ α} {between : β → Budget}
    (hx : x.Affords before between) (hf : ∀ b, (f b).Affords (between b) after) :
    (x >>= f).Affords before after := by
  intro s
  rw [perform_bind]
  refine Effect.affords_bind (hx s) ?_
  rintro ⟨o, s'⟩
  cases o with
  | ok b => exact hf b s'
  | error e => exact Effect.affords_pure le_rfl le_rfl

/-- What counts nothing costs nothing. -/
theorem affords_of_matches {x y : Act σ α} {I : σ → Prop} {Q : α → Prop}
    (h : Act.Matches Tally.all x y I Q) (hI : ∀ s, I s) (hbefore : 0 ≤ before) :
    x.Affords before fun _ ↦ before :=
  fun s ↦ Effect.affords_of_matches (h s (hI s)) hbefore fun _ ↦
    leftOver_le hbefore fun _ ↦ le_rfl

theorem affords_throw {e : SearchError} (hbefore : 0 ≤ before) :
    Act.Affords (throw e : Act σ α) before fun _ ↦ before :=
  fun _ ↦ Effect.affords_pure hbefore hbefore

theorem affords_get (hbefore : 0 ≤ before) :
    Act.Affords (get : Act σ σ) before fun _ ↦ before :=
  fun _ ↦ Effect.affords_pure hbefore le_rfl

theorem affords_set {s : σ} (hbefore : 0 ≤ before) :
    Act.Affords (set s : Act σ PUnit) before fun _ ↦ before :=
  fun _ ↦ Effect.affords_pure hbefore le_rfl

theorem affords_modify {f : σ → σ} (hbefore : 0 ≤ before) :
    Act.Affords (modify f : Act σ PUnit) before fun _ ↦ before :=
  fun _ ↦ Effect.affords_pure hbefore le_rfl

theorem affords_except {o : Except SearchError α} (hbefore : 0 ≤ before) :
    Act.Affords (liftM o : Act σ α) before fun _ ↦ before :=
  fun _ ↦ Effect.affords_pure hbefore (leftOver_le hbefore fun _ ↦ le_rfl)

theorem affords_tally {what : Tally} (hbefore : 0 ≤ before) (hwhat : 0 ≤ before + income what) :
    Act.Affords (liftM (tally what) : Act σ Unit) before fun _ ↦ before + income what := by
  intro s
  have htally : Act.Leaves (liftM (tally what) : Act σ Unit) s
      (fun _ _ p ↦ before.Affords p.counts (before + income what)) fun _ _ _ ↦ False :=
    leaves_effect (Effect.leaves_tally (.one hbefore hwhat))
  refine Effect.Leaves.mono htally ?_
  rintro ⟨o, s'⟩ p hp
  cases o with
  | ok x => exact hp
  | error e => exact hp.elim

/-- An attempt leaves the thing at hand as it is. -/
theorem affords_attempt {x : Attempt α} (h : Attempt.Affords x before after) :
    Act.Affords (Act.attempt x : Act σ α) before after :=
  fun _ ↦ Effect.affords_map h

theorem affords_within {part : τ → σ} {put : τ → σ → τ} {act : Act σ α}
    (h : act.Affords before after) : (act.within part put).Affords before after :=
  fun whole ↦ Effect.affords_map (h (part whole))

theorem affords_on {act : Act σ α} (h : act.Affords before after) (s : σ) :
    Attempt.Affords (act.on s) before fun r ↦ after r.1 :=
  Effect.affords_map (by simpa using h s)

end Act

/-! ## Tests and evaluators -/

/-- A reading of an index in reverse counts nothing by itself. -/
theorem Index.affords_firstKey? (x : Index) (id : EntryId) (wanted : Value → Bool)
    (hbefore : 0 ≤ before) : Attempt.Affords (x.firstKey? id wanted) before fun _ ↦ before :=
  Attempt.affords_of_matches (x.firstKey?_matches id wanted) hbefore

namespace Test

/-- To look an entry up costs what a test brings in. -/
theorem affords_entryOf (t : Test) (directory : Directory) (hbefore : 0 ≤ before) :
    (t.entryOf directory).Affords (before + income .evaluation) fun _ ↦ before := by
  have htest : before ≤ before + income .evaluation := le_add_of_nonneg_right evaluation_nonneg
  have hrecord := hbefore.trans (le_add_record before)
  refine Act.affords_bind (Act.affords_get (hbefore.trans htest)) fun c ↦ ?_
  cases c.record with
  | some e => exact Act.affords_pure (hbefore.trans htest) htest
  | none =>
    refine Act.affords_bind (Act.affords_tally (hbefore.trans htest) hrecord) fun _ ↦ ?_
    cases directory.lookup c.id with
    | ok e =>
      exact Act.affords_bind (Act.affords_set hrecord) fun _ ↦
        Act.affords_pure hrecord (le_add_record before)
    | error e => exact (Act.affords_throw hrecord).mono fun _ ↦ le_add_record before

/-- **A test pays for the look-up that it makes.** -/
theorem affords_evaluate (t : Test) (ctx : Context) (hbefore : 0 ≤ before) :
    (t.evaluate ctx).Affords before fun _ ↦ before := by
  have htest := add_nonneg hbefore evaluation_nonneg
  refine Act.affords_bind (Act.affords_tally hbefore htest) fun _ ↦ ?_
  cases ctx.reverseIndex? t.subject.type with
  | some x =>
    have hreverse := hbefore.trans (le_add_reverse before)
    refine Act.affords_bind (Act.affords_tally htest hreverse) fun _ ↦ ?_
    refine Act.affords_bind (Act.affords_get hreverse) fun c ↦ ?_
    refine Act.affords_bind (Act.affords_attempt (x.affords_firstKey? c.id _ hreverse)) fun _ ↦ ?_
    exact Act.affords_pure hreverse (le_add_reverse before)
  | none =>
    refine Act.affords_bind (t.affords_entryOf ctx.directory hbefore) fun e ↦ ?_
    cases t.firstValue? e with
    | none => exact Act.affords_pure hbefore le_rfl
    | some v =>
      cases t.assertion.isPresent with
      | true => exact Act.affords_pure hbefore le_rfl
      | false =>
        exact Act.affords_bind (Act.affords_modify hbefore) fun _ ↦
          Act.affords_pure hbefore le_rfl

end Test

namespace Formula

variable {p : α → Act σ Bool}

mutual
/-- A formula costs nothing to judge if none of its leaves does. -/
theorem affords_judge (hbefore : 0 ≤ before) (h : ∀ x, (p x).Affords before fun _ ↦ before) :
    ∀ f : Formula α, (f.judge p).Affords before fun _ ↦ before
  | all parts => affords_judgeAll hbefore h parts
  | any parts => affords_judgeAny hbefore h parts
  | not part =>
    Act.affords_bind (affords_judge hbefore h part) fun _ ↦ Act.affords_pure hbefore le_rfl
  | leaf x => h x
theorem affords_judgeAll (hbefore : 0 ≤ before) (h : ∀ x, (p x).Affords before fun _ ↦ before) :
    ∀ fs : List (Formula α), (judgeAll p fs).Affords before fun _ ↦ before
  | [] => Act.affords_pure hbefore le_rfl
  | part :: parts => by
    refine Act.affords_bind (affords_judge hbefore h part) fun accepted ↦ ?_
    cases accepted with
    | true => exact affords_judgeAll hbefore h parts
    | false => exact Act.affords_pure hbefore le_rfl
theorem affords_judgeAny (hbefore : 0 ≤ before) (h : ∀ x, (p x).Affords before fun _ ↦ before) :
    ∀ fs : List (Formula α), (judgeAny p fs).Affords before fun _ ↦ before
  | [] => Act.affords_pure hbefore le_rfl
  | part :: parts => by
    refine Act.affords_bind (affords_judge hbefore h part) fun accepted ↦ ?_
    cases accepted with
    | true => exact Act.affords_pure hbefore le_rfl
    | false => exact affords_judgeAny hbefore h parts
end

end Formula

theorem Evaluator.affords_evaluate (e : Evaluator) (ctx : Context) (hbefore : 0 ≤ before) :
    (e.evaluate ctx).Affords before fun _ ↦ before :=
  Formula.affords_judge hbefore (fun t ↦ t.affords_evaluate ctx hbefore) e

/-! ## Moves -/

/-- Moves neither need anything nor leave anything. -/
structure Walker.Affords (w : Walker σ) : Prop where
  rewind (d : Direction) : (w.rewind d).Affords 0 fun _ ↦ 0
  advance (d : Direction) : (w.advance d).Affords 0 fun _ ↦ 0

namespace Walker

variable {w : Walker σ}

/-- **A candidate that is found has been paid for.**  What it brings in when it is examined is at
the disposal of the acceptance, except for what it costs to hand it on. -/
theorem Affords.seek (hw : w.Affords) (d : Direction) {accept : Act Candidate Bool}
    (haccept : accept.Affords (income .examined) price) :
    (w.seek d accept).Affords 0 fun found ↦ price found.isSome := by
  refine Act.affords_bind (Act.affords_get le_rfl) fun s ↦ ?_
  generalize w.extent s + 1 = moves
  induction moves with
  | zero => exact Act.affords_pure le_rfl le_rfl
  | succ moves ih =>
    refine Act.affords_bind (hw.advance d) fun found ↦ ?_
    cases found with
    | false => exact Act.affords_pure le_rfl le_rfl
    | true =>
      have hexamined : 0 ≤ 0 + income .examined := by
        rw [zero_add]
        exact examined_nonneg
      refine Act.affords_bind (Act.affords_tally le_rfl hexamined) fun _ ↦ ?_
      refine Act.affords_bind (Act.affords_get hexamined) fun s ↦ ?_
      refine Act.affords_bind (Act.affords_except hexamined) fun c ↦ ?_
      rw [zero_add]
      refine Act.affords_bind (Act.affords_attempt (Act.affords_on haccept c)) fun accepted ↦ ?_
      obtain ⟨accepted, c'⟩ := accepted
      cases accepted with
      | true => exact Act.affords_pure (price_nonneg true) le_rfl
      | false => exact ih

theorem Affords.collect (hw : w.Affords) (d : Direction) :
    (w.collect d).Affords 0 fun _ ↦ 0 := by
  refine Act.affords_bind (hw.rewind d) fun _ ↦ Act.affords_bind (Act.affords_get le_rfl) fun s ↦ ?_
  generalize w.extent s + 1 = moves
  induction moves with
  | zero => exact Act.affords_pure le_rfl le_rfl
  | succ moves ih =>
    refine Act.affords_bind (hw.advance d) fun found ↦ ?_
    cases found with
    | false => exact Act.affords_pure le_rfl le_rfl
    | true =>
      refine Act.affords_bind (Act.affords_get le_rfl) fun s ↦ ?_
      refine Act.affords_bind (Act.affords_except le_rfl) fun c ↦ ?_
      exact Act.affords_bind ih fun _ ↦ Act.affords_pure le_rfl le_rfl

end Walker

/-! ### Acceptances -/

namespace Acceptance

/-- What leaves all that an examined candidate has brought in leaves enough to hand it on. -/
theorem affords_of_free {accept : Act Candidate Bool}
    (h : accept.Affords (income .examined) fun _ ↦ income .examined) :
    accept.Affords (income .examined) price :=
  h.mono price_le

/-- To find out whether a key is the least costs a reading in reverse. -/
theorem affords_isLeastKey (index : Index) (assertion : Assertion) (key : Value) :
    (isLeastKey index assertion key).Affords (income .examined) price := by
  refine Act.affords_bind (Act.affords_tally examined_nonneg reverse_nonneg) fun _ ↦ ?_
  refine Act.affords_bind (Act.affords_get reverse_nonneg) fun c ↦ ?_
  refine Act.affords_bind (Act.affords_attempt (index.affords_firstKey? c.id _ reverse_nonneg)) ?_
  exact fun _ ↦ Act.affords_pure reverse_nonneg (price_le_reverse _)

/-- An acceptance spends no more than an examined candidate has brought in. -/
theorem affords_accept (x : Acceptance) (ctx : Context) :
    (x.accept ctx).Affords (income .examined) price := by
  cases x with
  | matching e => exact affords_of_free (e.affords_evaluate ctx examined_nonneg)
  | rejecting e =>
    exact Act.affords_bind (e.affords_evaluate ctx examined_nonneg) fun _ ↦
      Act.affords_pure examined_nonneg (price_le _)
  | joint driver others =>
    refine affords_of_free (Formula.affords_judgeAll examined_nonneg (fun t ↦ ?_) others)
    exact t.affords_evaluate ctx examined_nonneg
  | indexed index assertion =>
    refine Act.affords_bind (Act.affords_get examined_nonneg) fun c ↦ ?_
    cases c.value.filter assertion.holds with
    | some key => exact affords_isLeastKey index assertion key
    | none => exact Act.affords_pure examined_nonneg (price_le false)
  | keyed =>
    exact Act.affords_bind (Act.affords_get examined_nonneg) fun _ ↦
      Act.affords_pure examined_nonneg (price_le _)

end Acceptance

/-! ### Sieves and relays -/

/-- What was found is handed on for what was kept for it. -/
theorem affords_handOn {moveTo : Act σ Unit} (hmove : moveTo.Affords 0 fun _ ↦ 0)
    (found : Option Candidate) :
    (do
      if found.isSome then tally .emitted
      moveTo
      return found.isSome : Act σ Bool).Affords (price found.isSome) fun _ ↦ 0 := by
  have hmoved : (do moveTo; return found.isSome : Act σ Bool).Affords 0 fun _ ↦ 0 :=
    Act.affords_bind hmove fun _ ↦ Act.affords_pure le_rfl le_rfl
  cases found with
  | none => exact hmoved
  | some c =>
    have hpaid : price (some c).isSome + income .emitted = 0 := neg_add_cancel _
    refine Act.affords_bind (Act.affords_tally (price_nonneg true) hpaid.ge) fun _ ↦ ?_
    rw [hpaid]
    exact hmoved

namespace Sieve

variable {w : Walker σ} {ctx : Context}

theorem affords_rewind (hw : w.Affords) (d : Direction) :
    (rewind w d).Affords 0 fun _ ↦ 0 := by
  refine Act.affords_bind (Act.affords_get le_rfl) fun s ↦ ?_
  refine Act.affords_bind (Act.affords_except le_rfl) fun _ ↦ ?_
  exact Act.affords_bind (Act.affords_within (hw.rewind d)) fun _ ↦ Act.affords_modify le_rfl

theorem affords_advance (hw : w.Affords) (d : Direction) :
    (advance w ctx d).Affords 0 fun _ ↦ 0 := by
  refine Act.affords_bind (Act.affords_get le_rfl) fun s ↦ ?_
  refine Act.affords_bind (Act.affords_except le_rfl) fun _ ↦ ?_
  have hrest : (do
      let found ← onSource (w.seek d (s.acceptance.accept ctx))
      if found.isSome then tally .emitted
      moveTo (.reached d found)
      return found.isSome : Act (Sieve σ) Bool).Affords 0 fun _ ↦ 0 :=
    Act.affords_bind (Act.affords_within (hw.seek d (s.acceptance.affords_accept ctx)))
      fun found ↦ affords_handOn (Act.affords_modify le_rfl) found
  cases s.standing.position.isUnpositioned with
  | true => exact Act.affords_bind (Act.affords_within (hw.rewind d)) fun _ ↦ hrest
  | false => exact hrest

end Sieve

namespace Relay

variable {w : Walker σ} {ctx : Context}

theorem affords_onActive {otherwise : α} {act : Act σ α} (h : act.Affords before after)
    (hbefore : 0 ≤ before) (hafter : after otherwise ≤ before) :
    (onActive otherwise act).Affords before after := by
  intro r
  cases hsource : r.sources[r.active]? with
  | none =>
    rw [perform_onActive_none hsource]
    exact Effect.affords_pure hbefore hafter
  | some source =>
    rw [perform_onActive hsource]
    exact Effect.affords_map (h source)

/-- A candidate that is passed over has paid for it. -/
theorem affords_unlessSkipped (skipped : Std.ExtTreeSet EntryId) :
    (unlessSkipped skipped).Affords (income .examined) price := by
  refine Act.affords_bind (Act.affords_get examined_nonneg) fun c ↦ ?_
  cases skipped.contains c.id with
  | true =>
    exact Act.affords_bind (Act.affords_tally examined_nonneg skipped_nonneg) fun _ ↦
      Act.affords_pure skipped_nonneg skipped_nonneg
  | false => exact Act.affords_pure examined_nonneg (price_le true)

theorem affords_announce (hbefore : 0 ≤ before) (js : List Nat) (c : Candidate) :
    (announce ctx js c : Act (Relay σ) Candidate).Affords before fun _ ↦ before := by
  induction js generalizing c with
  | nil => exact Act.affords_pure hbefore le_rfl
  | cons j js ih =>
    refine Act.affords_bind (Act.affords_get hbefore) fun r ↦ ?_
    cases r.lanes[j]? with
    | none => exact ih c
    | some lane =>
      have hjudge := lane.evaluator.affords_evaluate ctx hbefore
      refine Act.affords_bind (Act.affords_attempt (Act.affords_on hjudge c)) fun accepted ↦ ?_
      obtain ⟨accepted, c'⟩ := accepted
      cases accepted with
      | true => exact Act.affords_bind (Act.affords_modify hbefore) fun _ ↦ ih c'
      | false => exact ih c'

theorem affords_activate (hw : w.Affords) (d : Direction) (j : Nat) :
    (activate w d j).Affords 0 fun _ ↦ 0 :=
  Act.affords_bind (Act.affords_modify le_rfl) fun _ ↦
    affords_onActive (hw.rewind d) le_rfl le_rfl

theorem affords_rewind (hw : w.Affords) (d : Direction) :
    (rewind w d).Affords 0 fun _ ↦ 0 := by
  refine Act.affords_bind (Act.affords_get le_rfl) fun r ↦ ?_
  refine Act.affords_bind (Act.affords_except le_rfl) fun _ ↦ ?_
  exact Act.affords_bind (affords_activate hw d _) fun _ ↦ Act.affords_modify le_rfl

theorem affords_seekActive (hw : w.Affords) (d : Direction) :
    (seekActive w ctx d).Affords 0 fun found ↦ price found.isSome := by
  refine Act.affords_bind (Act.affords_get le_rfl) fun r ↦ ?_
  have hseek := hw.seek d (affords_unlessSkipped ((r.skippedBy? r.active).getD ∅))
  refine Act.affords_bind (affords_onActive hseek le_rfl le_rfl) fun found ↦ ?_
  cases found with
  | none => exact Act.affords_pure le_rfl le_rfl
  | some c =>
    have hprice := price_nonneg true
    exact Act.affords_bind (affords_announce hprice r.inactive c) fun _ ↦
      Act.affords_pure hprice le_rfl

theorem affords_sweep (hw : w.Affords) (d : Direction) (operands : Nat) :
    (sweep w ctx d operands).Affords 0 fun found ↦ price found.isSome := by
  induction operands with
  | zero => exact Act.affords_pure le_rfl le_rfl
  | succ operands ih =>
    refine Act.affords_bind (affords_seekActive hw d) fun found ↦ ?_
    cases found with
    | some c => exact Act.affords_pure (price_nonneg true) le_rfl
    | none =>
      refine Act.affords_bind (Act.affords_get le_rfl) fun r ↦ ?_
      cases r.nextOperand? d with
      | none => exact Act.affords_pure le_rfl le_rfl
      | some j => exact Act.affords_bind (affords_activate hw d j) fun _ ↦ ih

theorem affords_advance (hw : w.Affords) (d : Direction) :
    (advance w ctx d).Affords 0 fun _ ↦ 0 := by
  refine Act.affords_bind (Act.affords_get le_rfl) fun r ↦ ?_
  refine Act.affords_bind (Act.affords_except le_rfl) fun _ ↦ ?_
  have hrest : (do
      let found ← sweep w ctx d r.size
      if found.isSome then tally .emitted
      moveTo (.reached d found)
      return found.isSome : Act (Relay σ) Bool).Affords 0 fun _ ↦ 0 :=
    Act.affords_bind (affords_sweep hw d _) fun found ↦
      affords_handOn (Act.affords_modify le_rfl) found
  cases r.standing.position.isUnpositioned with
  | true => exact Act.affords_bind (affords_rewind hw d) fun _ ↦ hrest
  | false => exact hrest

end Relay

/-! ### Cursors -/

namespace Cursor

/-- To move a cursor of one kind is to move what it is made of. -/
theorem affords_made {act : Act σ α} {s : σ} (make : σ → Cursor) (h : act.Affords before after) :
    Effect.Affords (do let (outcome, s') ← act.perform s; return (outcome, make s')) before
      fun r ↦ leftOver after r.1 :=
  Effect.affords_map (h s)

/-- **Cursors move at their own expense**, of whatever kind they are and whatever fails. -/
theorem affords_walker (ctx : Context) (n : Nat) : (walker ctx n).Affords := by
  have hK : ∀ r : Reel, r.Carries fun _ ↦ True := fun _ _ _ ↦ trivial
  induction n with
  | zero =>
    exact ⟨fun _ ↦ Act.affords_pure le_rfl le_rfl, fun _ ↦ Act.affords_pure le_rfl le_rfl⟩
  | succ n ih =>
    refine ⟨fun d c ↦ ?_, fun d c ↦ ?_⟩
    · cases c with
      | reel r => exact affords_made reel (Act.affords_of_matches (Reel.matches_rewind d) hK le_rfl)
      | monitored m inner => exact affords_made (monitored m) (ih.rewind d)
      | sieve s => exact affords_made sieve (Sieve.affords_rewind ih d)
      | relay r => exact affords_made relay (Relay.affords_rewind ih d)
    · cases c with
      | reel r =>
        exact affords_made reel (Act.affords_of_matches (Reel.matches_advance d) hK le_rfl)
      | monitored m inner =>
        rw [advance_monitored]
        cases m.refusal? with
        | none => exact affords_made (monitored m.counted) (ih.advance d)
        | some e => exact Effect.affords_pure le_rfl le_rfl
      | sieve s => exact affords_made sieve (Sieve.affords_advance ih d)
      | relay r => exact affords_made relay (Relay.affords_advance ih d)

theorem affords_rewind (ctx : Context) (d : Direction) :
    (Cursor.rewind ctx d).Affords 0 fun _ ↦ 0 :=
  Act.affords_bind (Act.affords_get le_rfl) fun _ ↦ (affords_walker ctx _).rewind d

theorem affords_advance (ctx : Context) (d : Direction) :
    (Cursor.advance ctx d).Affords 0 fun _ ↦ 0 :=
  Act.affords_bind (Act.affords_get le_rfl) fun _ ↦ (affords_walker ctx _).advance d

theorem affords_collect (ctx : Context) (d : Direction) :
    (Cursor.collect ctx d).Affords 0 fun _ ↦ 0 :=
  Act.affords_bind (Act.affords_get le_rfl) fun _ ↦ (affords_walker ctx _).collect d

theorem affords_release (cause : Option SearchError) :
    (Cursor.release cause).Affords 0 fun _ ↦ 0 :=
  fun c ↦ Effect.affords_of_matches (releaseTree_matches cause c) le_rfl fun _ ↦
    leftOver_le le_rfl fun _ ↦ le_rfl

/-- A call to a cursor pays for itself. -/
theorem affords_call (ctx : Context) (call : Call) : (call.perform ctx).Affords 0 fun _ ↦ 0 := by
  cases call with
  | rewind d =>
    exact Act.affords_bind (affords_rewind ctx d) fun _ ↦ Act.affords_pure le_rfl le_rfl
  | begin d =>
    exact Act.affords_bind (Act.affords_bind (affords_rewind ctx d) fun _ ↦ affords_advance ctx d)
      fun _ ↦ Act.affords_pure le_rfl le_rfl
  | advance d =>
    exact Act.affords_bind (affords_advance ctx d) fun _ ↦ Act.affords_pure le_rfl le_rfl
  | get =>
    exact Act.affords_bind (Act.affords_get le_rfl) fun _ ↦
      Act.affords_bind (Act.affords_except le_rfl) fun _ ↦ Act.affords_pure le_rfl le_rfl
  | release cause =>
    exact Act.affords_bind (affords_release cause) fun _ ↦ Act.affords_pure le_rfl le_rfl

end Cursor

/-! ## Work at a desk -/

/-- The cursors and evaluators that have been made, all with the same counters. -/
structure Desk where
  cursors : List Cursor
  evaluators : List Evaluator

/-- Nothing has been made yet. -/
def Desk.bare : Desk := ⟨[], []⟩

/-- Something that is done at a desk.  Cursors and evaluators are told by the order in which they
were made. -/
inductive Deed where
  /-- Makes the operand of a filter, which is a cursor and an evaluator. -/
  | plan (f : Filter)
  /-- Makes the evaluator of a filter. -/
  | resolve (f : Filter)
  /-- Makes a call to a cursor. -/
  | call (cursor : Nat) (made : Cursor.Call)
  /-- Collects what a cursor has in one direction. -/
  | collect (cursor : Nat) (d : Direction)
  /-- Puts a candidate to an evaluator. -/
  | judge (evaluator : Nat) (c : Candidate)

namespace Desk

/-- An act on one of the cursors; without it nothing is done. -/
def onCursor (k : Nat) (act : Act Cursor α) : Act Desk Unit :=
  Act.of fun desk ↦
    match desk.cursors[k]? with
    | none => return (.ok (), desk)
    | some cursor => do
      let (outcome, changed) ← act.perform cursor
      return (outcome.map fun _ ↦ (), { desk with cursors := desk.cursors.set k changed })

theorem affords_onCursor {act : Act Cursor α} (h : act.Affords 0 fun _ ↦ 0) (k : Nat) :
    (onCursor k act).Affords 0 fun _ ↦ 0 := by
  intro desk
  rw [onCursor, Act.perform_of]
  cases desk.cursors[k]? with
  | none => exact Effect.affords_pure le_rfl le_rfl
  | some cursor => exact Effect.affords_map (by simpa using h cursor)

end Desk

namespace Deed

/-- Does it. -/
def perform (ctx : Context) : Deed → Act Desk Unit
  | plan f => do
    let o ← Act.attempt (ctx.plan f)
    modify fun desk ↦ ⟨desk.cursors ++ [o.cursor], desk.evaluators ++ [o.evaluator]⟩
  | resolve f => do
    let e ← Act.attempt (f.resolve ctx.schema)
    modify fun desk ↦ { desk with evaluators := desk.evaluators ++ [e] }
  | call k made => Desk.onCursor k (made.perform ctx)
  | collect k d => Desk.onCursor k (Cursor.collect ctx d)
  | judge k c => do
    match (← get).evaluators[k]? with
    | some e => let _ ← Act.attempt ((e.evaluate ctx).on c)
    | none => return ()

/-- Does one thing after the other, whatever they come to. -/
def performAll (ctx : Context) : List Deed → Desk → Effect Desk
  | [], desk => return desk
  | deed :: deeds, desk => do
    let (_, desk) ← (deed.perform ctx).perform desk
    performAll ctx deeds desk

/-- Whatever is done pays for itself. -/
theorem affords_perform (ctx : Context) (deed : Deed) :
    (deed.perform ctx).Affords 0 fun _ ↦ 0 := by
  cases deed with
  | plan f =>
    have hplan : Attempt.Matches Tally.all (ctx.plan f) (ctx.plan f) fun _ ↦ True :=
      Context.plan_matches ⟨rfl, rfl, rfl, fun _ ↦ rfl⟩ f
    exact Act.affords_bind (Act.affords_attempt (Attempt.affords_of_matches hplan le_rfl)) fun _ ↦
      Act.affords_modify le_rfl
  | resolve f =>
    have hresolve : Attempt.Matches Tally.all (f.resolve ctx.schema) (f.resolve ctx.schema)
        fun _ ↦ True := f.resolve_matches ctx.schema
    exact Act.affords_bind (Act.affords_attempt (Attempt.affords_of_matches hresolve le_rfl))
      fun _ ↦ Act.affords_modify le_rfl
  | call k made => exact Desk.affords_onCursor (Cursor.affords_call ctx made) k
  | collect k d => exact Desk.affords_onCursor (Cursor.affords_collect ctx d) k
  | judge k c =>
    refine Act.affords_bind (Act.affords_get le_rfl) fun desk ↦ ?_
    cases desk.evaluators[k]? with
    | none => exact Act.affords_pure le_rfl le_rfl
    | some e =>
      have hjudge := e.affords_evaluate ctx le_rfl
      exact Act.affords_bind (Act.affords_attempt (Act.affords_on hjudge c)) fun _ ↦
        Act.affords_pure le_rfl le_rfl

/-- **No account is ever overdrawn**, whatever is done and however it ends. -/
theorem affords_performAll (ctx : Context) (deeds : List Deed) (desk : Desk) :
    Effect.Affords (performAll ctx deeds desk) 0 fun _ ↦ 0 := by
  induction deeds generalizing desk with
  | nil => exact Effect.affords_pure le_rfl le_rfl
  | cons deed deeds ih =>
    have hdeed : Effect.Affords ((deed.perform ctx).perform desk) 0 fun _ ↦ 0 := by
      refine Effect.Leaves.mono (affords_perform ctx deed desk) ?_
      rintro ⟨o, desk'⟩ p hp
      cases o <;> exact hp
    exact Effect.affords_bind hdeed fun r ↦ ih r.2

end Deed

/-! ### The counters -/

namespace Counters

/-- The counters when these things have been counted, the last one first. -/
def counting (counts : List Tally) : Counters :=
  counts.foldr (fun what c ↦ c.increment what) zero

/-- No more candidates were handed on or passed over than were examined, and no more look-ups were
made than there were tests and candidates examined. -/
structure Balanced (c : Counters) : Prop where
  candidates : c.emitted + c.skipped ≤ c.examined
  lookups : c.recordLookups + c.reverseLookups ≤ c.evaluations + c.examined

theorem balance_ofCandidates (counts : List Tally) : Account.ofCandidates.balance counts =
    (counting counts).examined - ((counting counts).emitted + (counting counts).skipped) := by
  induction counts with
  | nil => rfl
  | cons what counts ih =>
    have hcons : counting (what :: counts) = (counting counts).increment what := rfl
    rw [Account.balance, List.map_cons, List.sum_cons, ← Account.balance, ih, hcons]
    cases what <;> simp [increment, Account.ofCandidates] <;> omega

theorem balance_ofLookups (counts : List Tally) : Account.ofLookups.balance counts =
    ((counting counts).evaluations + (counting counts).examined) -
      ((counting counts).recordLookups + (counting counts).reverseLookups) := by
  induction counts with
  | nil => rfl
  | cons what counts ih =>
    have hcons : counting (what :: counts) = (counting counts).increment what := rfl
    rw [Account.balance, List.map_cons, List.sum_cons, ← Account.balance, ih, hcons]
    cases what <;> simp [increment, Account.ofLookups] <;> omega

theorem balanced_of_balance {counts : List Tally} (h : ∀ a : Account, 0 ≤ a.balance counts) :
    (counting counts).Balanced := by
  have hcandidates := h .ofCandidates
  have hlookups := h .ofLookups
  rw [balance_ofCandidates] at hcandidates
  rw [balance_ofLookups] at hlookups
  exact ⟨by omega, by omega⟩

end Counters

/-- **The counters account for the work done.**  Whatever is done with cursors and evaluators of one
context, failures included, the counters are balanced in the end, and were so after each thing that
was counted on the way. -/
theorem Deed.counters_balanced (ctx : Context) (deeds : List Deed) (threshold : Severity) :
    ∃ counts, (StateT.run (performAll ctx deeds .bare) (.start threshold true)).2.counters =
        some (.counting counts) ∧ ∀ n, (Counters.counting (counts.drop n)).Balanced := by
  obtain ⟨p, hrun, hp⟩ := Effect.Leaves.run (affords_performAll ctx deeds .bare)
    (.start threshold true)
  refine ⟨p.counts, by rw [hrun]; rfl, fun n ↦ Counters.balanced_of_balance fun a ↦ ?_⟩
  simpa using hp.always a (p.counts.drop n) (List.drop_suffix n p.counts)

end DirectoryQuery
