import DirectoryQuery.Proofs.Passes

/-!
# What every cursor promises

Lists, sieves and relays keep where they stand, what they stand on and what is within them in
different places, and a call may fail halfway.  All the same some things can be relied on at any
moment, whatever calls were made before and however they ended (`Cursor.Orderly`): there is a
candidate exactly where the cursor stands on an element, a move that finds something ends on it and
any other at the edge, and after a release, be it a failed one, the cursor is closed for good.

`Cursor.Made` are the cursors that have just been made; what is within them may be in any state.
That they are orderly after any calls is `Cursor.orderly_session`.
-/

set_option autoImplicit false

namespace DirectoryQuery
namespace Cursor

variable {ctx : Context} {d : Direction} {c c' c₀ : Cursor}

/-! ## Sessions -/

/-- A call: the cursor before it, what it came to, and the cursor after it. -/
structure Report where
  before : Cursor
  outcome : Except SearchError Answer
  after : Cursor

/-- The report of a call made when so much has been logged and counted before. -/
def Call.report (ctx : Context) (t : Trace) (call : Call) (c : Cursor) : Report :=
  ⟨c, (call.run ctx t c).1, (call.run ctx t c).2⟩

/-- Calls are made to a cursor one after the other, whatever they come to. -/
inductive Session (ctx : Context) (c₀ : Cursor) : List Report → Cursor → Prop
  | start : Session ctx c₀ [] c₀
  | call {reports : List Report} {c : Cursor} (h : Session ctx c₀ reports c) (call : Call)
      (t : Trace) :
      Session ctx c₀ (reports ++ [call.report ctx t c]) (call.report ctx t c).after

/-- What every call keeps is kept in a session. -/
theorem Session.keeps {reports : List Report} {I : Cursor → Prop} (h : Session ctx c₀ reports c)
    (hcall : ∀ call : Call, (call.perform ctx).Keeps I) (h₀ : I c₀) : I c := by
  induction h with
  | start => exact h₀
  | call _ call t ih => exact (hcall call _ ih).changed t

/-! ## Cursors that were closed -/

/-- Whatever calls are made, the cursor is closed, refuses them all but releases, and does nothing
on its own or with what is within it. -/
def ClosedForever (ctx : Context) (c : Cursor) : Prop :=
  ∀ reports c', Session ctx c reports c' → c'.position = .closed ∧
    ∀ call : Call, (call.perform ctx).perform c' = pure (call.refusal, c')

theorem closedForever_of_shut (h : Shut c) : ClosedForever ctx c := by
  intro reports c' hsession
  have hshut : Shut c' := by
    refine hsession.keeps (fun call c hc ↦ ?_) h
    exact (call_of_shut (R := Eq) hc call).mono (fun _ _ hpost ↦ hpost.2) fun _ _ hpost ↦ hpost.2
  exact ⟨position_of_shut hshut, call_eq_of_shut hshut⟩

/-! ## Cursors that are in order -/

/-- A closed cursor, a list with a place in it to stand, a sieve or a relay. -/
inductive Sane : Cursor → Prop
  | shut {c : Cursor} (h : Shut c) : Sane c
  | listed {l : List Candidate} {p : Position Nat} (h : Listing.Sound l.length p) :
      Sane (listed l p)
  | sieve (s : Sieve Cursor) : Sane (sieve s)
  | relay (r : Relay Cursor) : Sane (relay r)

/-- The position after a move that has found something, or nothing. -/
def landing (d : Direction) (found : Bool) : Position Unit :=
  if found then .onElement () else .finish d

theorem map_reached {α : Type} (d : Direction) (o : Option α) :
    ((Position.reached d o).map fun _ ↦ ()) = landing d o.isSome := by
  cases o with
  | none => cases d <;> rfl
  | some a => rfl

theorem exists_element_iff (s : Standing Candidate) :
    (∃ a, s.element .get = .ok a) ↔ (s.position.map fun _ ↦ ()) = .onElement () := by
  obtain ⟨p, cause⟩ := s
  cases p <;> simp [Standing.element, Position.map]

theorem Sane.current_iff (h : Sane c) :
    (∃ a, c.current = .ok a) ↔ c.position = .onElement () := by
  cases h with
  | shut h =>
    have hposition := position_of_shut h
    rw [current_of_off c (by simp [hposition]), hposition]
    simp
  | @listed l p hp =>
    cases p with
    | onElement i =>
      have hi : i < l.length := hp
      exact iff_of_true ⟨l[i], current_listed (List.getElem?_eq_getElem hi)⟩ rfl
    | _ => exact iff_of_false nofun nofun
  | sieve s => exact exists_element_iff s.standing
  | relay r => exact exists_element_iff r.standing

theorem Sane.rewind (h : Sane c) (d : Direction) :
    (Cursor.rewind ctx d).Ensures c (fun _ c' ↦ Sane c') fun _ c' ↦ Sane c' := by
  cases h with
  | shut h =>
    rw [Act.Ensures, rewind_eq_of_shut h]
    exact Effect.ensures_pure (.shut h)
  | listed hp =>
    refine (rewind_listed hp.isClosed d).mono ?_ fun _ _ hfalse ↦ hfalse.elim
    rintro _ _ rfl
    exact .listed (Listing.sound_start _ d)
  | sieve s =>
    refine (ensures_rewind_iff (Nat.le_succ _)).2 (embeds_sieve.ensures_rewind ?_)
    exact Act.ensures_of_forall (fun _ ↦ .sieve) fun _ ↦ .sieve
  | relay r =>
    refine (ensures_rewind_iff (Nat.le_succ _)).2 (embeds_relay.ensures_rewind ?_)
    exact Act.ensures_of_forall (fun _ ↦ .relay) fun _ ↦ .relay

theorem Sane.advance (h : Sane c) (d : Direction) :
    (Cursor.advance ctx d).Ensures c (fun found c' ↦ Sane c' ∧ c'.position = landing d found)
      fun _ c' ↦ Sane c' := by
  cases h with
  | shut h =>
    rw [Act.Ensures, advance_eq_of_shut h]
    exact Effect.ensures_pure (.shut h)
  | listed hp =>
    refine (advance_listed hp.isClosed d).mono ?_ fun _ _ hfalse ↦ hfalse.elim
    rintro _ _ ⟨rfl, rfl⟩
    exact ⟨.listed (Listing.sound_neighbour hp d), map_reached d _⟩
  | sieve s =>
    refine (ensures_advance_iff (Nat.le_succ _)).2 (embeds_sieve.ensures_advance ?_)
    refine Sieve.ensures_advance (I := fun _ ↦ True) (fun _ ↦ .sieve _)
      (fun _ ↦ Act.ensures_of_forall (fun _ _ ↦ trivial) fun _ _ ↦ .sieve _) (fun _ ↦ trivial) ?_
    exact fun _ _ ↦ Act.ensures_of_forall (fun o _ ↦ ⟨.sieve _, map_reached d o⟩)
      fun _ _ ↦ .sieve _
  | relay r =>
    refine (ensures_advance_iff (Nat.le_succ _)).2 (embeds_relay.ensures_advance ?_)
    refine Relay.ensures_advance (I := fun _ ↦ True) (fun _ ↦ .relay _)
      (fun _ ↦ Act.ensures_of_forall (fun _ _ ↦ trivial) fun _ _ ↦ .relay _) (fun _ ↦ trivial) ?_
    exact fun _ _ ↦ Act.ensures_of_forall (fun o _ ↦ ⟨.relay _, map_reached d o⟩)
      fun _ _ ↦ .relay _

theorem Sane.begin (h : Sane c) (d : Direction) :
    (Cursor.begin ctx d).Ensures c (fun found c' ↦ Sane c' ∧ c'.position = landing d found)
      fun _ c' ↦ Sane c' :=
  Act.ensures_bind ((h.rewind d).imp fun _ _ h' ↦ h'.advance d)

/-- A release closes the cursor even if something within it cannot be released. -/
theorem Sane.release (h : Sane c) (cause : Option SearchError) :
    (Cursor.release cause).Ensures c (fun _ c' ↦ Shut c') fun _ c' ↦ Shut c' := by
  have hshut : ∀ (o : Except SearchError Unit) (c' : Cursor), Shut c' →
      Effect.Ensures (pure (o, c')) fun r ↦ Meets (fun _ ↦ Shut r.2) (fun _ ↦ Shut r.2) r.1 := by
    intro o c' hc'
    cases o <;> exact Effect.ensures_pure hc'
  cases h with
  | shut h =>
    rw [Act.Ensures, release_eq_of_shut h]
    exact hshut _ _ h
  | listed hp => exact (release_listed _ _ cause).mono (fun _ _ h ↦ h) fun _ _ hfalse ↦ hfalse.elim
  | sieve s =>
    obtain ⟨x, source, idle, standing⟩ := s
    refine Act.ensures_of ?_
    rw [releaseTree]
    split
    · exact hshut _ _ (by assumption)
    · refine Effect.ensures_bind fun _ ↦ Effect.ensures_bind fun _ ↦ ?_
      have hclosed := standing.isClosed_close cause
      cases x.readsIndex with
      | true => exact Effect.ensures_bind fun _ ↦ hshut _ _ hclosed
      | false => exact Effect.ensures_bind fun _ ↦ Effect.ensures_bind fun _ ↦ hshut _ _ hclosed
  | relay r =>
    obtain ⟨sources, lanes, active, standing⟩ := r
    refine Act.ensures_of ?_
    rw [releaseTree]
    split
    · exact hshut _ _ (by assumption)
    · refine Effect.ensures_bind fun _ ↦ Effect.ensures_bind fun _ ↦ ?_
      exact hshut _ _ (standing.isClosed_close cause)

/-- Every call leaves the cursor in order. -/
theorem sane_call (call : Call) : (call.perform ctx).Keeps Sane := by
  intro c hc
  cases call with
  | rewind d => exact Act.ensures_bind ((hc.rewind d).imp fun _ _ h ↦ Act.ensures_pure h)
  | begin d => exact Act.ensures_bind ((hc.begin d).imp fun _ _ h ↦ Act.ensures_pure h.1)
  | advance d => exact Act.ensures_bind ((hc.advance d).imp fun _ _ h ↦ Act.ensures_pure h.1)
  | get =>
    refine Act.ensures_bind (Act.ensures_get (Act.ensures_except_bind (fun _ _ ↦ hc) fun _ _ ↦ ?_))
    exact Act.ensures_pure hc
  | release cause =>
    exact Act.ensures_bind ((hc.release cause).mono (fun _ _ h ↦ Act.ensures_pure (.shut h))
      fun _ _ h ↦ .shut h)

/-! ## The promises -/

/-- What can be relied on whenever a cursor is called. -/
structure Orderly (ctx : Context) (c : Cursor) : Prop where
  current_iff : (∃ a, c.current = .ok a) ↔ c.position = .onElement ()
  advance (d : Direction) : (Cursor.advance ctx d).Ensures c
    (fun found c' ↦ c'.position = landing d found) fun _ _ ↦ True
  begin (d : Direction) : (Cursor.begin ctx d).Ensures c
    (fun found c' ↦ c'.position = landing d found) fun _ _ ↦ True
  release (cause : Option SearchError) : (Cursor.release cause).Ensures c
    (fun _ c' ↦ ClosedForever ctx c') fun _ c' ↦ ClosedForever ctx c'

/-- A cursor that was made from a list or from other cursors and not called yet.  The others may be
of any kind, monitored or not, and in any state. -/
inductive Made : Cursor → Prop
  | list (candidates : List Candidate) : Made (ofList candidates)
  | sieve (x : Acceptance) (source : Cursor) (idle : List Cursor) :
      Made (sieve (.fresh x source idle))
  | relay (operands : List (Cursor × Evaluator)) : Made (relay (.fresh operands))

theorem Made.sane (h : Made c) : Sane c := by
  cases h with
  | list candidates => exact .listed (p := .unpositioned) trivial
  | sieve x source idle => exact .sieve _
  | relay operands => exact .relay _

/-- **Whatever calls were made, a cursor is in order**: it has a candidate exactly where it stands
on an element, its moves end where they say, and a release closes it for good. -/
theorem orderly_session (hmade : Made c₀) {reports : List Report}
    (h : Session ctx c₀ reports c) : Orderly ctx c := by
  have hsane : Sane c := h.keeps sane_call hmade.sane
  refine ⟨hsane.current_iff, fun d ↦ ?_, fun d ↦ ?_, fun cause ↦ ?_⟩
  · exact (hsane.advance d).mono (fun _ _ h ↦ h.2) fun _ _ _ ↦ trivial
  · exact (hsane.begin d).mono (fun _ _ h ↦ h.2) fun _ _ _ ↦ trivial
  · exact (hsane.release cause).mono (fun _ _ h ↦ closedForever_of_shut h)
      fun _ _ h ↦ closedForever_of_shut h

/-- A disjunction one of whose operands fails when it is released, after a move and the release. -/
theorem orderly_session_stiff :
    let ctx : Context := ⟨Store.empty.directory, .empty, .standard⟩
    let stiff : Cursor := monitored ⟨"stiff", none, true, 0⟩ (ofList [.bare 1])
    let c₀ : Cursor := relay (.fresh [(stiff, .all []), (ofList [.bare 2], .all [])])
    let moved := (Call.begin .forward).run ctx (.start .warn false) c₀
    let released := (Call.release none).run ctx (.start .warn false) moved.2
    moved.1 = .ok (.found true) ∧
      released.1 = .error (.evaluation "stiff" "refused to close" none) ∧
      Orderly ctx moved.2 ∧ Orderly ctx released.2 := by
  intro ctx stiff c₀ moved released
  have hmoved : Session ctx c₀ _ moved.2 := .call .start (.begin .forward) (.start .warn false)
  refine ⟨rfl, rfl, orderly_session (.relay _) hmoved, ?_⟩
  exact orderly_session (.relay _) (hmoved.call (.release none) (.start .warn false))

end Cursor
end DirectoryQuery
