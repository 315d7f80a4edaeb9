import DirectoryQuery.Proofs.Extents
import DirectoryQuery.Proofs.Tracking

/-!
# Cursors under any calls

A cursor is used by calls: it is moved, asked for the candidate it stands on, and released.
`Cursor.Behaves` says that a cursor gives the same answers as another one, whatever calls are made,
and stands at the same position before and after each of them.  Failures have to be the same too.

With a cursor over a list as the other one, this is the same as moving over the list
(`Walker.Tracks`), as far as moves go.  That is shown in both directions: `Behaves.tracks` makes
use of a cursor that is known to behave, `behaves_of_tracks` shows that a cursor does.
-/

set_option autoImplicit false

namespace DirectoryQuery

namespace Cursor

/-! ## Calls -/

/-- A call to a cursor. -/
inductive Call where
  /-- Goes to the edge where a traversal in the direction begins. -/
  | rewind (d : Direction)
  /-- Goes to the first element that a traversal in the direction has. -/
  | begin (d : Direction)
  /-- Moves by one element. -/
  | advance (d : Direction)
  /-- Asks for the candidate. -/
  | get
  | release (cause : Option SearchError)

/-- The answer to a call that does not fail. -/
inductive Answer where
  | done
  | found (b : Bool)
  | candidate (c : Candidate)

/-- Makes the call. -/
def Call.perform (ctx : Context) : Call → Act Cursor Answer
  | rewind d => do return (fun _ ↦ .done) (← Cursor.rewind ctx d)
  | begin d => do return .found (← Cursor.begin ctx d)
  | advance d => do return .found (← Cursor.advance ctx d)
  | get => do return .candidate (← current (← MonadState.get))
  | release cause => do return (fun _ ↦ .done) (← Cursor.release cause)

/-- What the call comes to, and the cursor afterwards, when so much has been logged and counted
before. -/
def Call.run (ctx : Context) (t : Trace) (call : Call) (c : Cursor) :
    Except SearchError Answer × Cursor :=
  (StateT.run ((call.perform ctx).perform c) t).1

/-- Every call but a release. -/
def Call.IsMove : Call → Prop
  | release _ => False
  | _ => True

/-! ## The same answers -/

/-- The second answer is like the first: it is the same, or else both are candidates for the same
entry that match. -/
def Answer.Matches (R : Candidate → Candidate → Prop) : Answer → Answer → Prop
  | done, done => True
  | found b, found b' => b' = b
  | candidate c, candidate c' => c'.id = c.id ∧ R c c'
  | _, _ => False

/-- The second outcome is like the first. -/
def Alike (R : Candidate → Candidate → Prop) :
    Except SearchError Answer → Except SearchError Answer → Prop
  | .ok a, .ok a' => a.Matches R a'
  | .error e, .error e' => e' = e
  | _, _ => False

/-- Under the calls, one after the other, the cursor stands and answers as the other one. -/
def Resembles (ctx : Context) (R : Candidate → Candidate → Prop) :
    List Call → Cursor → Cursor → Prop
  | [], c, other => c.position = other.position
  | call :: calls, c, other => c.position = other.position ∧
      Effect.Ensures ((call.perform ctx).perform other) fun r ↦
        Effect.Ensures ((call.perform ctx).perform c) fun r' ↦
          Alike R r.1 r'.1 ∧ Resembles ctx R calls r'.2 r.2

/-- Under any calls of the allowed kind, the cursor stands and answers as the other one. -/
def Behaves (ctx : Context) (P : Call → Prop) (R : Candidate → Candidate → Prop)
    (c other : Cursor) : Prop :=
  ∀ calls, (∀ call ∈ calls, P call) → Resembles ctx R calls c other

variable {ctx : Context} {P : Call → Prop} {R : Candidate → Candidate → Prop} {c c' other : Cursor}
  {n : Nat} {d : Direction}

theorem Behaves.position_eq (h : Behaves ctx P R c other) : c.position = other.position :=
  h [] fun _ hcall ↦ absurd hcall List.not_mem_nil

/-- After a call the cursor still behaves as the other one. -/
theorem Behaves.step (h : Behaves ctx P R c other) {call : Call} (hcall : P call) :
    Effect.Ensures ((call.perform ctx).perform other) fun r ↦
      Effect.Ensures ((call.perform ctx).perform c) fun r' ↦
        Alike R r.1 r'.1 ∧ Behaves ctx P R r'.2 r.2 := by
  intro t t'
  have hcalls : ∀ calls, (∀ call ∈ calls, P call) → ∀ call' ∈ call :: calls, P call' :=
    fun calls hP ↦ List.forall_mem_cons.2 ⟨hcall, hP⟩
  refine ⟨((h [call] (hcalls [] fun _ hmem ↦ absurd hmem List.not_mem_nil)).2 t t').1, ?_⟩
  exact fun calls hP ↦ ((h (call :: calls) (hcalls calls hP)).2 t t').2

/-- Where the other cursor has an answer, the cursor has one like it. -/
theorem Behaves.answers (h : Behaves ctx P R c other) {call : Call} (hcall : P call) {a : Answer}
    {O : Cursor → Prop}
    (ha : (call.perform ctx).Ensures other (fun a' o ↦ a' = a ∧ O o) fun _ _ ↦ False) :
    (call.perform ctx).Ensures c (fun a' c' ↦ a.Matches R a' ∧ ∃ o, O o ∧ Behaves ctx P R c' o)
      fun _ _ ↦ False := by
  intro t
  have hboth := h.step hcall t t
  have hother := ha t
  revert hboth hother
  obtain ⟨o, s⟩ := (StateT.run ((call.perform ctx).perform other) t).1
  obtain ⟨o', s'⟩ := (StateT.run ((call.perform ctx).perform c) t).1
  rintro ⟨halike, hbehaves⟩ hother
  cases o with
  | error e => exact hother.elim
  | ok a' =>
    obtain ⟨rfl, hs⟩ := hother
    cases o' with
    | error e => exact halike.elim
    | ok a'' => exact ⟨halike, s, hs, hbehaves⟩

/-- Cursors that stand for each other behave alike, if every call leads to such cursors again. -/
theorem behaves_of_simulation {T : Cursor → Cursor → Prop}
    (hposition : ∀ c other, T c other → c.position = other.position)
    (hstep : ∀ c other, T c other → ∀ call, P call →
      Effect.Ensures ((call.perform ctx).perform other) fun r ↦
        Effect.Ensures ((call.perform ctx).perform c) fun r' ↦ Alike R r.1 r'.1 ∧ T r'.2 r.2)
    (h : T c other) : Behaves ctx P R c other := by
  intro calls hcalls
  induction calls generalizing c other with
  | nil => exact hposition c other h
  | cons call calls ih =>
    obtain ⟨hcall, hcalls⟩ := List.forall_mem_cons.1 hcalls
    refine ⟨hposition c other h, Effect.Ensures.mono (hstep c other h call hcall) fun r hr ↦ ?_⟩
    exact Effect.Ensures.mono hr fun r' hr' ↦ ⟨hr'.1, ih hr'.2 hcalls⟩

theorem eq_of_alike {o o' : Except SearchError Answer} (h : Alike Eq o o') : o' = o := by
  cases o with
  | error e =>
    cases o' with
    | error e' => exact congrArg _ h
    | ok a => exact h.elim
  | ok a =>
    cases o' with
    | error e => exact h.elim
    | ok a' =>
      refine congrArg Except.ok ?_
      cases a <;> cases a' <;> first | rfl | exact h.elim | skip
      · exact congrArg Answer.found h
      · exact congrArg Answer.candidate h.2.symm

/-- Two cursors that are known to come to like outcomes. -/
theorem ensures_alike {call : Call} {o : Except SearchError Answer} {C O : Cursor → Prop}
    (hother : (call.perform ctx).Ensures other (fun a c' ↦ Alike Eq o (.ok a) ∧ O c')
      fun e c' ↦ Alike Eq o (.error e) ∧ O c')
    (hc : (call.perform ctx).Ensures c (fun a c' ↦ Alike R o (.ok a) ∧ C c')
      fun e c' ↦ Alike R o (.error e) ∧ C c') :
    Effect.Ensures ((call.perform ctx).perform other) fun r ↦
      Effect.Ensures ((call.perform ctx).perform c) fun r' ↦
        Alike R r.1 r'.1 ∧ C r'.2 ∧ O r.2 := by
  refine Effect.Ensures.mono hother fun r hr ↦ Effect.Ensures.mono hc fun r' hr' ↦ ?_
  have hall : ∀ {S : Candidate → Candidate → Prop} {D : Cursor → Prop}
      {r : Except SearchError Answer × Cursor},
      Meets (fun a ↦ Alike S o (.ok a) ∧ D r.2) (fun e ↦ Alike S o (.error e) ∧ D r.2) r.1 →
        Alike S o r.1 ∧ D r.2 := by
    rintro S D ⟨o', c'⟩ hmeets
    cases o' <;> exact hmeets
  rw [eq_of_alike (hall hr).1]
  exact ⟨(hall hr').1, (hall hr').2, (hall hr).2⟩

/-! ## Moving a cursor -/

theorem ensures_rewind_iff {Q : Unit → Cursor → Prop} {E : SearchError → Cursor → Prop}
    (h : c.height ≤ n) : (Cursor.rewind ctx d).Ensures c Q E ↔
      ((walker ctx n).rewind d).Ensures c Q E := by
  rw [Act.Ensures, perform_rewind h]
  rfl

theorem ensures_advance_iff {Q : Bool → Cursor → Prop} {E : SearchError → Cursor → Prop}
    (h : c.height ≤ n) : (Cursor.advance ctx d).Ensures c Q E ↔
      ((walker ctx n).advance d).Ensures c Q E := by
  rw [Act.Ensures, perform_advance h]
  rfl

/-! ## Closed cursors -/

/-- The cursor is closed, and no monitor is in front of it. -/
def Shut : Cursor → Prop
  | reel r => r.monitor = none ∧ r.listing.standing.position.isClosed = true
  | monitored _ _ => False
  | sieve s => s.standing.position.isClosed = true
  | relay r => r.standing.position.isClosed = true

/-- What a closed cursor answers. -/
def Call.refusal : Call → Except SearchError Answer
  | rewind d | begin d => .error (.closedCursor d.rewinding)
  | advance d => .error (.closedCursor d.moving)
  | get => .error (.closedCursor .get)
  | release _ => .ok .done

/-- What closed cursors look like. -/
theorem Shut.eq_closed (h : Shut c) :
    (∃ cs cause, c = reel ⟨⟨cs, ⟨.closed, cause⟩⟩, none⟩) ∨
      (∃ x source idle cause, c = sieve ⟨x, source, idle, ⟨.closed, cause⟩⟩) ∨
      ∃ sources lanes active cause, c = relay ⟨sources, lanes, active, ⟨.closed, cause⟩⟩ := by
  have hclosed : ∀ {α : Type} (p : Position α), p.isClosed = true → p = .closed :=
    fun p hp ↦ by cases p <;> first | rfl | cases hp
  cases c with
  | reel r =>
    obtain ⟨⟨cs, ⟨p, cause⟩⟩, m⟩ := r
    obtain ⟨rfl, hp⟩ := h
    obtain rfl := hclosed p hp
    exact .inl ⟨cs, cause, rfl⟩
  | monitored m inner => exact h.elim
  | sieve s =>
    obtain ⟨x, source, idle, ⟨p, cause⟩⟩ := s
    obtain rfl := hclosed p h
    exact .inr (.inl ⟨x, source, idle, cause, rfl⟩)
  | relay r =>
    obtain ⟨sources, lanes, active, ⟨p, cause⟩⟩ := r
    obtain rfl := hclosed p h
    exact .inr (.inr ⟨sources, lanes, active, cause, rfl⟩)

theorem position_of_shut (h : Shut c) : c.position = .closed := by
  rcases h.eq_closed with ⟨_, _, rfl⟩ | ⟨_, _, _, _, rfl⟩ | ⟨_, _, _, _, rfl⟩ <;> rfl

/-- Off the elements a cursor has no candidate. -/
theorem current_of_off : ∀ c : Cursor, c.position ≠ .onElement () →
    c.current = .error (if c.isClosed then .closedCursor .get else .invalidPosition .get)
  | reel ⟨⟨_, ⟨p, _⟩⟩, _⟩, h => by cases p <;> first | rfl | exact absurd rfl h
  | monitored _ inner, h => current_of_off inner h
  | sieve ⟨_, _, _, ⟨p, _⟩⟩, h => by cases p <;> first | rfl | exact absurd rfl h
  | relay ⟨_, _, _, ⟨p, _⟩⟩, h => by cases p <;> first | rfl | exact absurd rfl h

theorem rewind_eq_of_shut (h : Shut c) (d : Direction) :
    (Cursor.rewind ctx d).perform c = pure (.error (.closedCursor d.rewinding), c) := by
  rw [perform_rewind (Nat.le_succ _)]
  rcases h.eq_closed with ⟨_, _, rfl⟩ | ⟨_, _, _, _, rfl⟩ | ⟨_, _, _, _, rfl⟩ <;> rfl

theorem advance_eq_of_shut (h : Shut c) (d : Direction) :
    (Cursor.advance ctx d).perform c = pure (.error (.closedCursor d.moving), c) := by
  rw [perform_advance (Nat.le_succ _)]
  rcases h.eq_closed with ⟨_, _, rfl⟩ | ⟨_, _, _, _, rfl⟩ | ⟨_, _, _, _, rfl⟩ <;> rfl

theorem release_eq_of_shut (h : Shut c) (cause : Option SearchError) :
    (Cursor.release cause).perform c = pure (.ok (), c) := by
  rw [release, Act.perform_of]
  rcases h.eq_closed with ⟨_, _, rfl⟩ | ⟨_, _, _, _, rfl⟩ | ⟨_, _, _, _, rfl⟩
  · rfl
  · rw [releaseTree]
    exact if_pos rfl
  · rw [releaseTree]
    exact if_pos rfl

/-- **A closed cursor refuses every call but a release, which does nothing.**  Neither it nor
anything within it changes, and nothing is logged. -/
theorem call_eq_of_shut (h : Shut c) (call : Call) :
    (call.perform ctx).perform c = pure (call.refusal, c) := by
  cases call with
  | rewind d =>
    rw [Call.perform, Act.perform_map, rewind_eq_of_shut h]
    rfl
  | begin d =>
    rw [Call.perform, Act.perform_map, begin, Act.perform_bind, rewind_eq_of_shut h]
    rfl
  | advance d =>
    rw [Call.perform, Act.perform_map, advance_eq_of_shut h]
    rfl
  | get => rcases h.eq_closed with ⟨_, _, rfl⟩ | ⟨_, _, _, _, rfl⟩ | ⟨_, _, _, _, rfl⟩ <;> rfl
  | release cause =>
    rw [Call.perform, Act.perform_map, release_eq_of_shut h]
    rfl

theorem call_of_shut (h : Shut c) (call : Call) :
    (call.perform ctx).Ensures c (fun a c' ↦ Alike R call.refusal (.ok a) ∧ Shut c')
      fun e c' ↦ Alike R call.refusal (.error e) ∧ Shut c' := by
  rw [Act.Ensures, call_eq_of_shut h]
  cases call <;> first | exact fun _ ↦ ⟨rfl, h⟩ | exact fun _ ↦ ⟨trivial, h⟩

/-! ## Cursors over a list -/

/-- The cursor over a list that stands at the position. -/
def listed (l : List Candidate) (p : Position Nat) : Cursor := reel ⟨⟨l, ⟨p, none⟩⟩, none⟩

variable {l : List Candidate} {p : Position Nat}

theorem position_listed (l : List Candidate) (p : Position Nat) :
    (listed l p).position = p.map fun _ ↦ () := rfl

theorem rewind_listed (hp : p.isClosed = false) (d : Direction) :
    (Cursor.rewind ctx d).Ensures (listed l p) (fun _ c ↦ c = listed l (.start d))
      fun _ _ ↦ False := by
  refine (ensures_rewind_iff (Nat.le_succ _)).2 (embeds_reel.ensures_rewind ?_)
  refine Reel.ensures_onListing (Act.ensures_bind (Act.ensures_get ?_))
  exact Act.ensures_ok_bind (Standing.checkOpen_eq_ok hp _) (Act.ensures_set rfl)

theorem advance_listed (hp : p.isClosed = false) (d : Direction) :
    (Cursor.advance ctx d).Ensures (listed l p)
      (fun found c ↦ found = (Listing.neighbour l.length d p).isSome ∧
        c = listed l (.reached d (Listing.neighbour l.length d p)))
      fun _ _ ↦ False := by
  refine (ensures_advance_iff (Nat.le_succ _)).2 (embeds_reel.ensures_advance ?_)
  refine Act.ensures_bind (Act.ensures_get (Act.ensures_bind (Act.ensures_set ?_)))
  refine Reel.ensures_onListing (Act.ensures_bind (Act.ensures_get ?_))
  refine Act.ensures_ok_bind (Standing.checkOpen_eq_ok hp _) ?_
  exact Act.ensures_bind (Act.ensures_set (Act.ensures_pure ⟨rfl, rfl⟩))

theorem current_listed {i : Nat} {a : Candidate} (ha : l[i]? = some a) :
    (listed l (.onElement i)).current = .ok a :=
  Listing.current_eq rfl ha

theorem release_listed (l : List Candidate) (p : Position Nat) (cause : Option SearchError) :
    (Cursor.release cause).Ensures (listed l p) (fun _ c ↦ Shut c) fun _ _ ↦ False := by
  refine Effect.ensures_bind (Effect.Ensures.mono (Reel.release_spec rfl cause) ?_)
  exact fun r hr ↦ Effect.ensures_pure hr

/-- What a cursor over a list answers that stands at the position. -/
def Call.expected (l : List Candidate) (p : Position Nat) : Call → Except SearchError Answer
  | rewind _ | release _ => .ok .done
  | begin d => .ok (.found (Listing.neighbour l.length d (.start d)).isSome)
  | advance d => .ok (.found (Listing.neighbour l.length d p).isSome)
  | get =>
    match p with
    | .onElement i =>
      match l[i]? with
      | some a => .ok (.candidate a)
      | none => .error (.invalidPosition .get)
    | _ => .error (.invalidPosition .get)

/-- Where a cursor over `n` elements stands after the call. -/
def Call.target (n : Nat) (p : Position Nat) : Call → Position Nat
  | rewind d => .start d
  | begin d => .reached d (Listing.neighbour n d (.start d))
  | advance d => .reached d (Listing.neighbour n d p)
  | get => p
  | release _ => .closed

/-- Cursors that stand for the positions in a list are moved as a cursor over the list, show where
they stand and can be released. -/
structure Follows (ctx : Context) (P : Call → Prop) (R : Candidate → Candidate → Prop) (n : Nat)
    (l : List Candidate) (T : Position Nat → Cursor → Prop) : Prop where
  tracks : (walker ctx n).Tracks (fun a c ↦ c.id = a.id ∧ R a c) l T
  height {p : Position Nat} {c : Cursor} : T p c → c.height ≤ n
  position {p : Position Nat} {c : Cursor} : T p c → c.position = p.map fun _ ↦ ()
  release {p : Position Nat} {c : Cursor} {cause : Option SearchError} : T p c →
    P (.release cause) → (Cursor.release cause).Ensures c (fun _ c' ↦ Shut c') fun _ _ ↦ False

/-- The cursor stands for the position, which for a closed cursor is that it is closed. -/
def StandsAt (T : Position Nat → Cursor → Prop) : Position Nat → Cursor → Prop
  | .closed, c => Shut c
  | p, c => T p c

variable {T : Position Nat → Cursor → Prop}

theorem Follows.current (h : Follows ctx P R n l T) (hc : T p c) :
    (Call.get.perform ctx).Ensures c
      (fun a c' ↦ Alike R (Call.get.expected l p) (.ok a) ∧ T p c')
      fun e c' ↦ Alike R (Call.get.expected l p) (.error e) ∧ T p c' := by
  have hp := h.tracks.sound hc
  have hposition := h.position hc
  refine Act.ensures_bind (Act.ensures_get ?_)
  cases p with
  | closed => exact hp.elim
  | onElement i =>
    obtain ⟨a, c', ha, hc', hmatches⟩ := h.tracks.current hc
    have hcurrent : c.current = .ok c' := by
      cases n with
      | zero => exact absurd (h.height hc) (Nat.not_le.2 c.height_pos)
      | succ n => exact hc'
    have hexpected : Call.get.expected l (.onElement i) = .ok (.candidate a) := by
      simp [Call.expected, ha]
    refine Act.ensures_ok_bind hcurrent (Act.ensures_pure ⟨?_, hc⟩)
    rw [hexpected]
    exact hmatches
  | _ =>
    have hcurrent : c.current = .error (.invalidPosition .get) := by
      rw [current_of_off c (by rw [hposition]; exact nofun), isClosed, hposition]
      rfl
    exact Act.ensures_error_bind hcurrent ⟨rfl, hc⟩

/-- To each call the cursor answers as a cursor over the list. -/
theorem Follows.call (h : Follows ctx P R n l T) (hc : T p c) {call : Call} (hcall : P call) :
    (call.perform ctx).Ensures c
      (fun a c' ↦ Alike R (call.expected l p) (.ok a) ∧ StandsAt T (call.target l.length p) c')
      fun e c' ↦ Alike R (call.expected l p) (.error e) ∧
        StandsAt T (call.target l.length p) c' := by
  have hopen : ∀ {q c'}, T q c' → StandsAt T q c' := by
    intro q c' hc'
    have hq := h.tracks.sound hc'
    cases q <;> first | exact hc' | exact hq.elim
  have hrewind := fun d ↦ (ensures_rewind_iff (h.height hc)).2 (h.tracks.rewind d hc)
  have hadvance : ∀ d {q c'}, T q c' → _ := fun d _ _ hc' ↦
    (ensures_advance_iff (h.height hc')).2 (h.tracks.advance d hc')
  cases call with
  | rewind d =>
    refine Act.ensures_bind ((hrewind d).mono ?_ fun _ _ hfalse ↦ hfalse.elim)
    exact fun _ _ hc' ↦ Act.ensures_pure ⟨trivial, hopen hc'⟩
  | begin d =>
    refine Act.ensures_bind (Act.ensures_bind ((hrewind d).mono ?_ fun _ _ hfalse ↦ hfalse.elim))
    intro _ c' hc'
    refine (hadvance d hc').mono ?_ fun _ _ hfalse ↦ hfalse.elim
    rintro found c'' ⟨hfound, hc''⟩
    exact Act.ensures_pure ⟨hfound, hopen hc''⟩
  | advance d =>
    refine Act.ensures_bind ((hadvance d hc).mono ?_ fun _ _ hfalse ↦ hfalse.elim)
    rintro found c'' ⟨hfound, hc''⟩
    exact Act.ensures_pure ⟨hfound, hopen hc''⟩
  | get =>
    exact (h.current hc).mono (fun _ _ hpost ↦ ⟨hpost.1, hopen hpost.2⟩)
      fun _ _ hpost ↦ ⟨hpost.1, hopen hpost.2⟩
  | release cause =>
    refine Act.ensures_bind ((h.release hc hcall).mono ?_ fun _ _ hfalse ↦ hfalse.elim)
    exact fun _ _ hc' ↦ Act.ensures_pure ⟨trivial, hc'⟩

/-- The same cursors read as cursors over a list of other candidates. -/
theorem Follows.map {S : Candidate → Candidate → Prop} {f : Candidate → Candidate}
    (h : Follows ctx P R n l T)
    (hf : ∀ a ∈ l, ∀ c, c.id = a.id → R a c → c.id = (f a).id ∧ S (f a) c) :
    Follows ctx P S n (l.map f) T :=
  ⟨h.tracks.map fun a ha c hc ↦ hf a ha c hc.1 hc.2, h.height, h.position, h.release⟩

/-- A cursor over a list moves over the list. -/
theorem follows_listed (ctx : Context) (P : Call → Prop) (l : List Candidate) :
    Follows ctx P Eq 1 l fun p c ↦ Listing.Sound l.length p ∧ c = listed l p := by
  refine ⟨⟨fun hs ↦ hs.1, ?_, ?_, ?_, ?_⟩, ?_, ?_, ?_⟩
  · rintro p _ d ⟨hp, rfl⟩
    refine (ensures_rewind_iff (Nat.le_refl _)).1 ((rewind_listed hp.isClosed d).imp ?_)
    exact fun _ _ hc ↦ ⟨Listing.sound_start _ d, hc⟩
  · rintro p _ d ⟨hp, rfl⟩
    refine (ensures_advance_iff (Nat.le_refl _)).1 ((advance_listed hp.isClosed d).imp ?_)
    exact fun _ _ hpost ↦ ⟨hpost.1, Listing.sound_neighbour hp d, hpost.2⟩
  · rintro i _ ⟨hi, rfl⟩
    have hget := List.getElem?_eq_getElem hi
    exact ⟨l[i], l[i], hget, current_listed hget, rfl, rfl⟩
  · rintro p _ ⟨-, rfl⟩
    exact Nat.le_refl _
  · rintro p _ ⟨-, rfl⟩
    exact Nat.le_refl _
  · rintro p _ ⟨-, rfl⟩
    rfl
  · rintro p _ cause ⟨-, rfl⟩ -
    exact release_listed l p cause

/-! ## Behaving as a cursor over a list -/

theorem Behaves.rewind (h : Behaves ctx P R c (listed l p)) (hP : P (.rewind d))
    (hp : p.isClosed = false) :
    (Cursor.rewind ctx d).Ensures c (fun _ c' ↦ Behaves ctx P R c' (listed l (.start d)))
      fun _ _ ↦ False := by
  have hlisted : ((Call.rewind d).perform ctx).Ensures (listed l p)
      (fun a o ↦ a = .done ∧ o = listed l (.start d)) fun _ _ ↦ False :=
    Act.ensures_bind ((rewind_listed hp d).imp fun _ _ ho ↦ Act.ensures_pure ⟨rfl, ho⟩)
  refine (Act.ensures_of_map (h.answers hP hlisted)).imp ?_
  rintro _ c' ⟨-, _, rfl, hc'⟩
  exact hc'

theorem Behaves.advance (h : Behaves ctx P R c (listed l p)) (hP : P (.advance d))
    (hp : p.isClosed = false) :
    (Cursor.advance ctx d).Ensures c
      (fun found c' ↦ found = (Listing.neighbour l.length d p).isSome ∧
        Behaves ctx P R c' (listed l (.reached d (Listing.neighbour l.length d p))))
      fun _ _ ↦ False := by
  have hlisted : ((Call.advance d).perform ctx).Ensures (listed l p)
      (fun a o ↦ a = .found (Listing.neighbour l.length d p).isSome ∧
        o = listed l (.reached d (Listing.neighbour l.length d p))) fun _ _ ↦ False := by
    refine Act.ensures_bind ((advance_listed hp d).imp fun _ _ hpost ↦ ?_)
    obtain ⟨rfl, ho⟩ := hpost
    exact Act.ensures_pure ⟨rfl, ho⟩
  refine (Act.ensures_of_map (h.answers hP hlisted)).imp ?_
  rintro found c' ⟨hfound, _, rfl, hc'⟩
  exact ⟨hfound, hc'⟩

theorem Behaves.release {cause : Option SearchError} (h : Behaves ctx P R c (listed l p))
    (hP : P (.release cause)) :
    (Cursor.release cause).Ensures c (fun _ _ ↦ True) fun _ _ ↦ False := by
  have hlisted : ((Call.release cause).perform ctx).Ensures (listed l p)
      (fun a o ↦ a = .done ∧ Shut o) fun _ _ ↦ False :=
    Act.ensures_bind ((release_listed l p cause).imp fun _ _ ho ↦ Act.ensures_pure ⟨rfl, ho⟩)
  exact (Act.ensures_of_map (h.answers hP hlisted)).imp fun _ _ _ ↦ trivial

theorem Behaves.current {i : Nat} {a : Candidate}
    (h : Behaves ctx P R c (listed l (.onElement i))) (hP : P .get) (ha : l[i]? = some a) :
    ∃ c', c.current = .ok c' ∧ c'.id = a.id ∧ R a c' := by
  have hlisted : (Call.get.perform ctx).Ensures (listed l (.onElement i))
      (fun a' o ↦ a' = .candidate a ∧ True) fun _ _ ↦ False :=
    Act.ensures_bind (Act.ensures_get
      (Act.ensures_ok_bind (current_listed ha) (Act.ensures_pure ⟨rfl, trivial⟩)))
  have hanswer := h.answers hP hlisted
  cases hcurrent : c.current with
  | error e =>
    have hfails : (Call.get.perform ctx).Ensures c (fun _ _ ↦ False) fun _ _ ↦ True :=
      Act.ensures_bind (Act.ensures_get (Act.ensures_error_bind hcurrent trivial))
    obtain ⟨_, _, -, hfalse⟩ := ((hanswer.and hfails).mono (fun _ _ hpost ↦ hpost)
      fun _ _ hpost ↦ hpost.1).exists
    exact hfalse.elim
  | ok c' =>
    have hcandidate : (Call.get.perform ctx).Ensures c (fun a' _ ↦ a' = .candidate c')
        fun _ _ ↦ True :=
      Act.ensures_bind (Act.ensures_get (Act.ensures_ok_bind hcurrent (Act.ensures_pure rfl)))
    obtain ⟨_, _, ⟨hmatches, -⟩, rfl⟩ := ((hanswer.and hcandidate).mono (fun _ _ hpost ↦ hpost)
      fun _ _ hpost ↦ hpost.1).exists
    exact ⟨c', rfl, hmatches⟩

/-- A cursor that behaves as a cursor over a list has room for the list. -/
theorem Behaves.length_le_extent (hP : ∀ call : Call, call.IsMove → P call)
    (h : Behaves ctx P R c (listed l p)) (hp : p.isClosed = false) : l.length ≤ c.extent := by
  generalize hn : c.height = n
  -- What is to come goes down with each move, and so does what is ahead of the cursor.
  have hcome : ∀ k p c', c'.height ≤ n → Listing.Sound l.length p →
      Behaves ctx P R c' (listed l p) → (Listing.upcoming l .forward p).length = k →
      k ≤ ahead n .forward c' := by
    intro k
    induction k with
    | zero => exact fun _ _ _ _ _ _ ↦ Nat.zero_le _
    | succ k ih =>
      intro p c' hheight hp hc' hlen
      have hmove := (ensures_advance_iff hheight).1 (hc'.advance (hP (.advance .forward) trivial)
        hp.isClosed)
      have hbound := (walker_bounded ctx n).advance .forward c'
      have hkeeps := (walker_keeps_height ctx n n).advance .forward c' hheight
      obtain ⟨found, c'', ⟨⟨rfl, hc''⟩, hahead⟩, hheight'⟩ := (((hmove.and hbound).and hkeeps).mono
        (fun _ _ hpost ↦ hpost) fun _ _ hpost ↦ hpost.1.1).exists
      obtain ⟨-, hnil⟩ | ⟨i, a, hi, hget, hcons⟩ := Listing.neighbour_spec (d := .forward) hp
      · rw [hnil] at hlen
        exact absurd hlen.symm (Nat.succ_ne_zero k)
      · rw [hi] at hc'' hahead
        rw [hcons, List.length_cons] at hlen
        have hle := ih (.onElement i) c'' hheight' (List.getElem?_eq_some_iff.1 hget).1 hc''
          (Nat.succ.inj hlen)
        exact Nat.le_trans (Nat.succ_le_succ hle) hahead
  have hrewind := (ensures_rewind_iff (Nat.le_of_eq hn)).1 (h.rewind (hP (.rewind .forward) trivial)
    hp)
  have hbound := (walker_bounded ctx n).rewind .forward c
  have hkeeps := (walker_keeps_height ctx n n).rewind .forward c (Nat.le_of_eq hn)
  obtain ⟨_, c', ⟨hc', hahead, -⟩, hheight⟩ := (((hrewind.and hbound).and hkeeps).mono
    (fun _ _ hpost ↦ hpost) fun _ _ hpost ↦ hpost.1.1).exists
  have hstart := Listing.sound_start l.length .forward
  exact Nat.le_trans (hcome l.length _ c' hheight hstart hc' rfl) hahead

/-- **A cursor that behaves as a cursor over a list moves over that list.** -/
theorem Behaves.tracks (hP : ∀ call : Call, call.IsMove → P call) (l : List Candidate) :
    (walker ctx n).Tracks (fun a c ↦ c.id = a.id ∧ R a c) l fun p c ↦
      c.height ≤ n ∧ Listing.Sound l.length p ∧ Behaves ctx P R c (listed l p) := by
  refine ⟨fun hs ↦ hs.2.1, ?_, ?_, ?_, ?_⟩
  · rintro p c d ⟨hheight, hp, hc⟩
    have hkeeps := (walker_keeps_height ctx n n).rewind d c hheight
    have hmove := (ensures_rewind_iff hheight).1 (hc.rewind (hP (.rewind d) trivial) hp.isClosed)
    refine (hmove.and hkeeps).mono ?_ fun _ _ hpost ↦ hpost.1
    exact fun _ c' hpost ↦ ⟨hpost.2, Listing.sound_start _ d, hpost.1⟩
  · rintro p c d ⟨hheight, hp, hc⟩
    have hkeeps := (walker_keeps_height ctx n n).advance d c hheight
    have hmove := (ensures_advance_iff hheight).1 (hc.advance (hP (.advance d) trivial) hp.isClosed)
    refine (hmove.and hkeeps).mono ?_ fun _ _ hpost ↦ hpost.1
    rintro found c' ⟨⟨hfound, hc'⟩, hheight'⟩
    exact ⟨hfound, hheight', Listing.sound_neighbour hp d, hc'⟩
  · rintro i c ⟨hheight, hi, hc⟩
    have hget := List.getElem?_eq_getElem hi
    obtain ⟨c', hc', hmatches⟩ := hc.current (hP .get trivial) hget
    cases n with
    | zero => exact absurd hheight (Nat.not_le.2 c.height_pos)
    | succ n => exact ⟨l[i], c', hget, hc', hmatches⟩
  · rintro p c ⟨hheight, hp, hc⟩
    cases n with
    | zero => exact absurd hheight (Nat.not_le.2 c.height_pos)
    | succ n => exact hc.length_le_extent hP hp.isClosed

/-- **Cursors that move over one list behave alike.** -/
theorem Follows.behaves {n' : Nat} {T' : Position Nat → Cursor → Prop}
    (h : Follows ctx P R n l T) (h' : Follows ctx P Eq n' l T') (hc : T p c) (hother : T' p other) :
    Behaves ctx P R c other := by
  refine behaves_of_simulation (T := fun c other ↦
    (∃ p, T p c ∧ T' p other) ∨ (Shut c ∧ Shut other)) ?_ ?_ (.inl ⟨p, hc, hother⟩)
  · rintro c other (⟨p, hc, hother⟩ | ⟨hc, hother⟩)
    · rw [h.position hc, h'.position hother]
    · rw [position_of_shut hc, position_of_shut hother]
  · rintro c other (⟨p, hc, hother⟩ | ⟨hc, hother⟩) call hcall
    · have hboth := ensures_alike (h'.call hother hcall) (h.call hc hcall)
      refine Effect.Ensures.mono hboth fun r hr ↦ Effect.Ensures.mono hr fun r' hr' ↦ ?_
      obtain ⟨halike, hc', hother'⟩ := hr'
      refine ⟨halike, ?_⟩
      generalize call.target l.length p = q at hc' hother'
      cases q with
      | closed => exact .inr ⟨hc', hother'⟩
      | _ => exact .inl ⟨_, hc', hother'⟩
    · refine Effect.Ensures.mono (ensures_alike (R := R) (call_of_shut hother call)
        (call_of_shut hc call)) fun r hr ↦ Effect.Ensures.mono hr fun r' hr' ↦ ?_
      exact ⟨hr'.1, .inr hr'.2⟩

/-- A cursor over a list behaves as itself. -/
theorem behaves_listed (ctx : Context) (P : Call → Prop) (hp : Listing.Sound l.length p) :
    Behaves ctx P Eq (listed l p) (listed l p) :=
  (follows_listed ctx P l).behaves (follows_listed ctx P l) ⟨hp, rfl⟩ ⟨hp, rfl⟩

/-- A cursor over candidates of a kind behaves as a cursor over the list. -/
theorem behaves_ofList (ctx : Context) (P : Call → Prop) {K : Candidate → Prop}
    (hl : ∀ c ∈ l, K c) : Behaves ctx P (fun _ c ↦ K c) (ofList l) (ofList l) := by
  have hfollows := (follows_listed ctx P l).map (S := fun _ c ↦ K c) (f := id)
    fun a ha c hid heq ↦ ⟨hid, heq ▸ hl a ha⟩
  rw [List.map_id] at hfollows
  exact hfollows.behaves (p := .unpositioned) (follows_listed ctx P l) ⟨trivial, rfl⟩
    ⟨trivial, rfl⟩

end Cursor
end DirectoryQuery
