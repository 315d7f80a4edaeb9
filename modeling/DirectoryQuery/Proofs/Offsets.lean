import DirectoryQuery.Proofs.Sessions

/-!
# The place in a list as an offset

Where a cursor over a list stands can be kept as a number, its *offset*: zero before the first
element, one more than the number of elements behind the last one, and on an element its place,
counted from one.  A `Dial` has such a number, and apart from it what the cursor says of its
position.  A turn of the dial only counts, and stops at either end; the position is what comes of
the new number.  Since the two are kept apart, it has to be shown that they stay together
(`Dial.Fits`), and the dial that was never turned is in the way: it is at zero, but its first turn
down begins at the other end.

A cursor over a list goes along with its dial, whatever calls are made (`Cursor.Beside`), and so it
is a zipper with two edges (`Cursor.Beside.geared`).
-/

set_option autoImplicit false

namespace DirectoryQuery

open Cursor (Call Answer landing map_reached)

/-! ## Dials -/

/-- A place in a list, kept by counting. -/
structure Dial where
  /-- The number of the element, from one; at the edges one less or one more. -/
  offset : Nat
  /-- Where the cursor says it stands. -/
  position : Position Unit

namespace Dial

/-- The dial of a cursor that was never moved. -/
def fresh : Dial := ⟨0, .unpositioned⟩

/-- The dial at the edge where a traversal over `n` elements begins. -/
def rewound (n : Nat) : Direction → Dial
  | .forward => ⟨0, .start .forward⟩
  | .backward => ⟨n + 1, .start .backward⟩

/-- The offset after a turn: upwards it stops behind `n` elements, downwards at zero. -/
def turn (n : Nat) (dial : Dial) : Direction → Nat
  | .forward => if dial.offset ≤ n then dial.offset + 1 else dial.offset
  | .backward => (if dial.position.isUnpositioned then n + 1 else dial.offset) - 1

/-- Whether the offset after a turn is that of an element. -/
def hits (n offset : Nat) : Direction → Bool
  | .forward => offset ≤ n
  | .backward => 0 < offset

/-- Turns the dial by one and tells whether there was an element. -/
def advance (n : Nat) (dial : Dial) (d : Direction) : Bool × Dial :=
  let offset := dial.turn n d
  (hits n offset d, ⟨offset, landing d (hits n offset d)⟩)

/-- The candidate at the offset, if the cursor says it stands on one. -/
def current (l : List Candidate) (dial : Dial) : Except SearchError Candidate :=
  match dial.position with
  | .onElement _ =>
    match dial.offset with
    | 0 => .error (.invalidPosition .get)
    | i + 1 =>
      match l[i]? with
      | some c => .ok c
      | none => .error (.invalidPosition .get)
  | .closed => .error (.closedCursor .get)
  | _ => .error (.invalidPosition .get)

/-! ## Dials and positions -/

/-- The offset of a position among `n` elements. -/
def offsetOf (n : Nat) : Position Nat → Nat
  | .unpositioned | .beforeFirst => 0
  | .onElement i => i + 1
  | .afterLast | .closed => n + 1

/-- The dial that shows a position among `n` elements. -/
def showing (n : Nat) (p : Position Nat) : Dial := ⟨offsetOf n p, p.map fun _ ↦ ()⟩

variable {l : List Candidate} {n : Nat} {p : Position Nat}

theorem rewound_eq_showing (n : Nat) (d : Direction) : rewound n d = showing n (.start d) := by
  cases d <;> rfl

/-- A turn leads to the offset of the next position. -/
theorem turn_showing (hp : Listing.Sound n p) (d : Direction) :
    (showing n p).turn n d = offsetOf n (.reached d (Listing.neighbour n d p)) := by
  cases d <;> cases p <;> grind [showing, turn, offsetOf, Listing.neighbour, Listing.Sound,
    Position.map, Position.isUnpositioned, Position.reached, Position.finish]

/-- The offset after a move tells whether there was an element. -/
theorem hits_offsetOf (hp : Listing.Sound n p) (d : Direction) :
    hits n (offsetOf n (.reached d (Listing.neighbour n d p))) d =
      (Listing.neighbour n d p).isSome := by
  cases d <;> cases p <;> grind [hits, offsetOf, Listing.neighbour, Listing.Sound,
    Position.reached, Position.finish]

theorem advance_showing (hp : Listing.Sound n p) (d : Direction) :
    (showing n p).advance n d = ((Listing.neighbour n d p).isSome,
      showing n (.reached d (Listing.neighbour n d p))) := by
  rw [advance, turn_showing hp, hits_offsetOf hp, showing, map_reached]

theorem current_showing (hp : Listing.Sound l.length p) :
    ((showing l.length p).current l).map Answer.candidate = Call.get.expected l p := by
  cases p with
  | closed => exact hp.elim
  | onElement i =>
    have hget := List.getElem?_eq_getElem (l := l) hp
    simp [showing, current, offsetOf, Position.map, Call.expected, hget]
    rfl
  | _ => rfl

/-- The offset is in the list or next to it, and the position is what the offset says. -/
structure Fits (n : Nat) (dial : Dial) : Prop where
  offset_le : dial.offset ≤ n + 1
  zero_iff : dial.offset = 0 ↔ dial.position = .unpositioned ∨ dial.position = .beforeFirst
  end_iff : dial.offset = n + 1 ↔ dial.position = .afterLast
  onElement_iff : dial.position = .onElement () ↔ 1 ≤ dial.offset ∧ dial.offset ≤ n

theorem fits_showing (hp : Listing.Sound n p) : (showing n p).Fits n := by
  cases p with
  | closed => exact hp.elim
  | onElement i =>
    have hi : i < n := hp
    constructor <;> simp [showing, offsetOf, Position.map] <;> omega
  | _ => constructor <;> simp [showing, offsetOf, Position.map]

end Dial

/-! ## Lists under calls -/

namespace Listing

/-- Who goes to an element and then to another one in the opposite direction is back again. -/
theorem eq_of_neighbour_opposite {n i j : Nat} {p : Position Nat} {d : Direction}
    (hp : Sound n p) (hi : neighbour n d p = some i)
    (hj : neighbour n d.opposite (.onElement i) = some j) : p = .onElement j := by
  cases d <;> cases p <;> grind [neighbour, Direction.opposite, Sound]

end Listing

namespace Cursor

variable {ctx : Context} {l rest : List Candidate} {p : Position Nat} {c c₁ c₂ : Cursor}
  {dial : Dial} {d : Direction} {call : Call}

/-- After a move a cursor over a list stands in the list. -/
theorem sound_target (hp : Listing.Sound l.length p) (hcall : call.IsMove) :
    Listing.Sound l.length (call.target l.length p) := by
  cases call with
  | rewind d => exact Listing.sound_start _ d
  | begin d => exact Listing.sound_neighbour (Listing.sound_start _ d) d
  | advance d => exact Listing.sound_neighbour hp d
  | get => exact hp
  | release cause => exact hcall.elim

/-- A move of a cursor over a list comes to one thing, whatever was logged before. -/
theorem run_listed (hp : Listing.Sound l.length p) (call : Call) (hcall : call.IsMove)
    (t : Trace) :
    call.run ctx t (listed l p) = (call.expected l p, listed l (call.target l.length p)) := by
  have hsound := sound_target hp hcall
  have hrun := (follows_listed ctx Call.IsMove l).call ⟨hp, rfl⟩ hcall t
  rw [Call.run]
  revert hrun
  obtain ⟨o, c⟩ := (StateT.run ((call.perform ctx).perform (listed l p)) t).1
  intro hrun
  have hboth : Alike Eq (call.expected l p) o ∧ StandsAt
      (fun p c ↦ Listing.Sound l.length p ∧ c = listed l p) (call.target l.length p) c := by
    cases o <;> exact hrun
  have hc : c = listed l (call.target l.length p) := by
    have hstands := hboth.2
    generalize call.target l.length p = q at hsound hstands ⊢
    cases q with
    | closed => exact hsound.elim
    | _ => exact hstands.2
  rw [eq_of_alike hboth.1, hc]

/-! ## Calls one after the other -/

/-- The answers to calls that are made one after the other. -/
def answers (ctx : Context) : List Call → Cursor → Effect (List (Except SearchError Answer))
  | [], _ => return []
  | call :: calls, c => do
    let (answer, c') ← (call.perform ctx).perform c
    return answer :: (← answers ctx calls c')

/-- Moves on by so many elements, asking for each, and once more. -/
def passing (d : Direction) : Nat → List Call
  | 0 => [.advance d]
  | n + 1 => .advance d :: .get :: passing d n

/-- The answers on the way through the candidates, and that there are no more. -/
def visits : List Candidate → List (Except SearchError Answer)
  | [] => [.ok (.found false)]
  | a :: rest => .ok (.found true) :: .ok (.candidate a) :: visits rest

theorem ensures_answers_cons {calls : List Call} {Q : List (Except SearchError Answer) → Prop}
    (hp : Listing.Sound l.length p) (hcall : call.IsMove)
    (h : Effect.Ensures (answers ctx calls (listed l (call.target l.length p))) fun later ↦
      Q (call.expected l p :: later)) :
    Effect.Ensures (answers ctx (call :: calls) (listed l p)) Q := by
  refine Effect.ensures_bind fun t ↦ ?_
  have hrun : (StateT.run ((call.perform ctx).perform (listed l p)) t).1 = _ :=
    run_listed hp call hcall t
  rw [hrun]
  exact Effect.ensures_bind (Effect.Ensures.mono h fun _ hQ ↦ Effect.ensures_pure hQ)

/-- What is to come is what the cursor comes up with. -/
theorem answers_passing (hp : Listing.Sound l.length p) (hrest : Listing.upcoming l d p = rest) :
    Effect.Ensures (answers ctx (passing d rest.length) (listed l p)) fun r ↦ r = visits rest := by
  induction rest generalizing p with
  | nil =>
    refine ensures_answers_cons hp trivial (Effect.ensures_pure ?_)
    rw [Call.expected, Listing.neighbour_of_upcoming_nil hp hrest]
    rfl
  | cons a rest ih =>
    obtain ⟨-, hnil⟩ | ⟨i, b, hi, hget, hcons⟩ := Listing.neighbour_spec (d := d) hp
    · rw [hrest] at hnil
      cases hnil
    · rw [hrest] at hcons
      obtain ⟨rfl, hlater⟩ := List.cons.inj hcons
      have hsound : Listing.Sound l.length (.onElement i) := (List.getElem?_eq_some_iff.1 hget).1
      refine ensures_answers_cons hp trivial ?_
      rw [Call.target, hi]
      refine ensures_answers_cons hsound trivial (Effect.Ensures.mono (ih hsound hlater.symm) ?_)
      have hcandidate : Call.get.expected l (.reached d (some i)) = .ok (.candidate a) := by
        simp [Position.reached, Call.expected, hget]
      rintro _ rfl
      rw [Call.expected, hi, hcandidate]
      rfl

theorem ensures_pass (hp : Listing.Sound l.length p)
    (hcome : Listing.upcoming l d p = d.arrange l) :
    Effect.Ensures (answers ctx (passing d l.length) (listed l p))
      fun r ↦ r = visits (d.arrange l) := by
  rw [← (d.arrange_perm l).length_eq]
  exact answers_passing hp hcome

/-- A move that finds something goes to the neighbour. -/
theorem exists_neighbour_of_run {t : Trace} (hp : Listing.Sound l.length p)
    (h : (Call.advance d).run ctx t (listed l p) = (.ok (.found true), c)) :
    ∃ i, Listing.neighbour l.length d p = some i ∧ Listing.Sound l.length (.onElement i) ∧
      c = listed l (.onElement i) := by
  have hsound := Listing.sound_neighbour hp d
  rw [run_listed hp (.advance d) trivial, Call.expected, Call.target, Prod.mk.injEq] at h
  obtain ⟨hfound, rfl⟩ := h
  cases hi : Listing.neighbour l.length d p with
  | none => rw [hi] at hfound; cases hfound
  | some i =>
    rw [hi] at hsound
    exact ⟨i, rfl, hsound, rfl⟩

/-- The candidate is the element of the number that the dial shows. -/
theorem current_listed_iff (hp : Listing.Sound l.length p) (a : Candidate) :
    (listed l p).current = .ok a ↔
      1 ≤ (Dial.showing l.length p).offset ∧ l[(Dial.showing l.length p).offset - 1]? = some a := by
  cases p with
  | closed => exact hp.elim
  | onElement i =>
    have hget := List.getElem?_eq_getElem (l := l) hp
    rw [current_listed hget]
    simp [Dial.showing, Dial.offsetOf, hget]
  | unpositioned | beforeFirst =>
    exact iff_of_false nofun fun h ↦ absurd h.1 (Nat.not_succ_le_zero 0)
  | afterLast =>
    have hend : l[l.length + 1 - 1]? = none := List.getElem?_eq_none (Nat.le_refl _)
    exact iff_of_false nofun fun h ↦ absurd (hend.symm.trans h.2) nofun

/-! ## Cursors and dials -/

/-- A cursor over the list and a dial beside it, which goes along with every call: with moves to the
edges, with moves by one element, and with requests for the candidate. -/
inductive Beside (ctx : Context) (l : List Candidate) : Cursor → Dial → Prop
  | fresh : Beside ctx l (ofList l) .fresh
  | rewind {c : Cursor} {dial : Dial} (h : Beside ctx l c dial) (d : Direction) (t : Trace) :
      Beside ctx l ((Call.rewind d).run ctx t c).2 (.rewound l.length d)
  | advance {c : Cursor} {dial : Dial} (h : Beside ctx l c dial) (d : Direction) (t : Trace) :
      Beside ctx l ((Call.advance d).run ctx t c).2 (dial.advance l.length d).2
  | get {c : Cursor} {dial : Dial} (h : Beside ctx l c dial) (t : Trace) :
      Beside ctx l (Call.get.run ctx t c).2 dial

/-- The dial shows the position of the cursor. -/
theorem Beside.exists_position (h : Beside ctx l c dial) :
    ∃ p, Listing.Sound l.length p ∧ c = listed l p ∧ dial = .showing l.length p := by
  induction h with
  | fresh => exact ⟨.unpositioned, trivial, rfl, rfl⟩
  | rewind _ d t ih =>
    obtain ⟨p, hp, rfl, rfl⟩ := ih
    rw [run_listed hp (.rewind d) trivial, Dial.rewound_eq_showing]
    exact ⟨_, Listing.sound_start _ d, rfl, rfl⟩
  | advance _ d t ih =>
    obtain ⟨p, hp, rfl, rfl⟩ := ih
    rw [run_listed hp (.advance d) trivial, Dial.advance_showing hp]
    exact ⟨_, Listing.sound_neighbour hp d, rfl, rfl⟩
  | get _ t ih =>
    obtain ⟨p, hp, rfl, rfl⟩ := ih
    rw [run_listed hp .get trivial]
    exact ⟨p, hp, rfl, rfl⟩

/-- The cursor and the dial go together, and the dial is that of a zipper with two edges. -/
structure Geared (ctx : Context) (l : List Candidate) (c : Cursor) (dial : Dial) : Prop where
  position_eq : c.position = dial.position
  rewind (d : Direction) (t : Trace) : ((Call.rewind d).run ctx t c).1 = .ok .done
  advance (d : Direction) (t : Trace) :
    ((Call.advance d).run ctx t c).1 = .ok (.found (dial.advance l.length d).1)
  get (t : Trace) : (Call.get.run ctx t c).1 = (dial.current l).map .candidate
  fits : dial.Fits l.length
  current_iff (a : Candidate) :
    c.current = .ok a ↔ 1 ≤ dial.offset ∧ l[dial.offset - 1]? = some a
  /-- From the edge a pass goes through the list, in the order of its direction. -/
  pass (d : Direction) : Effect.Ensures (answers ctx (.rewind d :: passing d l.length) c)
    fun r ↦ r = .ok .done :: visits (d.arrange l)
  /-- So does a pass of a cursor that is at the edge already, or nowhere yet. -/
  pass_on (d : Direction) : c.position = .start d ∨ c.position = .unpositioned →
    Effect.Ensures (answers ctx (passing d l.length) c) fun r ↦ r = visits (d.arrange l)
  /-- A move on elements and the opposite one lead back. -/
  back {d : Direction} {t t' : Trace} {c₁ c₂ : Cursor} :
    (Call.advance d).run ctx t c = (.ok (.found true), c₁) →
    (Call.advance d.opposite).run ctx t' c₁ = (.ok (.found true), c₂) →
      c.position = .onElement () ∧ c₂ = c

/-- **A cursor over a list is a zipper with two edges**, whatever moves and requests have been made.
It answers as its dial says, the offset of which stays between zero and one more than the number of
elements, and it is on the element of that number, or before the first one at zero, or behind the
last one.  A pass from an edge goes through the list or through the list reversed, and so does the
first pass from nowhere; after two moves on elements, there and back, the cursor is as it was. -/
theorem Beside.geared (h : Beside ctx l c dial) : Geared ctx l c dial := by
  obtain ⟨p, hp, rfl, rfl⟩ := h.exists_position
  refine ⟨rfl, fun d t ↦ ?_, fun d t ↦ ?_, fun t ↦ ?_, Dial.fits_showing hp, fun a ↦ ?_,
    fun d ↦ ?_, fun d hbegin ↦ ?_, ?_⟩
  · rw [run_listed hp (.rewind d) trivial]
    rfl
  · rw [run_listed hp (.advance d) trivial, Dial.advance_showing hp]
    rfl
  · rw [run_listed hp .get trivial, Dial.current_showing hp]
  · exact current_listed_iff hp a
  · refine ensures_answers_cons hp trivial (Effect.Ensures.mono
      (ensures_pass (Listing.sound_start _ d) (Listing.upcoming_start l d)) ?_)
    rintro _ rfl
    rfl
  · refine ensures_pass hp ?_
    rcases hbegin with hbegin | hbegin <;> cases d <;> cases p <;> cases hbegin <;> rfl
  · intro d t t' c₁ c₂ hthere hback
    obtain ⟨i, hi, hsound, rfl⟩ := exists_neighbour_of_run hp hthere
    obtain ⟨j, hj, -, rfl⟩ := exists_neighbour_of_run hsound hback
    rw [Listing.eq_of_neighbour_opposite hp hi hj]
    exact ⟨rfl, rfl⟩

/-- A first move backwards, two forwards, of which the second finds nothing any more, and one
backwards again. -/
theorem geared_of_four_moves :
    let ctx : Context := ⟨Store.empty.directory, .empty, .standard⟩
    let t : Trace := .start .warn false
    let l : List Candidate := [.bare 4, .bare 7]
    let c₁ := ((Call.advance .backward).run ctx t (ofList l)).2
    let c₂ := ((Call.advance .forward).run ctx t c₁).2
    let c₃ := ((Call.advance .forward).run ctx t c₂).2
    let c₄ := ((Call.advance .backward).run ctx t c₃).2
    Beside ctx l c₃ ⟨3, .afterLast⟩ ∧ Beside ctx l c₄ ⟨2, .onElement ()⟩ ∧
      c₃.position = .afterLast ∧ c₄.current = .ok (.bare 7) := by
  intro ctx t l c₁ c₂ c₃ c₄
  have h₃ : Beside ctx l c₃ ⟨3, .afterLast⟩ :=
    ((Beside.fresh.advance .backward t).advance .forward t).advance .forward t
  have h₄ : Beside ctx l c₄ ⟨2, .onElement ()⟩ := h₃.advance .backward t
  have hend : c₃.position = .afterLast :=
    h₃.geared.position_eq.trans (h₃.geared.fits.end_iff.1 rfl)
  exact ⟨h₃, h₄, hend, (h₄.geared.current_iff _).2 ⟨by decide, rfl⟩⟩

end Cursor
end DirectoryQuery
