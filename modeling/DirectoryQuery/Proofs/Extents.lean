import DirectoryQuery.Proofs.Heights

/-!
# How often a cursor can move

A search for a candidate makes no more moves than the extent of a cursor says.  Here is why these
are enough.  What is ahead of a cursor in a direction can be given a number, such that every move
that finds an element makes it smaller, and at the edge where a traversal begins it is not above
the extent (`Walker.Bounded`).  For a reel this is the number of elements to come, and for a relay
the number for the active operand and the extents of the operands to come.

So from the edge no more moves find an element than the extent says (`Cursor.walker_bounded`),
whatever cursors the cursor is made of and whatever fails on the way.
-/

set_option autoImplicit false

namespace DirectoryQuery

variable {σ τ α : Type} {ctx : Context}

/-! ## Elements to come in a list -/

namespace Listing

variable {l : List α} {d : Direction} {p : Position Nat}

/-- How many of `n` elements are still to come in the direction. -/
def toCome (n : Nat) : Direction → Position Nat → Nat
  | .forward, .unpositioned | .forward, .beforeFirst => n
  | .forward, .onElement i => n - (i + 1)
  | .backward, .unpositioned | .backward, .afterLast => n
  | .backward, .onElement i => i
  | _, _ => 0

theorem toCome_start (n : Nat) (d : Direction) : toCome n d (.start d) = n := by
  cases d <;> rfl

/-- A move that finds an element leaves fewer to come. -/
theorem toCome_reached (n : Nat) (d : Direction) (p : Position Nat) :
    toCome n d (.reached d (neighbour n d p)) + (neighbour n d p).isSome.toNat ≤ toCome n d p := by
  cases d <;> cases p <;> simp only [neighbour] <;> (try split) <;>
    simp [Position.reached, Position.finish, toCome] <;> omega

/-- What a sum over the elements to come is made of, the next element and those after it. -/
theorem sum_upcoming_le {f : α → Nat} {j : Nat} (h : neighbour l.length d p = some j) :
    (l[j]?.map f).getD 0 + ((upcoming l d (.onElement j)).map f).sum ≤
      ((upcoming l d p).map f).sum := by
  have hfirst : ∀ i, (l[i]?.map f).getD 0 + ((l.drop (i + 1)).map f).sum ≤
      ((l.drop i).map f).sum := by
    intro i
    rcases Nat.lt_or_ge i l.length with hi | hi
    · rw [List.drop_eq_getElem_cons hi, List.map_cons, List.sum_cons, List.getElem?_eq_getElem hi]
      exact Nat.le_refl _
    · simp [List.getElem?_eq_none hi, List.drop_eq_nil_of_le hi,
        List.drop_eq_nil_of_le (Nat.le_succ_of_le hi)]
  have hlast : ∀ i, (l[i]?.map f).getD 0 + ((l.take i).map f).sum ≤
      ((l.take (i + 1)).map f).sum := by
    intro i
    rw [List.take_add_one, List.map_append, List.sum_append, Nat.add_comm]
    cases l[i]? <;> simp
  cases d with
  | forward =>
    cases p with
    | unpositioned | beforeFirst =>
      obtain ⟨-, rfl⟩ := by simpa [neighbour] using h
      exact hfirst 0
    | onElement i =>
      obtain ⟨-, rfl⟩ := by simpa [neighbour] using h
      exact hfirst (i + 1)
    | afterLast | closed => simp [neighbour] at h
  | backward =>
    cases p with
    | unpositioned | afterLast =>
      obtain ⟨hl, rfl⟩ := by simpa [neighbour] using h
      have hle := hlast (l.length - 1)
      rw [Nat.sub_add_cancel hl, List.take_length] at hle
      simpa [upcoming, List.sum_reverse] using hle
    | onElement i =>
      obtain ⟨hi, rfl⟩ := by simpa [neighbour] using h
      have hle := hlast (i - 1)
      rw [Nat.sub_add_cancel hi] at hle
      simpa [upcoming, List.sum_reverse] using hle
    | beforeFirst | closed => simp [neighbour] at h

end Listing

/-! ## Moves that find something -/

/-- What is ahead of a thing in a direction shrinks with each move that finds an element, and from
the edge it is not above the room that the thing has. -/
structure Walker.Bounded (w : Walker σ) (room : σ → Nat) (ahead : Direction → σ → Nat) :
    Prop where
  rewind (d : Direction) (s : σ) : (w.rewind d).Ensures s
    (fun _ s' ↦ ahead d s' ≤ room s ∧ room s' ≤ room s) fun _ _ ↦ True
  advance (d : Direction) (s : σ) : (w.advance d).Ensures s
    (fun found s' ↦ ahead d s' + found.toNat ≤ ahead d s) fun _ _ ↦ True

variable {w : Walker σ} {room : σ → Nat} {μ : Direction → σ → Nat} {d : Direction}

theorem Walker.Bounded.seek (h : w.Bounded room μ) (d : Direction)
    (accept : Act Candidate Bool) (s : σ) :
    (w.seek d accept).Ensures s (fun found s' ↦ μ d s' + found.isSome.toNat ≤ μ d s)
      fun _ _ ↦ True := by
  refine Act.ensures_bind (Act.ensures_get ?_)
  generalize w.extent s + 1 = moves
  induction moves generalizing s with
  | zero => exact Act.ensures_pure (Nat.le_refl _)
  | succ moves ih =>
    refine Act.ensures_bind ((h.advance d s).imp fun found s' hs' ↦ ?_)
    cases found with
    | false => exact Act.ensures_pure hs'
    | true =>
      refine Act.ensures_bind (Act.ensures_tally (Act.ensures_bind (Act.ensures_get ?_)))
      refine Act.ensures_except_bind (fun _ _ ↦ trivial) fun c _ ↦ Act.ensures_bind ?_
      refine Act.ensures_attempt (Attempt.ensures_of_forall ?_ fun _ ↦ trivial)
      rintro ⟨accepted, c'⟩
      cases accepted with
      | true => exact Act.ensures_pure hs'
      | false => exact (ih s').imp fun _ _ hs'' ↦ Nat.le_trans hs'' (Nat.le_of_lt hs')

/-! ## Reels -/

namespace Reel

/-- How many elements are still to come. -/
def ahead (d : Direction) (r : Reel) : Nat :=
  Listing.toCome r.listing.size d r.listing.standing.position

theorem bounded : walker.Bounded (fun r ↦ r.listing.size) ahead := by
  refine ⟨fun d r ↦ ensures_onListing ?_, fun d r ↦ ?_⟩
  · refine Act.ensures_bind (Act.ensures_get ?_)
    refine Act.ensures_except_bind (fun _ _ ↦ trivial) fun _ _ ↦ Act.ensures_set ?_
    exact ⟨Nat.le_of_eq (Listing.toCome_start _ d), Nat.le_refl _⟩
  · refine Act.ensures_bind (Act.ensures_get (Act.ensures_bind (Act.ensures_set ?_)))
    cases r.monitor.bind Monitor.refusal? with
    | some e => exact Act.ensures_throw trivial
    | none =>
      refine ensures_onListing (Act.ensures_bind (Act.ensures_get ?_))
      refine Act.ensures_except_bind (fun _ _ ↦ trivial) fun _ _ ↦ ?_
      refine Act.ensures_bind (Act.ensures_set (Act.ensures_pure ?_))
      exact Listing.toCome_reached r.listing.size d r.listing.standing.position

end Reel

/-! ## Sieves -/

namespace Sieve

/-- What is ahead of the source; all of it for a sieve that was never moved. -/
def ahead (room : σ → Nat) (μ : Direction → σ → Nat) (d : Direction) (s : Sieve σ) : Nat :=
  if s.standing.position.isUnpositioned then room s.source else μ d s.source

theorem ahead_moved {s : Sieve σ} {d : Direction} {p : Position Candidate}
    (hp : p.isUnpositioned = false) :
    ahead room μ d { s with standing := s.standing.moveTo p } = μ d s.source := by
  rw [ahead]
  exact if_neg (Bool.eq_false_iff.1 hp)

theorem bounded (h : w.Bounded room μ) :
    (walker w ctx).Bounded (fun s ↦ room s.source) (ahead room μ) := by
  refine ⟨fun d s ↦ ?_, fun d s ↦ ?_⟩
  · refine Act.ensures_bind (Act.ensures_get ?_)
    refine Act.ensures_except_bind (fun _ _ ↦ trivial) fun _ _ ↦ ?_
    refine Act.ensures_bind (ensures_onSource ((h.rewind d s.source).imp ?_))
    intro _ source hsource
    refine Act.ensures_modify ⟨?_, hsource.2⟩
    rw [ahead_moved (by cases d <;> rfl)]
    exact hsource.1
  · refine ensures_advance (I := fun source ↦ μ d source ≤ ahead room μ d s) (fun _ ↦ trivial)
      (fun hfresh ↦ ?_) (fun hmoved ↦ ?_) fun source hle ↦ ?_
    · have hahead : ahead room μ d s = room s.source := if_pos hfresh
      exact (h.rewind d s.source).imp fun _ source hsource ↦ hahead ▸ hsource.1
    · have hahead : ahead room μ d s = μ d s.source := if_neg (Bool.eq_false_iff.1 hmoved)
      exact Nat.le_of_eq hahead.symm
    · refine (h.seek d _ source).imp fun found source' hsource' ↦ ?_
      rw [ahead_moved (s := { s with source := source' }) (by cases found <;> cases d <;> rfl)]
      exact Nat.le_trans hsource' hle

end Sieve

/-! ## Relays -/

namespace Relay

variable {r : Relay σ} {j : Nat}

/-- The extents of an operand and of those after it. -/
def roomFrom (room : σ → Nat) (d : Direction) (r : Relay σ) (j : Nat) : Nat :=
  (r.sources[j]?.map room).getD 0 + ((Listing.upcoming r.sources d (.onElement j)).map room).sum

/-- What is ahead of the active operand, and the extents of the operands after it. -/
def left (room : σ → Nat) (μ : Direction → σ → Nat) (d : Direction) (r : Relay σ) : Nat :=
  (r.sources[r.active]?.map (μ d)).getD 0 +
    ((Listing.upcoming r.sources d (.onElement r.active)).map room).sum

/-- What is ahead in the operands that are left; all of them for a relay that was never moved. -/
def ahead (room : σ → Nat) (μ : Direction → σ → Nat) (d : Direction) (r : Relay σ) : Nat :=
  if r.standing.position.isUnpositioned then (r.sources.map room).sum else left room μ d r

theorem ahead_moved {p : Position Candidate} (hp : p.isUnpositioned = false) :
    ahead room μ d { r with standing := r.standing.moveTo p } = left room μ d r :=
  if_neg (Bool.eq_false_iff.1 hp)

theorem left_moved {source : σ} (hsource : r.sources[r.active]? = some source) (s : σ) :
    left room μ d (r.moved s) =
      μ d s + ((Listing.upcoming r.sources d (.onElement r.active)).map room).sum := by
  obtain ⟨hlt, -⟩ := List.getElem?_eq_some_iff.1 hsource
  cases d <;> simp [left, moved, Listing.upcoming, List.drop_set_of_lt, List.take_set_of_le, hlt]

theorem sum_moved_le {source s : σ} (hsource : r.sources[r.active]? = some source)
    (hs : room s ≤ room source) :
    ((r.moved s).sources.map room).sum ≤ (r.sources.map room).sum := by
  obtain ⟨hlt, rfl⟩ := List.getElem?_eq_some_iff.1 hsource
  have hsplit : r.sources.take r.active ++ r.sources[r.active] :: r.sources.drop (r.active + 1) =
      r.sources := by
    rw [← List.drop_eq_getElem_cons hlt, List.take_append_drop]
  have hset : (r.moved s).sources =
      r.sources.take r.active ++ s :: r.sources.drop (r.active + 1) :=
    List.set_eq_take_append_cons_drop.trans (if_pos hlt)
  conv_rhs => rw [← hsplit]
  rw [hset, List.map_append, List.map_append, List.sum_append, List.sum_append, List.map_cons,
    List.map_cons, List.sum_cons, List.sum_cons]
  omega

theorem left_told (ctx : Context) (room : σ → Nat) (μ : Direction → σ → Nat) (d : Direction)
    (js : List Nat) (c : Candidate) (r : Relay σ) :
    (announce ctx js c : Act (Relay σ) Candidate).Ensures r
      (fun _ r' ↦ left room μ d r' = left room μ d r) fun _ _ ↦ True := by
  have hkeeps : (announce ctx js c : Act (Relay σ) Candidate).Keeps fun r' ↦
      left room μ d r' = left room μ d r := keeps_announce (fun _ _ _ hr ↦ hr) js c
  exact (hkeeps r rfl).mono (fun _ _ hr ↦ hr) fun _ _ _ ↦ trivial

theorem seekActive_bounded (h : w.Bounded room μ) (d : Direction) (r : Relay σ) :
    (seekActive w ctx d).Ensures r
      (fun found r' ↦ left room μ d r' + found.isSome.toNat ≤ left room μ d r)
      fun _ _ ↦ True := by
  refine Act.ensures_bind (Act.ensures_get (Act.ensures_bind ?_))
  cases hsource : r.sources[r.active]? with
  | none => exact ensures_onActive_none hsource (Act.ensures_pure (Nat.le_refl _))
  | some source =>
    refine ensures_onActive hsource ((h.seek d _ source).imp fun found s hs ↦ ?_)
    have hleft : left room μ d r =
        μ d source + ((Listing.upcoming r.sources d (.onElement r.active)).map room).sum := by
      rw [left, hsource]
      rfl
    have hmoved : left room μ d (r.moved s) + found.isSome.toNat ≤ left room μ d r := by
      rw [left_moved hsource, hleft]
      omega
    cases found with
    | none => exact Act.ensures_pure hmoved
    | some c =>
      have htold := left_told ctx room μ d r.inactive c (r.moved s)
      refine Act.ensures_bind (htold.imp fun _ r' hr' ↦ Act.ensures_pure ?_)
      rwa [hr']

theorem activate_bounded (h : w.Bounded room μ) (d : Direction) (j : Nat) (r : Relay σ) :
    (activate w d j).Ensures r
      (fun _ r' ↦ left room μ d r' ≤ roomFrom room d r j ∧
        (r'.sources.map room).sum ≤ (r.sources.map room).sum)
      fun _ _ ↦ True := by
  refine Act.ensures_bind (Act.ensures_modify ?_)
  cases hsource : r.sources[j]? with
  | none =>
    refine ensures_onActive_none (r := r.turned j) hsource ⟨?_, Nat.le_refl _⟩
    simp [left, roomFrom, turned, hsource]
  | some source =>
    refine ensures_onActive (r := r.turned j) hsource ((h.rewind d source).imp fun _ s hs ↦ ?_)
    refine ⟨?_, sum_moved_le (r := r.turned j) hsource hs.2⟩
    rw [left_moved (r := r.turned j) hsource, roomFrom, hsource]
    exact Nat.add_le_add_right hs.1 _

theorem sweep_bounded (h : w.Bounded room μ) (d : Direction) (operands : Nat) (r : Relay σ) :
    (sweep w ctx d operands).Ensures r
      (fun found r' ↦ left room μ d r' + found.isSome.toNat ≤ left room μ d r)
      fun _ _ ↦ True := by
  induction operands generalizing r with
  | zero => exact Act.ensures_pure (Nat.le_refl _)
  | succ operands ih =>
    refine Act.ensures_bind ((seekActive_bounded h d r).imp fun found r' hr' ↦ ?_)
    cases found with
    | some c => exact Act.ensures_pure hr'
    | none =>
      refine Act.ensures_bind (Act.ensures_get ?_)
      cases hnext : r'.nextOperand? d with
      | none => exact Act.ensures_pure hr'
      | some j =>
        have hneighbour :
            Listing.neighbour r'.sources.length d (.onElement r'.active) = some j := by
          rw [← hnext]
          cases d <;> rfl
        have hroom : roomFrom room d r' j ≤ left room μ d r' :=
          Nat.le_trans (Listing.sum_upcoming_le hneighbour) (Nat.le_add_left _ _)
        refine Act.ensures_bind ((activate_bounded h d j r').imp fun _ r'' hr'' ↦ ?_)
        refine (ih r'').imp fun found r₃ hr₃ ↦ Nat.le_trans hr₃ ?_
        exact Nat.le_trans hr''.1 (Nat.le_trans hroom hr')

theorem rewind_bounded (h : w.Bounded room μ) (d : Direction) (r : Relay σ) :
    (rewind w d).Ensures r
      (fun _ r' ↦ left room μ d r' ≤ (r.sources.map room).sum ∧
        ahead room μ d r' = left room μ d r' ∧
        (r'.sources.map room).sum ≤ (r.sources.map room).sum)
      fun _ _ ↦ True := by
  have hfirst : roomFrom room d r (r.firstOperand d) ≤ (r.sources.map room).sum := by
    rcases Nat.eq_zero_or_pos r.size with hsize | hsize
    · have hnil : r.sources = [] := List.length_eq_zero_iff.1 hsize
      cases d <;> simp [roomFrom, hnil, Listing.upcoming]
    · have hneighbour : Listing.neighbour r.sources.length d (.start d) =
          some (r.firstOperand d) := by
        cases d <;> exact if_pos hsize
      refine Nat.le_trans (Listing.sum_upcoming_le hneighbour) ?_
      rw [Listing.upcoming_start, ((d.arrange_perm r.sources).map room).sum_nat]
  refine Act.ensures_bind (Act.ensures_get ?_)
  refine Act.ensures_except_bind (fun _ _ ↦ trivial) fun _ _ ↦ Act.ensures_bind ?_
  refine (activate_bounded h d _ r).imp fun _ r' hr' ↦ Act.ensures_modify ?_
  refine ⟨Nat.le_trans hr'.1 hfirst, ?_, hr'.2⟩
  rw [ahead_moved (by cases d <;> rfl)]
  rfl

theorem bounded (h : w.Bounded room μ) :
    (walker w ctx).Bounded (fun r ↦ (r.sources.map room).sum) (ahead room μ) := by
  refine ⟨fun d r ↦ (rewind_bounded h d r).imp fun _ r' hr' ↦ ?_, fun d r ↦ ?_⟩
  · obtain ⟨hleft, hahead, hsum⟩ := hr'
    exact ⟨hahead ▸ hleft, hsum⟩
  · refine ensures_advance (I := fun r' ↦ left room μ d r' ≤ ahead room μ d r) (fun _ ↦ trivial)
      (fun hfresh ↦ ?_) (fun hmoved ↦ ?_) fun r' hle ↦ ?_
    · have hahead : ahead room μ d r = (r.sources.map room).sum := if_pos hfresh
      exact (rewind_bounded h d r).imp fun _ r' hr' ↦ hahead ▸ hr'.1
    · exact Nat.le_of_eq (if_neg (Bool.eq_false_iff.1 hmoved)).symm
    · refine (sweep_bounded h d r.size r').imp fun found r'' hr'' ↦ ?_
      rw [ahead_moved (by cases found <;> cases d <;> rfl)]
      exact Nat.le_trans hr'' hle

end Relay

/-! ## Cursors -/

namespace Cursor

/-- What is ahead of a cursor that is moved by the walker of the height. -/
def ahead : Nat → Direction → Cursor → Nat
  | 0, _, _ => 0
  | n + 1, d, c =>
    match c with
    | reel r => r.ahead d
    | monitored _ inner => ahead n d inner
    | sieve s => s.ahead extent (ahead n) d
    | relay r => r.ahead extent (ahead n) d

/-- **From the edge, no more moves find an element than the extent says.** -/
theorem walker_bounded (ctx : Context) (n : Nat) : (walker ctx n).Bounded extent (ahead n) := by
  induction n with
  | zero =>
    exact ⟨fun _ _ ↦ Act.ensures_pure ⟨Nat.zero_le _, Nat.le_refl _⟩,
      fun _ _ ↦ Act.ensures_pure (Nat.le_refl _)⟩
  | succ n ih =>
    have hsieve : (Sieve.walker (walker ctx n) ctx).Bounded _ _ := Sieve.bounded ih
    have hrelay : (Relay.walker (walker ctx n) ctx).Bounded _ _ := Relay.bounded ih
    refine ⟨fun d c ↦ ?_, fun d c ↦ ?_⟩
    · cases c with
      | reel r => exact Reel.bounded.rewind d r
      | monitored m inner => exact ih.rewind d inner
      | sieve s => exact hsieve.rewind d s
      | relay r =>
        have hr := hrelay.rewind d r
        simp only [← extentOf_eq_sum] at hr
        exact hr
    · cases c with
      | reel r => exact Reel.bounded.advance d r
      | monitored m inner =>
        rw [Act.Ensures, advance_monitored]
        cases m.refusal? with
        | none => exact ih.advance d inner
        | some e => exact Effect.ensures_pure trivial
      | sieve s => exact hsieve.advance d s
      | relay r => exact hrelay.advance d r

end Cursor
end DirectoryQuery
