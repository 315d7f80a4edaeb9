import DirectoryQuery.Proofs.Sources

/-!
# Things that move as a cursor over a list

A traversal goes one way, but moves may turn round anywhere.  `Walker.Tracks` says that things
stand for the positions in a list, and that every move takes the thing to where it would take a
cursor over the list.

A sieve over such a thing moves as a cursor over what passes of the list (`Sieve.tracks`).  What
carries over from move to move is what is ahead of both, in either direction: of what is ahead of
the source, that part which passes is ahead of the sieve.  It is enough to look after the direction
of the move; what is ahead in the other one then follows, since the two together make up the list
(`Listing.neighbour_of_upcoming`).
-/

set_option autoImplicit false

namespace DirectoryQuery

/-- The other direction. -/
def Direction.opposite : Direction → Direction
  | .forward => .backward
  | .backward => .forward

theorem Direction.eq_or_eq_opposite (d e : Direction) : e = d ∨ e = d.opposite := by
  cases d <;> cases e <;> simp [opposite]

variable {α σ τ : Type}

/-! ## Both ways from a position -/

namespace Listing

variable {l : List α} {d : Direction} {p : Position Nat}

theorem upcoming_unpositioned (l : List α) (d : Direction) :
    upcoming l d .unpositioned = d.arrange l := by
  cases d <;> rfl

theorem upcoming_finish (l : List α) (d : Direction) : upcoming l d (.finish d) = [] := by
  cases d <;> rfl

theorem finish_eq_start {β : Type} (d : Direction) :
    (Position.finish d : Position β) = .start d.opposite := by
  cases d <;> rfl

/-- The list, as a traversal visits it, is what is behind a position on an element, then the
element, and then what is ahead. -/
theorem arrange_eq {i : Nat} {a : α} (hi : l[i]? = some a) (d : Direction) :
    d.arrange l =
      (upcoming l d.opposite (.onElement i)).reverse ++ a :: upcoming l d (.onElement i) := by
  obtain ⟨hlt, rfl⟩ := List.getElem?_eq_some_iff.1 hi
  have hsplit : l.take i ++ l[i] :: l.drop (i + 1) = l := by
    rw [← List.drop_eq_getElem_cons hlt, List.take_append_drop]
  cases d with
  | forward => simp [Direction.arrange, Direction.opposite, upcoming]
  | backward =>
    calc l.reverse = (l.take i ++ l[i] :: l.drop (i + 1)).reverse := by rw [hsplit]
      _ = _ := by simp [Direction.opposite, upcoming]

/-- What is ahead in one direction, and the list, determine where a move leads and what is ahead
in the other direction there. -/
theorem neighbour_of_upcoming {a : α} {rest behind : List α} (hp : Sound l.length p)
    (h : upcoming l d p = a :: rest) (hl : d.arrange l = behind.reverse ++ a :: rest) :
    ∃ i, neighbour l.length d p = some i ∧ l[i]? = some a ∧ upcoming l d (.onElement i) = rest ∧
      upcoming l d.opposite (.onElement i) = behind := by
  obtain ⟨-, hnil⟩ | ⟨i, b, hi, hget, hcons⟩ := neighbour_spec (d := d) hp
  · rw [h] at hnil
    exact absurd hnil (List.cons_ne_nil a rest)
  · rw [h] at hcons
    obtain ⟨rfl, rfl⟩ := List.cons.inj hcons
    refine ⟨i, hi, hget, rfl, ?_⟩
    rw [arrange_eq hget d] at hl
    exact List.reverse_inj.1 (List.append_cancel_right hl)

theorem neighbour_of_upcoming_nil (hp : Sound l.length p) (h : upcoming l d p = []) :
    neighbour l.length d p = none := by
  obtain ⟨hnone, -⟩ | ⟨i, a, -, -, hcons⟩ := neighbour_spec (d := d) hp
  · exact hnone
  · rw [h] at hcons
    exact absurd hcons.symm (List.cons_ne_nil a _)

/-- Where a move leads is a possible position again. -/
theorem sound_neighbour (hp : Sound l.length p) (d : Direction) :
    Sound l.length (.reached d (neighbour l.length d p)) := by
  obtain ⟨hnone, -⟩ | ⟨i, a, hi, hget, -⟩ := neighbour_spec (d := d) hp
  · rw [hnone]
    exact sound_finish _ d
  · rw [hi]
    exact (List.getElem?_eq_some_iff.1 hget).1

/-- At the edges, of what is ahead that part which passes is ahead in what passes. -/
theorem filter_upcoming_start (q : α → Bool) (l : List α) (e d : Direction) :
    (upcoming l d (.start e)).filter q = upcoming (l.filter q) d (.start e) := by
  cases e <;> cases d <;> simp [Position.start, upcoming, List.filter_reverse]

end Listing

/-! ## Standing for a position -/

/-- A cursor that has the one position stands where a cursor over the list has the other; the
candidate matches the element. -/
def Shows (R : α → Candidate → Prop) (l : List α) : Position Nat → Position Candidate → Prop
  | .onElement i, .onElement c => ∃ a, l[i]? = some a ∧ R a c
  | .unpositioned, .unpositioned | .beforeFirst, .beforeFirst | .afterLast, .afterLast => True
  | _, _ => False

namespace Shows

variable {R : α → Candidate → Prop} {l : List α} {p : Position Nat} {q : Position Candidate}

theorem start (R : α → Candidate → Prop) (l : List α) (d : Direction) :
    Shows R l (.start d) (.start d) := by
  cases d <;> trivial

theorem finish (R : α → Candidate → Prop) (l : List α) (d : Direction) :
    Shows R l (.finish d) (.finish d) := by
  cases d <;> trivial

theorem sound (h : Shows R l p q) : Listing.Sound l.length p := by
  cases p with
  | closed => cases q <;> exact h.elim
  | onElement i =>
    cases q with
    | onElement c =>
      obtain ⟨a, ha, -⟩ := h
      exact (List.getElem?_eq_some_iff.1 ha).1
    | _ => exact h.elim
  | _ => trivial

theorem isClosed (h : Shows R l p q) : q.isClosed = false := by
  cases p <;> cases q <;> first | rfl | exact h.elim

theorem isUnpositioned_eq (h : Shows R l p q) : q.isUnpositioned = p.isUnpositioned := by
  cases p <;> cases q <;> first | rfl | exact h.elim

theorem map_eq (h : Shows R l p q) : (q.map fun _ ↦ ()) = p.map fun _ ↦ () := by
  cases p <;> cases q <;> first | rfl | exact h.elim

theorem element {s : Standing Candidate} {i : Nat} (h : Shows R l (.onElement i) s.position) :
    ∃ a c, l[i]? = some a ∧ s.element .get = .ok c ∧ R a c := by
  obtain ⟨position, cause⟩ := s
  cases position with
  | onElement c =>
    obtain ⟨a, ha, hc⟩ := h
    exact ⟨a, c, ha, rfl, hc⟩
  | _ => exact h.elim

end Shows

/-! ## Moving as a cursor over the list -/

namespace Walker

/-- Every move takes a thing that stands for a position in the list to one that stands for the
position to which the move takes a cursor over the list. -/
structure Tracks (w : Walker σ) (R : α → Candidate → Prop) (l : List α)
    (T : Position Nat → σ → Prop) : Prop where
  sound {p : Position Nat} {s : σ} : T p s → Listing.Sound l.length p
  rewind {p : Position Nat} {s : σ} (d : Direction) : T p s →
    (w.rewind d).Ensures s (fun _ s' ↦ T (.start d) s') fun _ _ ↦ False
  advance {p : Position Nat} {s : σ} (d : Direction) : T p s →
    (w.advance d).Ensures s
      (fun found s' ↦ found = (Listing.neighbour l.length d p).isSome ∧
        T (.reached d (Listing.neighbour l.length d p)) s')
      fun _ _ ↦ False
  current {i : Nat} {s : σ} : T (.onElement i) s →
    ∃ a c, l[i]? = some a ∧ w.current s = .ok c ∧ R a c
  room {p : Position Nat} {s : σ} : T p s → l.length ≤ w.extent s

variable {w : Walker σ} {R S : α → Candidate → Prop} {l : List α} {T : Position Nat → σ → Prop}
  {p : Position Nat} {s : σ} {q : α → Bool} {accept : Act Candidate Bool}

/-- What looking for a candidate has come to: either nothing that is ahead passes, or the thing
stands on the first element that does. -/
def Landed (d : Direction) (S : α → Candidate → Prop) (q : α → Bool) (l : List α)
    (T : Position Nat → σ → Prop) (p : Position Nat) : Option Candidate → σ → Prop
  | none, s => T (.finish d) s ∧ (Listing.upcoming l d p).filter q = []
  | some c, s => ∃ i a, T (.onElement i) s ∧ l[i]? = some a ∧ q a = true ∧ S a c ∧
      (Listing.upcoming l d p).filter q = a :: (Listing.upcoming l d (.onElement i)).filter q

/-- Looking for a candidate goes to the first element ahead that passes. -/
theorem Tracks.seek (h : w.Tracks R l T)
    (haccept : ∀ a ∈ l, ∀ c, R a c → accept.Ensures c
      (fun accepted c' ↦ accepted = q a ∧ (q a = true → S a c')) fun _ _ ↦ False)
    (d : Direction) (hs : T p s) :
    (w.seek d accept).Ensures s (Landed d S q l T p) fun _ _ ↦ False := by
  have hmoves : (Listing.upcoming l d p).length < w.extent s + 1 :=
    Nat.lt_succ_of_le (Nat.le_trans (Listing.length_upcoming_le l d p) (h.room hs))
  refine Act.ensures_bind (Act.ensures_get ?_)
  generalize w.extent s + 1 = moves at hmoves
  induction moves generalizing p s with
  | zero => exact absurd hmoves (Nat.not_lt_zero _)
  | succ moves ih =>
    refine Act.ensures_bind ((h.advance d hs).imp ?_)
    intro found s' hpost
    obtain ⟨rfl, hs'⟩ := hpost
    obtain ⟨hnone, hnil⟩ | ⟨i, a, hi, hget, hcons⟩ := Listing.neighbour_spec (d := d) (h.sound hs)
    · rw [hnone] at hs' ⊢
      refine Act.ensures_pure ⟨hs', ?_⟩
      rw [hnil]
      rfl
    · rw [hi] at hs' ⊢
      replace hs' : T (.onElement i) s' := hs'
      obtain ⟨a', c, hget', hc, hac⟩ := h.current hs'
      obtain rfl := Option.some.inj (hget.symm.trans hget')
      refine Act.ensures_bind (Act.ensures_tally (Act.ensures_bind (Act.ensures_get ?_)))
      refine Act.ensures_ok_bind hc (Act.ensures_bind (Act.ensures_attempt (Act.ensures_on ?_)))
      refine (haccept a (List.mem_of_getElem? hget) c hac).imp ?_
      intro _ c' hpost
      obtain ⟨rfl, hS⟩ := hpost
      cases hq : q a with
      | true =>
        refine Act.ensures_pure ⟨i, a, hs', hget, hq, hS hq, ?_⟩
        rw [hcons, List.filter_cons_of_pos hq]
      | false =>
        have hfilter : (Listing.upcoming l d p).filter q =
            (Listing.upcoming l d (.onElement i)).filter q := by
          rw [hcons, List.filter_cons_of_neg (by rw [hq]; decide)]
        have hlater := ih hs' (by rw [hcons, List.length_cons] at hmoves; omega)
        refine hlater.imp fun found s'' hfound ↦ ?_
        cases found <;> simpa only [Landed, hfilter] using hfound

/-- The same moves read as moves over a list of other elements. -/
theorem Tracks.map {β : Type} {S : β → Candidate → Prop} {f : α → β} (h : w.Tracks R l T)
    (hf : ∀ a ∈ l, ∀ c, R a c → S (f a) c) : w.Tracks S (l.map f) T := by
  have hlen : (l.map f).length = l.length := List.length_map f
  refine ⟨?_, h.rewind, ?_, ?_, ?_⟩
  · rw [hlen]
    exact h.sound
  · rw [hlen]
    exact h.advance
  · intro i s hs
    obtain ⟨a, c, ha, hc, hac⟩ := h.current hs
    exact ⟨f a, c, by rw [List.getElem?_map, ha]; rfl, hc, hf a (List.mem_of_getElem? ha) c hac⟩
  · rw [hlen]
    exact h.room

/-- What is ahead of the position is what the rest of a traversal visits. -/
theorem Tracks.yields (h : w.Tracks R l T) (hs : T p s) (d : Direction) :
    w.Yields d (fun _ ↦ False) R (Listing.upcoming l d p) s := by
  generalize hahead : Listing.upcoming l d p = ahead
  induction ahead generalizing p s with
  | nil =>
    refine (h.advance d hs).imp ?_
    rintro _ s' ⟨rfl, -⟩
    rw [Listing.neighbour_of_upcoming_nil (h.sound hs) hahead]
    rfl
  | cons a rest ih =>
    have hroom : rest.length < w.extent s := by
      have hle := Nat.le_trans (Listing.length_upcoming_le l d p) (h.room hs)
      rwa [hahead] at hle
    refine ⟨hroom, (h.advance d hs).imp ?_⟩
    rintro _ s' ⟨rfl, hs'⟩
    obtain ⟨-, hnil⟩ | ⟨i, b, hi, hget, hcons⟩ := Listing.neighbour_spec (d := d) (h.sound hs)
    · rw [hahead] at hnil
      exact absurd hnil (List.cons_ne_nil a rest)
    · rw [hahead] at hcons
      obtain ⟨rfl, rfl⟩ := List.cons.inj hcons
      rw [hi] at hs' ⊢
      obtain ⟨b, c, hget', hc, hac⟩ := h.current hs'
      obtain rfl := Option.some.inj (hget.symm.trans hget')
      exact ⟨rfl, ⟨c, hc, hac⟩, ih hs' rfl⟩

/-- A traversal visits the list. -/
theorem Tracks.ready (h : w.Tracks R l T) (hs : T p s) (d : Direction) :
    w.Ready d (fun _ ↦ False) R (d.arrange l) s := by
  refine ⟨?_, (h.rewind d hs).imp fun _ s' hs' ↦ ?_⟩
  · rw [(d.arrange_perm l).length_eq]
    exact h.room hs
  · rw [← Listing.upcoming_start]
    exact h.yields hs' d

/-- Things that are moved alike move as a cursor over the same list. -/
theorem Embeds.tracks {f : σ → τ} {w' : Walker τ} (hf : Embeds f w w') (h : w.Tracks R l T) :
    w'.Tracks R l fun p t ↦ ∃ s, t = f s ∧ T p s := by
  refine ⟨?_, ?_, ?_, ?_, ?_⟩
  · rintro p _ ⟨s, rfl, hs⟩
    exact h.sound hs
  · rintro p _ d ⟨s, rfl, hs⟩
    exact hf.ensures_rewind ((h.rewind d hs).imp fun _ s' hs' ↦ ⟨s', rfl, hs'⟩)
  · rintro p _ d ⟨s, rfl, hs⟩
    refine hf.ensures_advance ((h.advance d hs).imp fun found s' hpost ↦ ?_)
    exact ⟨hpost.1, s', rfl, hpost.2⟩
  · rintro i _ ⟨s, rfl, hs⟩
    obtain ⟨a, c, ha, hc, hac⟩ := h.current hs
    exact ⟨a, c, ha, (hf.current s).trans hc, hac⟩
  · rintro p _ ⟨s, rfl, hs⟩
    exact Nat.le_trans (h.room hs) (hf.extent s)

end Walker

/-! ## Sieves -/

namespace Sieve

variable {w : Walker σ} {ctx : Context} {R S : α → Candidate → Prop} {l : List α}
  {T : Position Nat → σ → Prop} {q : α → Bool} {x : Acceptance} {idle : List σ}
  {p : Position Nat} {s : Sieve σ}

/-- The sieve stands for the position in what passes of the list: the source has ahead of it, in
either direction, what passes of the list and is ahead from the position. -/
structure StandsAt (S : α → Candidate → Prop) (q : α → Bool) (l : List α)
    (T : Position Nat → σ → Prop) (x : Acceptance) (idle : List σ) (p : Position Nat)
    (s : Sieve σ) : Prop where
  acceptance : s.acceptance = x
  idle : s.idle = idle
  shows : Shows S (l.filter q) p s.standing.position
  source : ∃ i, T i s.source ∧ (p.isUnpositioned = false →
    ∀ d, (Listing.upcoming l d i).filter q = Listing.upcoming (l.filter q) d p)

theorem StandsAt.checkOpen (h : StandsAt S q l T x idle p s) (operation : Operation) :
    s.standing.checkOpen operation = .ok () :=
  Standing.checkOpen_eq_ok h.shows.isClosed _

/-- A search that begins where, of what is ahead, that part which passes is ahead from the position
of the sieve takes the sieve where a cursor over what passes goes. -/
theorem StandsAt.landed {d : Direction} {found : Option Candidate} {source : σ} {i : Position Nat}
    (h : StandsAt S q l T x idle p s)
    (hi : (Listing.upcoming l d i).filter q = Listing.upcoming (l.filter q) d p)
    (hfound : Walker.Landed d S q l T i found source) :
    found.isSome = (Listing.neighbour (l.filter q).length d p).isSome ∧
      StandsAt S q l T x idle (.reached d (Listing.neighbour (l.filter q).length d p))
        { s with source, standing := s.standing.moveTo (.reached d found) } := by
  have hsound := h.shows.sound
  cases found with
  | none =>
    obtain ⟨hsource, hnil⟩ := hfound
    rw [hi] at hnil
    rw [Listing.neighbour_of_upcoming_nil hsound hnil]
    refine ⟨rfl, h.acceptance, h.idle, Shows.finish S _ d, .finish d, hsource, fun _ e ↦ ?_⟩
    show (Listing.upcoming l e (.finish d)).filter q = Listing.upcoming (l.filter q) e (.finish d)
    rw [Listing.finish_eq_start, Listing.filter_upcoming_start]
  | some c =>
    obtain ⟨j, a, hsource, hget, ha, hc, hcons⟩ := hfound
    rw [hi] at hcons
    have hsplit : d.arrange (l.filter q) =
        ((Listing.upcoming l d.opposite (.onElement j)).filter q).reverse ++
          a :: (Listing.upcoming l d (.onElement j)).filter q := by
      rw [d.arrange_filter, Listing.arrange_eq hget d, List.filter_append, List.filter_reverse,
        List.filter_cons_of_pos ha]
    obtain ⟨k, hk, hget', hahead, hbehind⟩ := Listing.neighbour_of_upcoming hsound hcons hsplit
    rw [hk]
    refine ⟨rfl, h.acceptance, h.idle, ⟨a, hget', hc⟩, .onElement j, hsource, fun _ e ↦ ?_⟩
    show _ = Listing.upcoming (l.filter q) e (.onElement k)
    rcases d.eq_or_eq_opposite e with rfl | rfl
    · exact hahead.symm
    · exact hbehind.symm

/-- **A sieve moves as a cursor over what passes of the list.** -/
theorem tracks (h : w.Tracks R l T) (hx : Decides ctx x (fun _ ↦ False) R S q l) :
    (walker w ctx).Tracks S (l.filter q) (StandsAt S q l T x idle) := by
  refine ⟨fun hs ↦ hs.shows.sound, fun {p s} d hs ↦ ?_, fun {p s} d hs ↦ ?_,
    fun hs ↦ hs.shows.element, fun {p s} hs ↦ ?_⟩
  · obtain ⟨i, hi, -⟩ := hs.source
    refine Act.ensures_bind (Act.ensures_get (Act.ensures_ok_bind (hs.checkOpen _) ?_))
    refine Act.ensures_bind (ensures_onSource ((h.rewind d hi).imp fun _ source hsource ↦ ?_))
    refine Act.ensures_modify ⟨hs.acceptance, hs.idle, Shows.start S _ d, .start d, hsource, ?_⟩
    exact fun _ e ↦ Listing.filter_upcoming_start q l d e
  · obtain ⟨i, hi, hahead⟩ := hs.source
    refine ensures_advance (I := fun source ↦ ∃ i, T i source ∧
      (Listing.upcoming l d i).filter q = Listing.upcoming (l.filter q) d p) ?_ ?_ ?_ ?_
    · exact fun hclosed ↦ absurd (hclosed.symm.trans hs.shows.isClosed) nofun
    · intro hfresh
      refine (h.rewind d hi).imp fun _ source hsource ↦ ⟨.start d, hsource, ?_⟩
      rw [hs.shows.isUnpositioned_eq] at hfresh
      cases p with
      | unpositioned =>
        rw [Listing.upcoming_start, Listing.upcoming_unpositioned, d.arrange_filter]
      | _ => cases hfresh
    · intro hmoved
      rw [hs.shows.isUnpositioned_eq] at hmoved
      exact ⟨i, hi, hahead hmoved d⟩
    · rintro source ⟨i, hi, hahead⟩
      have hx' : Decides ctx s.acceptance (fun _ ↦ False) R S q l := hs.acceptance ▸ hx
      exact (h.seek hx' d hi).imp fun found source' hfound ↦ hs.landed hahead hfound
  · obtain ⟨i, hi, -⟩ := hs.source
    exact Nat.le_trans (List.length_filter_le q l) (h.room hi)

end Sieve
end DirectoryQuery
