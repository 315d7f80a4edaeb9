import DirectoryQuery.Proofs.Relays
import DirectoryQuery.Proofs.Tracking

/-!
# What the operands yield between them

An operand yields those entries of its list that it need not skip, which are its *share*.  A relay
goes through the shares one after the other (`Relay.shares`), and what is ahead of it can be read
off from the operand that is active and from where this operand stands (`Relay.sharesAhead`).

While an operand is on an entry of its share, what is ahead in the one direction and in the other
one make up all shares (`Relay.arrange_shares`).  When the other operands are told to skip the entry
(`Relay.Tells`), it goes from their shares and stays where it is.
-/

set_option autoImplicit false

namespace DirectoryQuery

namespace Direction

variable {α β : Type}

theorem arrange_arrange (d : Direction) (l : List α) : d.arrange (d.arrange l) = l := by
  cases d with
  | forward => rfl
  | backward => exact l.reverse_reverse

theorem arrange_opposite (d : Direction) (l : List α) :
    d.opposite.arrange l = (d.arrange l).reverse := by
  cases d with
  | forward => rfl
  | backward => exact l.reverse_reverse.symm

theorem arrange_flatMap (d : Direction) (l : List α) (f : α → List β) :
    d.arrange (l.flatMap f) = (d.arrange l).flatMap fun a ↦ d.arrange (f a) := by
  cases d with
  | forward => rfl
  | backward => exact List.reverse_flatMap

end Direction

/-- An element that is listed once is not ahead of the place where it is listed. -/
theorem Listing.not_mem_upcoming {α : Type} {l : List α} {i : Nat} {a : α} (hl : l.Nodup)
    (hi : l[i]? = some a) (d : Direction) : a ∉ upcoming l d (.onElement i) := by
  have hnodup := ((d.arrange_perm l).nodup_iff.2 hl)
  rw [arrange_eq hi d] at hnodup
  exact (List.nodup_cons.1 (List.nodup_append.1 hnodup).2.1).1

/-- What is ahead comes last in the order in which a traversal visits the list. -/
theorem Listing.upcoming_suffix {α : Type} {l : List α} {p : Position Nat}
    (hp : Sound l.length p) (d : Direction) : upcoming l d p <:+ d.arrange l := by
  cases p with
  | closed => exact hp.elim
  | onElement i =>
    rw [arrange_eq (List.getElem?_eq_getElem hp) d]
    exact (List.suffix_cons _ _).trans (List.suffix_append _ _)
  | _ => cases d <;> first | exact List.suffix_refl _ | exact List.nil_suffix

namespace Relay

variable {ids : Nat → List EntryId} {skips skips' : Nat → EntryId → Bool}
  {n i j : Nat} {d : Direction} {p : Position Nat} {x : EntryId}

/-! ## Shares -/

/-- The entries of its list that an operand need not skip. -/
def share (ids : Nat → List EntryId) (skips : Nat → EntryId → Bool) (j : Nat) : List EntryId :=
  (ids j).filter fun i ↦ !skips j i

/-- The shares of all operands, one after the other. -/
def shares (ids : Nat → List EntryId) (skips : Nat → EntryId → Bool) (n : Nat) : List EntryId :=
  (List.range n).flatMap (share ids skips)

/-- The shares of the operands that come after one of them. -/
def sharesAfter (ids : Nat → List EntryId) (skips : Nat → EntryId → Bool) (n : Nat) (d : Direction)
    (j : Nat) : List EntryId :=
  (Listing.upcoming (List.range n) d (.onElement j)).flatMap fun k ↦ d.arrange (share ids skips k)

/-- What is ahead while the operand is active and stands at the position. -/
def sharesAhead (ids : Nat → List EntryId) (skips : Nat → EntryId → Bool) (n : Nat) (d : Direction)
    (j : Nat) (p : Position Nat) : List EntryId :=
  ((Listing.upcoming (ids j) d p).filter fun i ↦ !skips j i) ++ sharesAfter ids skips n d j

/-- At the edge, the whole share of the operand is ahead, and those of the operands after it. -/
theorem sharesAhead_start (ids : Nat → List EntryId) (skips : Nat → EntryId → Bool) (n : Nat)
    (d : Direction) (j : Nat) :
    sharesAhead ids skips n d j (.start d) =
      (j :: Listing.upcoming (List.range n) d (.onElement j)).flatMap
        fun k ↦ d.arrange (share ids skips k) := by
  rw [sharesAhead, Listing.upcoming_start, List.flatMap_cons, share, d.arrange_filter]
  rfl

theorem sharesAhead_finish (ids : Nat → List EntryId) (skips : Nat → EntryId → Bool) (n : Nat)
    (d : Direction) (j : Nat) :
    sharesAhead ids skips n d j (.finish d) = sharesAfter ids skips n d j := by
  rw [sharesAhead, Listing.upcoming_finish]
  rfl

/-- At the edge of the first operand, all shares are ahead in the one direction and nothing in the
other one. -/
theorem sharesAhead_edge (hj : j < n)
    (hedge : Listing.upcoming (List.range n) d.opposite (.onElement j) = []) (e : Direction) :
    sharesAhead ids skips n e j (.start d) =
      Listing.upcoming (shares ids skips n) e (.start d) := by
  have hrange : (List.range n)[j]? = some j := List.getElem?_range hj
  rcases d.eq_or_eq_opposite e with rfl | rfl
  · rw [sharesAhead_start, Listing.upcoming_start, shares, e.arrange_flatMap,
      Listing.arrange_eq hrange e, hedge]
    rfl
  · have hstart : (Position.start d : Position Nat) = .finish d.opposite := by cases d <;> rfl
    rw [hstart, sharesAhead_finish, Listing.upcoming_finish, sharesAfter, hedge]
    rfl

theorem arrange_sharesAfter (ids : Nat → List EntryId) (skips : Nat → EntryId → Bool) (n : Nat)
    (d : Direction) (j : Nat) :
    ((Listing.upcoming (List.range n) d.opposite (.onElement j)).reverse.flatMap
      fun k ↦ d.arrange (share ids skips k)) = (sharesAfter ids skips n d.opposite j).reverse := by
  rw [sharesAfter, List.reverse_flatMap]
  refine congrArg (List.flatMap · _) (funext fun k ↦ ?_)
  rw [Function.comp_apply, Direction.arrange_opposite, List.reverse_reverse]

/-- **All shares, as a traversal visits them, are what is behind an entry, then the entry, and then
what is ahead.** -/
theorem arrange_shares (hj : j < n) (hi : (ids j)[i]? = some x) (hx : skips j x = false)
    (d : Direction) :
    d.arrange (shares ids skips n) =
      (sharesAhead ids skips n d.opposite j (.onElement i)).reverse ++
        x :: sharesAhead ids skips n d j (.onElement i) := by
  have hrange : (List.range n)[j]? = some j := List.getElem?_range hj
  have hshare : d.arrange (share ids skips j) =
      ((Listing.upcoming (ids j) d.opposite (.onElement i)).filter fun k ↦ !skips j k).reverse ++
        x :: (Listing.upcoming (ids j) d (.onElement i)).filter fun k ↦ !skips j k := by
    rw [share, d.arrange_filter, Listing.arrange_eq hi d, List.filter_append, List.filter_reverse,
      List.filter_cons_of_pos (by rw [hx]; rfl)]
  calc d.arrange (shares ids skips n)
      = (sharesAfter ids skips n d.opposite j).reverse ++
          (d.arrange (share ids skips j) ++ sharesAfter ids skips n d j) := by
        rw [shares, d.arrange_flatMap, Listing.arrange_eq hrange d, List.flatMap_append,
          arrange_sharesAfter, List.flatMap_cons]
        rfl
    _ = _ := by
        rw [hshare, sharesAhead, sharesAhead, List.reverse_append]
        simp only [List.append_assoc, List.cons_append]

/-! ## Telling operands -/

/-- All operands but the one now skip the entry if it is in their lists; nothing else has changed
that matters. -/
def Tells (ids : Nat → List EntryId) (n : Nat) (j : Nat) (x : EntryId)
    (skips skips' : Nat → EntryId → Bool) : Prop :=
  ∀ k < n, ∀ i ∈ ids k, skips' k i = (skips k i || (k != j && i == x))

namespace Tells

/-- An operand that has been told has the entry no longer in its share. -/
theorem share_of_ne {k : Nat} (h : Tells ids n j x skips skips') (hk : k < n) (hne : k ≠ j) :
    share ids skips' k = (share ids skips k).filter (· != x) := by
  rw [share, share, List.filter_filter]
  refine List.filter_congr fun i hi ↦ ?_
  rw [h k hk i hi, bne_iff_ne.2 hne]
  cases skips k i <;> cases hix : i == x <;> simp [bne, hix]

/-- The operand itself has not been told. -/
theorem skips_self {k : EntryId} (h : Tells ids n j x skips skips') (hj : j < n)
    (hk : k ∈ ids j) : skips' j k = skips j k := by
  rw [h j hj k hk]
  simp

/-- What is ahead afterwards is what was ahead before, without the entry. -/
theorem sharesAhead_eq (h : Tells ids n j x skips skips') (hnodup : (ids j).Nodup) (hj : j < n)
    (hi : (ids j)[i]? = some x) (d : Direction) :
    sharesAhead ids skips' n d j (.onElement i) =
      (sharesAhead ids skips n d j (.onElement i)).filter (· != x) := by
  have hrange : (List.range n)[j]? = some j := List.getElem?_range hj
  rw [sharesAhead, sharesAhead, List.filter_append, List.filter_filter]
  refine congrArg₂ (· ++ ·) (List.filter_congr fun k hk ↦ ?_) ?_
  · have hne : k ≠ x := fun heq ↦ Listing.not_mem_upcoming hnodup hi d (heq ▸ hk)
    rw [h.skips_self hj (Listing.upcoming_subset _ _ _ hk), bne_iff_ne.2 hne, Bool.true_and]
  · rw [sharesAfter, sharesAfter, List.filter_flatMap]
    refine List.flatMap_congr fun k hk ↦ ?_
    have hlt : k < n := List.mem_range.1 (Listing.upcoming_subset _ _ _ hk)
    have hne : k ≠ j := fun heq ↦
      Listing.not_mem_upcoming List.nodup_range hrange d (heq ▸ hk)
    rw [h.share_of_ne hlt hne, d.arrange_filter]

end Tells
end Relay
end DirectoryQuery
