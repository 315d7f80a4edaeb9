import DirectoryQuery.Directory.Reverse

/-!
# Moving a cursor until something is found

Cursors that have other cursors within them need four things of those: to go to an edge, to move by
one element, the candidate they stand on, and a bound on how many elements they have.  A `Walker`
offers these for things of one type, so that the cursors built on it need not know of which kind the
cursors within them are.

Moving in one direction visits no more elements than the bound says, so a search of that many moves
and one more either finds a candidate or reaches the end.
-/

set_option autoImplicit false

namespace DirectoryQuery

/-- How to move over the elements of a thing of type `σ`. -/
structure Walker (σ : Type) where
  /-- Goes to the edge where a traversal in the direction begins. -/
  rewind : Direction → Act σ Unit
  /-- Moves by one element and tells whether there was one. -/
  advance : Direction → Act σ Bool
  /-- The candidate it stands on. -/
  current : σ → Except SearchError Candidate
  /-- How many elements there are at most. -/
  extent : σ → Nat

namespace Walker

variable {σ : Type}

/-- Moves nowhere. -/
def still : Walker σ :=
  ⟨fun _ ↦ return (), fun _ ↦ return false, fun _ ↦ .error (.invalidPosition .get), fun _ ↦ 0⟩

/-- Moves, at most so many times, until a candidate is accepted.  What the acceptance does to a
candidate is done to a copy. -/
def seekWithin (w : Walker σ) (d : Direction) (accept : Act Candidate Bool) :
    Nat → Act σ (Option Candidate)
  | 0 => return none
  | moves + 1 => do
    if ← w.advance d then
      tally .examined
      let (accepted, c) ← Act.attempt (accept.on (← w.current (← get)))
      if accepted then return some c else w.seekWithin d accept moves
    else return none

/-- Moves until a candidate is accepted or there is none left. -/
def seek (w : Walker σ) (d : Direction) (accept : Act Candidate Bool) :
    Act σ (Option Candidate) := do
  w.seekWithin d accept (w.extent (← get) + 1)

/-- The identifiers of the elements that come next, for at most so many moves. -/
def collectWithin (w : Walker σ) (d : Direction) : Nat → Act σ (List EntryId)
  | 0 => return []
  | moves + 1 => do
    if ← w.advance d then
      let c ← w.current (← get)
      return c.id :: (← w.collectWithin d moves)
    else return []

/-- The identifiers of all elements in the order of a traversal. -/
def collect (w : Walker σ) (d : Direction) : Act σ (List EntryId) := do
  w.rewind d
  w.collectWithin d (w.extent (← get) + 1)

end Walker
end DirectoryQuery
