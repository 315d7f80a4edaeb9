import DirectoryQuery.Candidate
import DirectoryQuery.Cursor.Position
import DirectoryQuery.Trace

/-!
# Cursors over lists

The simplest cursor has its candidates in a list.  A first move begins at the edge where its
direction begins, and at an edge a move outwards stays where it is.

A list cursor forgets its candidates when it is closed.
-/

set_option autoImplicit false

namespace DirectoryQuery

/-- A cursor over a list of candidates. -/
structure Listing where
  candidates : List Candidate
  /-- Where the cursor stands, elements being counted from zero. -/
  standing : Standing Nat

namespace Listing

/-- The cursor over a list, not moved yet. -/
def ofList (candidates : List Candidate) : Listing := ⟨candidates, .fresh⟩

/-- The number of candidates. -/
def size (l : Listing) : Nat := l.candidates.length

/-- The element next to a position among `n` elements. -/
def neighbour (n : Nat) : Direction → Position Nat → Option Nat
  | .forward, .unpositioned => if 0 < n then some 0 else none
  | .forward, .beforeFirst => if 0 < n then some 0 else none
  | .forward, .onElement i => if i + 1 < n then some (i + 1) else none
  | .backward, .unpositioned => if 0 < n then some (n - 1) else none
  | .backward, .afterLast => if 0 < n then some (n - 1) else none
  | .backward, .onElement i => if 0 < i then some (i - 1) else none
  | _, _ => none

/-- Goes to the edge where a traversal in the direction begins. -/
def rewind (d : Direction) : Act Listing Unit := do
  let l ← get
  l.standing.checkOpen d.rewinding
  set { l with standing := l.standing.moveTo (.start d) }

/-- Moves by one element and tells whether there was one. -/
def advance (d : Direction) : Act Listing Bool := do
  let l ← get
  l.standing.checkOpen d.moving
  let found := neighbour l.size d l.standing.position
  set { l with standing := l.standing.moveTo (.reached d found) }
  return found.isSome

/-- The candidate the cursor stands on. -/
def current (l : Listing) : Except SearchError Candidate := do
  match l.candidates[← l.standing.element .get]? with
  | some c => .ok c
  | none => .error (.invalidPosition .get)

/-- The fields of the log line about the closing of a cursor. -/
def closedFields (kind : String) (cause : Option SearchError) : List (String × String) :=
  match cause with
  | some cause => [("kind", kind), ("cause", cause.message)]
  | none => [("kind", kind)]

/-- Closes the cursor, the first time only. -/
def release (cause : Option SearchError) : Act Listing Unit := do
  let l ← get
  if !l.standing.position.isClosed then
    set { l with candidates := [], standing := l.standing.close cause }
    note .cursorClosed (closedFields "list" cause)

end Listing
end DirectoryQuery
