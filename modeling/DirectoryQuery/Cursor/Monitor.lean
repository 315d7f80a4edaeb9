import DirectoryQuery.Cursor.Listing

/-!
# Monitored cursors

A monitor stands for what can go wrong in a store: it lets a cursor fail from a given move on, or
when it is released, and it keeps account of the releases.  A *reel* is the cursor that stores and
indexes hand out: a cursor over a list, which may be monitored.
-/

set_option autoImplicit false

namespace DirectoryQuery

/-- What a monitor does to the cursor behind it. -/
structure Monitor where
  label : String
  /-- The number of the first move that fails, counted from one. -/
  failsFrom : Option Nat
  /-- Whether a release fails. -/
  failsToClose : Bool
  /-- The number of moves so far. -/
  moves : Nat

namespace Monitor

/-- The number of the move that comes next. -/
def nextMove (m : Monitor) : Nat := m.moves + 1

/-- The monitor after one more move. -/
def counted (m : Monitor) : Monitor := { m with moves := m.nextMove }

/-- The failure of the next move, if it fails. -/
def refusal? (m : Monitor) : Option SearchError :=
  match m.failsFrom with
  | some n =>
    if n ≤ m.nextMove then
      some (.store (.backend (m.label ++ " move " ++ toString m.nextMove ++ " refused")))
    else none
  | none => none

/-- The outcome of a release when that of the cursor behind the monitor is given. -/
def released (m : Monitor) : Except SearchError Unit → Except SearchError Unit
  | .error e => .error e
  | .ok () =>
    if m.failsToClose then .error (.evaluation m.label "refused to close" none) else .ok ()

end Monitor

/-- A cursor over a list, monitored or not. -/
structure Reel where
  listing : Listing
  monitor : Option Monitor

namespace Reel

/-- The cursor over a list of candidates, not monitored. -/
def ofList (candidates : List Candidate) : Reel := ⟨.ofList candidates, none⟩

/-- An act on the list cursor behind the monitor. -/
def onListing {α : Type} (act : Act Listing α) : Act Reel α :=
  act.within Reel.listing fun r l ↦ { r with listing := l }

/-- Goes to the edge where a traversal in the direction begins. -/
def rewind (d : Direction) : Act Reel Unit := onListing (Listing.rewind d)

/-- Moves by one element, unless the monitor refuses. -/
def advance (d : Direction) : Act Reel Bool := do
  let r ← get
  set { r with monitor := r.monitor.map Monitor.counted }
  match r.monitor.bind Monitor.refusal? with
  | some e => throw e
  | none => onListing (Listing.advance d)

/-- The candidate the cursor stands on. -/
def current (r : Reel) : Except SearchError Candidate := r.listing.current

/-- Closes the cursor. -/
def release (cause : Option SearchError) : Act Reel Unit :=
  Act.of fun r ↦
    match r.monitor with
    | none => (onListing (Listing.release cause)).perform r
    | some m => do
      noteRelease m.label
      let (outcome, changed) ← (onListing (Listing.release cause)).perform r
      return (m.released outcome, changed)

end Reel
end DirectoryQuery
