import DirectoryQuery.Cursor.Relay
import DirectoryQuery.Cursor.Sieve

/-!
# Cursors

A cursor is a tree: reels at the bottom, sieves and relays above them, and a monitor where one is
wanted.  It is moved by a `Walker` made for its height: to move a sieve or a relay is to move the
cursors within it, which are lower by one at least.

Closing a cursor closes every cursor within it, whatever fails on the way; the first failure is
reported.  A sieve or relay that is closed already stays as it is.
-/

set_option autoImplicit false

namespace DirectoryQuery

/-- A cursor of any kind. -/
inductive Cursor where
  | reel (r : Reel)
  | monitored (m : Monitor) (inner : Cursor)
  | sieve (s : Sieve Cursor)
  | relay (r : Relay Cursor)

namespace Cursor

/-- The cursor over a list of candidates. -/
def ofList (candidates : List Candidate) : Cursor := reel (.ofList candidates)

/-! ## Standing still -/

mutual
/-- How many cursors stand on top of each other. -/
def height : Cursor → Nat
  | reel _ => 1
  | monitored _ inner => height inner + 1
  | sieve ⟨_, source, idle, _⟩ => max (height source) (heightOf idle) + 1
  | relay ⟨sources, _, _, _⟩ => heightOf sources + 1
/-- The greatest height of cursors side by side. -/
def heightOf : List Cursor → Nat
  | [] => 0
  | c :: cs => max (height c) (heightOf cs)
end

mutual
/-- How many elements a traversal in one direction has at most. -/
def extent : Cursor → Nat
  | reel r => r.listing.size
  | monitored _ inner => extent inner
  | sieve ⟨_, source, _, _⟩ => extent source
  | relay ⟨sources, _, _, _⟩ => extentOf sources
/-- How many elements cursors have together at most. -/
def extentOf : List Cursor → Nat
  | [] => 0
  | c :: cs => extent c + extentOf cs
end

/-- The candidate the cursor stands on. -/
def current : Cursor → Except SearchError Candidate
  | reel r => r.current
  | monitored _ inner => current inner
  | sieve s => s.current
  | relay r => r.current

/-- Where the cursor stands. -/
def position : Cursor → Position Unit
  | reel r => r.listing.standing.position.map fun _ ↦ ()
  | monitored _ inner => position inner
  | sieve s => s.standing.position.map fun _ ↦ ()
  | relay r => r.standing.position.map fun _ ↦ ()

/-- Whether the cursor is closed. -/
def isClosed (c : Cursor) : Bool := c.position.isClosed

/-! ## Moving -/

/-- Goes to the edge where a traversal begins, the cursors within being moved as given. -/
def rewindBy (w : Walker Cursor) (d : Direction) : Act Cursor Unit :=
  Act.of fun
    | reel r => do
      let (outcome, r) ← (Reel.rewind d).perform r
      return (outcome, reel r)
    | monitored m inner => do
      let (outcome, inner) ← (w.rewind d).perform inner
      return (outcome, monitored m inner)
    | sieve s => do
      let (outcome, s) ← (Sieve.rewind w d).perform s
      return (outcome, sieve s)
    | relay r => do
      let (outcome, r) ← (Relay.rewind w d).perform r
      return (outcome, relay r)

/-- Moves by one element, the cursors within being moved as given. -/
def advanceBy (w : Walker Cursor) (ctx : Context) (d : Direction) : Act Cursor Bool :=
  Act.of fun
    | reel r => do
      let (outcome, r) ← (Reel.advance d).perform r
      return (outcome, reel r)
    | monitored m inner =>
      match m.refusal? with
      | some e => return (.error e, monitored m.counted inner)
      | none => do
        let (outcome, inner) ← (w.advance d).perform inner
        return (outcome, monitored m.counted inner)
    | sieve s => do
      let (outcome, s) ← (Sieve.advance w ctx d).perform s
      return (outcome, sieve s)
    | relay r => do
      let (outcome, r) ← (Relay.advance w ctx d).perform r
      return (outcome, relay r)

/-- How to move cursors that are no higher than the number given. -/
def walker (ctx : Context) : Nat → Walker Cursor
  | 0 => .still
  | height + 1 =>
    let within := walker ctx height
    ⟨rewindBy within, advanceBy within ctx, current, extent⟩

/-- Goes to the edge where a traversal in the direction begins. -/
def rewind (ctx : Context) (d : Direction) : Act Cursor Unit := do
  (walker ctx (← get).height).rewind d

/-- Moves by one element and tells whether there was one. -/
def advance (ctx : Context) (d : Direction) : Act Cursor Bool := do
  (walker ctx (← get).height).advance d

/-- Goes to the first element that a traversal in the direction has. -/
def begin (ctx : Context) (d : Direction) : Act Cursor Bool := do
  rewind ctx d
  advance ctx d

/-- The identifiers of all elements in the order of a traversal. -/
def collect (ctx : Context) (d : Direction) : Act Cursor (List EntryId) := do
  (walker ctx (← get).height).collect d

/-! ## Closing -/

mutual
/-- Closes a cursor and every cursor within it. -/
def releaseTree (cause : Option SearchError) : Cursor → Effect (Except SearchError Unit × Cursor)
  | reel r => do
    let (outcome, r) ← (Reel.release cause).perform r
    return (outcome, reel r)
  | monitored m inner => do
    noteRelease m.label
    let (outcome, inner) ← releaseTree cause inner
    return (m.released outcome, monitored m inner)
  | sieve ⟨acceptance, source, idle, standing⟩ =>
    if standing.position.isClosed then return (.ok (), sieve ⟨acceptance, source, idle, standing⟩)
    else do
      note .cursorClosed (Listing.closedFields acceptance.kind cause)
      let (outcome, source) ← releaseTree cause source
      if !acceptance.readsIndex then Index.noteFailure outcome
      let (others, idle) ← releaseTrees cause idle
      return (do outcome; others, sieve ⟨acceptance, source, idle, standing.close cause⟩)
  | relay ⟨sources, lanes, active, standing⟩ =>
    if standing.position.isClosed then return (.ok (), relay ⟨sources, lanes, active, standing⟩)
    else do
      note .cursorClosed (Listing.closedFields "or" cause)
      let (outcome, sources) ← releaseTrees cause sources
      return (outcome, relay ⟨sources, lanes, active, standing.close cause⟩)
/-- Closes cursors side by side, logs each failure and reports the first. -/
def releaseTrees (cause : Option SearchError) :
    List Cursor → Effect (Except SearchError Unit × List Cursor)
  | [] => return (.ok (), [])
  | c :: cs => do
    let (outcome, c) ← releaseTree cause c
    Index.noteFailure outcome
    let (others, cs) ← releaseTrees cause cs
    return (do outcome; others, c :: cs)
end

/-- Closes the cursor, with the failure that led to it if there is one. -/
def release (cause : Option SearchError) : Act Cursor Unit := Act.of (releaseTree cause)

end Cursor
end DirectoryQuery
