import DirectoryQuery.Directory

/-!
# Reading an index in reverse

The reverse reading of an index for one entry is opened, read until a key satisfies a predicate, and
closed again, whatever happens in between.  When the reading fails, its failure counts; a failure to
close is then only logged.
-/

set_option autoImplicit false

namespace DirectoryQuery

/-- The answer of a store within a search. -/
def ofStore {α : Type} (answer : Except StoreError α) : Except SearchError α :=
  answer.mapError SearchError.store

namespace Reel

/-- Moves forwards until a key satisfies the predicate, for at most the given number of moves. -/
def findKey (p : Value → Bool) : Nat → Act Reel (Option Value)
  | 0 => return none
  | moves + 1 => do
    if ← advance .forward then
      let c ← (← get).current
      match c.value.filter p with
      | some key => return some key
      | none => findKey p moves
    else return none

end Reel

namespace Index

/-- Notes that a cursor could not be closed. -/
def noteFailure : Except SearchError Unit → Effect Unit
  | .ok () => return ()
  | .error e => note .cursorCloseFailed [("error", e.message)]

/-- The least key of an entry that satisfies the predicate, by the reverse reading. -/
def firstKey? (x : Index) (id : EntryId) (p : Value → Bool) : Attempt (Option Value) := do
  let reel ← ofStore (x.reverse id)
  ExceptT.mk do
    let (outcome, reel) ← (Reel.findKey p (reel.listing.size + 1)).perform reel
    match outcome with
    | .ok found =>
      let (closing, _) ← (Reel.release none).perform reel
      return closing.map fun () ↦ found
    | .error e =>
      let (closing, _) ← (Reel.release (some e)).perform reel
      noteFailure closing
      return .error e

end Index
end DirectoryQuery
