import DirectoryQuery.Json.Basic

/-!
# Counters

How much work a search has done.
-/

set_option autoImplicit false

namespace DirectoryQuery

/-- What is counted. -/
inductive Tally where
  /-- A candidate taken from a cursor within another one. -/
  | examined
  /-- A candidate handed on by a cursor that has cursors within it. -/
  | emitted
  /-- A candidate passed over because another operand emits it. -/
  | skipped
  /-- A test of a leaf of the filter. -/
  | evaluation
  /-- A look-up of an entry in the store. -/
  | recordLookup
  /-- A reverse reading of an index. -/
  | reverseLookup
deriving DecidableEq, Repr

/-- How often each thing has happened. -/
structure Counters where
  examined : Nat
  emitted : Nat
  skipped : Nat
  evaluations : Nat
  recordLookups : Nat
  reverseLookups : Nat
deriving DecidableEq, Repr

namespace Counters

/-- Nothing has happened. -/
def zero : Counters := ⟨0, 0, 0, 0, 0, 0⟩

/-- One thing more has happened. -/
def increment (c : Counters) : Tally → Counters
  | .examined => { c with examined := c.examined + 1 }
  | .emitted => { c with emitted := c.emitted + 1 }
  | .skipped => { c with skipped := c.skipped + 1 }
  | .evaluation => { c with evaluations := c.evaluations + 1 }
  | .recordLookup => { c with recordLookups := c.recordLookups + 1 }
  | .reverseLookup => { c with reverseLookups := c.reverseLookups + 1 }

/-- The counters in JSON. -/
def toJson (c : Counters) : Json :=
  .object [("blacklist_skips", .ofNat c.skipped), ("candidates_emitted", .ofNat c.emitted),
    ("candidates_examined", .ofNat c.examined), ("evaluations", .ofNat c.evaluations),
    ("record_lookups", .ofNat c.recordLookups), ("reverse_lookups", .ofNat c.reverseLookups)]

end Counters
end DirectoryQuery
