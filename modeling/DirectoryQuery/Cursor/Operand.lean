import DirectoryQuery.Cursor.Basic

/-!
# Making cursors

The cursors that have others within them, each made from its parts.  Making one is logged, and some
parts do not make one: a conjunction needs an operand, a disjunction needs two, and to go through a
whole index the index has to have a reverse reading.

An operand is a cursor together with an evaluator that accepts the same entries, and an estimate of
their number.  Of the operands of a conjunction the one with the smallest estimate drives.
-/

set_option autoImplicit false

namespace DirectoryQuery

/-- A cursor and the evaluator of the same filter. -/
structure Operand where
  cursor : Cursor
  evaluator : Evaluator
  /-- How many entries the cursor is expected to yield, if that is known. -/
  estimate : Option Nat

namespace Cursor

/-- Notes that a cursor was made. -/
def noteCreated (kind : String) (operands : Nat) : Effect Unit :=
  note .cursorCreated [("kind", kind), ("operands", toString operands)]

/-! ## Cursors over one source -/

/-- The cursor over the candidates that an evaluator accepts. -/
def scan (source : Cursor) (e : Evaluator) : Effect Cursor := do
  noteCreated "scan" 1
  return sieve (.fresh (.matching e) source [])

/-- The cursor over the candidates that an evaluator rejects. -/
def negation (source : Cursor) (e : Evaluator) : Effect Cursor := do
  noteCreated "not" 1
  return sieve (.fresh (.rejecting e) source [])

/-- The cursor over the entries that have a key in the index with the property asserted. -/
def ofIndex (x : Index) (assertion : Assertion) : Attempt Cursor := do
  if !x.hasReverse then
    throw (.construction "IndexLeafCursor" ("index on " ++ x.indexed ++ " has no reverse half"))
  let source ← ofStore x.forward
  noteCreated "index" 1
  return sieve (.fresh (.indexed x assertion) (reel source) [])

/-- The cursor over the entries that the index has under the key. -/
def ofKey (x : Index) (key : Value) : Attempt Cursor := do
  let source ← ofStore (x.forwardOn key)
  noteCreated "index_key" 1
  return sieve (.fresh .keyed (reel source) [])

/-! ## Cursors over operands -/

/-- The greatest number that can be an estimate. -/
def greatestEstimate : Nat := UInt64.size - 1

/-- The rank of an operand as the driver: its estimate, or the last rank of all. -/
def driverRank (o : Operand) : Nat := o.estimate.getD greatestEstimate

/-- The operands with their positions, in ascending order of the rank. -/
def ranked (operands : List Operand) : List (Operand × Nat) :=
  operands.zipIdx.mergeSort fun a b ↦ driverRank a.1 ≤ driverRank b.1

/-- The cursor over the candidates that satisfy all operands. -/
def conjunction (operands : List Operand) : Attempt Cursor := do
  match ranked operands with
  | [] => throw (.construction "AndCursor" "requires at least one operand")
  | (driver, position) :: others =>
    noteCreated "and" operands.length
    return sieve (.fresh (.joint position (others.map fun o ↦ o.1.evaluator)) driver.cursor
      (others.map fun o ↦ o.1.cursor))

/-- The cursor over the candidates that satisfy one of the operands. -/
def disjunction (operands : List Operand) : Attempt Cursor := do
  if operands.length < 2 then
    throw (.construction "OrCursor"
      ("requires at least two operands, got " ++ toString operands.length))
  noteCreated "or" operands.length
  return relay (.fresh (operands.map fun o ↦ (o.cursor, o.evaluator)))

end Cursor
end DirectoryQuery
