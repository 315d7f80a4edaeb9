import DirectoryQuery.Cursor.Walker
import DirectoryQuery.Evaluator.Basic

/-!
# Sieves

A sieve is a cursor that takes its candidates from a source and keeps those that pass a condition.
There are five of them.

* `matching` keeps what an evaluator accepts, `rejecting` what it rejects.
* `joint` is a conjunction: the source is the cursor of one operand, and a candidate has to satisfy
  the others.  The cursors of the others stay idle, they are only closed in the end.
* `indexed` goes through an index and keeps the keys that satisfy an assertion.  An entry may have
  several such keys; it is kept under the least of them only, in both directions.
* `keyed` goes through what an index has under one key and keeps everything.

A sieve that was never moved first sends its source to the edge.  A move that fails leaves the sieve
where it was, although the source may have moved on.
-/

set_option autoImplicit false

namespace DirectoryQuery

/-- What a candidate has to pass. -/
inductive Acceptance where
  | matching (e : Evaluator)
  | rejecting (e : Evaluator)
  /-- The position of the operand that is the source, and the others. -/
  | joint (driver : Nat) (others : List Evaluator)
  | indexed (index : Index) (assertion : Assertion)
  | keyed

namespace Acceptance

/-- The kind of cursor, as the log has it. -/
def kind : Acceptance → String
  | matching _ => "scan"
  | rejecting _ => "not"
  | joint _ _ => "and"
  | indexed _ _ | keyed => "index"

/-- Whether the source reads an index. -/
def readsIndex : Acceptance → Bool
  | indexed _ _ | keyed => true
  | _ => false

/-- Whether the key of a candidate is the least of its entry that satisfies the assertion. -/
def isLeastKey (index : Index) (assertion : Assertion) (key : Value) : Act Candidate Bool := do
  tally .reverseLookup
  let least ← Act.attempt (index.firstKey? (← get).id assertion.holds)
  return least.all fun v ↦ v == key

/-- Puts a candidate to the condition. -/
def accept (ctx : Context) : Acceptance → Act Candidate Bool
  | matching e => e.evaluate ctx
  | rejecting e => do return !(← e.evaluate ctx)
  | joint _ others => Formula.judgeAll (fun t ↦ t.evaluate ctx) others
  | indexed index assertion => do
    match (← get).value.filter assertion.holds with
    | some key => isLeastKey index assertion key
    | none => return false
  | keyed => do return (← get).value.isSome

end Acceptance

/-- A cursor that keeps what passes a condition. -/
structure Sieve (σ : Type) where
  acceptance : Acceptance
  source : σ
  /-- Cursors that are never moved. -/
  idle : List σ
  standing : Standing Candidate

namespace Sieve

variable {σ : Type}

/-- The sieve over a source, not moved yet. -/
def fresh (acceptance : Acceptance) (source : σ) (idle : List σ) : Sieve σ :=
  ⟨acceptance, source, idle, .fresh⟩

/-- The position of the operand that drives a conjunction. -/
def driver? (s : Sieve σ) : Option Nat :=
  match s.acceptance with
  | .joint driver _ => some driver
  | _ => none

/-- An act on the source. -/
def onSource {α : Type} (act : Act σ α) : Act (Sieve σ) α :=
  act.within Sieve.source fun s source ↦ { s with source }

/-- Goes to another position. -/
def moveTo (p : Position Candidate) : Act (Sieve σ) Unit :=
  modify fun s ↦ { s with standing := s.standing.moveTo p }

/-- Goes to the edge where a traversal in the direction begins. -/
def rewind (w : Walker σ) (d : Direction) : Act (Sieve σ) Unit := do
  (← get).standing.checkOpen d.rewinding
  onSource (w.rewind d)
  moveTo (.start d)

/-- Moves to the next candidate that passes. -/
def advance (w : Walker σ) (ctx : Context) (d : Direction) : Act (Sieve σ) Bool := do
  let s ← get
  s.standing.checkOpen d.moving
  if s.standing.position.isUnpositioned then onSource (w.rewind d)
  let found ← onSource (w.seek d (s.acceptance.accept ctx))
  if found.isSome then tally .emitted
  moveTo (.reached d found)
  return found.isSome

/-- The candidate the sieve stands on. -/
def current (s : Sieve σ) : Except SearchError Candidate := s.standing.element .get

end Sieve
end DirectoryQuery
