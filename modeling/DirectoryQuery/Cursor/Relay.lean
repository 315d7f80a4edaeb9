import DirectoryQuery.Cursor.Walker
import DirectoryQuery.Evaluator.Basic
import Std.Data.ExtTreeSet

/-!
# Relays

A relay is the cursor of a disjunction.  It goes through the cursors of its operands one after the
other: forwards from the first operand to the last, backwards from the last to the first.

An entry may satisfy several operands but is to come up once.  So whenever one operand yields an
entry, the evaluators of all others are asked, and those that accept the entry will skip it when
their turn comes.  What an operand has to skip is never forgotten.
-/

set_option autoImplicit false

namespace DirectoryQuery

open Std

/-- The evaluator of an operand and the entries it has to skip. -/
structure Lane where
  evaluator : Evaluator
  skipped : ExtTreeSet EntryId

namespace Lane

/-- An operand that has nothing to skip. -/
def of (e : Evaluator) : Lane := ⟨e, ∅⟩

/-- The operand with one more entry to skip. -/
def skip (id : EntryId) (lane : Lane) : Lane := { lane with skipped := lane.skipped.insert id }

end Lane

/-- A cursor over the union of its operands. -/
structure Relay (σ : Type) where
  /-- The cursors of the operands. -/
  sources : List σ
  /-- What else belongs to the operands, in the same order. -/
  lanes : List Lane
  /-- The operand that is being traversed. -/
  active : Nat
  standing : Standing Candidate

namespace Relay

variable {σ : Type}

/-- The relay over operands, not moved yet. -/
def fresh (operands : List (σ × Evaluator)) : Relay σ :=
  ⟨operands.map Prod.fst, operands.map fun o ↦ .of o.2, 0, .fresh⟩

/-- The number of operands. -/
def size (r : Relay σ) : Nat := r.sources.length

/-- The entries an operand has to skip. -/
def skippedBy? (r : Relay σ) (operand : Nat) : Option (ExtTreeSet EntryId) :=
  r.lanes[operand]?.map Lane.skipped

/-- The relay with one more entry that an operand has to skip. -/
def skip (r : Relay σ) (operand : Nat) (id : EntryId) : Relay σ :=
  { r with lanes := r.lanes.modify operand (Lane.skip id) }

/-- The operands that are not being traversed. -/
def inactive (r : Relay σ) : List Nat := (List.range r.lanes.length).filter fun i ↦ i != r.active

/-- The operand with which a traversal begins. -/
def firstOperand (r : Relay σ) : Direction → Nat
  | .forward => 0
  | .backward => r.size - 1

/-- The operand that comes after the active one. -/
def nextOperand? (r : Relay σ) : Direction → Option Nat
  | .forward => if r.active + 1 < r.size then some (r.active + 1) else none
  | .backward => if 0 < r.active then some (r.active - 1) else none

/-! ## Moving -/

/-- An act on the cursor of the active operand; without one it comes to the given result. -/
def onActive {α : Type} (otherwise : α) (act : Act σ α) : Act (Relay σ) α :=
  Act.of fun r ↦
    match r.sources[r.active]? with
    | none => return (.ok otherwise, r)
    | some source => do
      let (outcome, changed) ← act.perform source
      return (outcome, { r with sources := r.sources.set r.active changed })

/-- Goes to another position. -/
def moveTo (p : Position Candidate) : Act (Relay σ) Unit :=
  modify fun r ↦ { r with standing := r.standing.moveTo p }

/-- Makes another operand the active one and goes to the edge of its cursor. -/
def activate (w : Walker σ) (d : Direction) (operand : Nat) : Act (Relay σ) Unit := do
  modify fun r ↦ { r with active := operand }
  onActive () (w.rewind d)

/-- Goes to the edge where a traversal in the direction begins. -/
def rewind (w : Walker σ) (d : Direction) : Act (Relay σ) Unit := do
  let r ← get
  r.standing.checkOpen d.rewinding
  activate w d (r.firstOperand d)
  moveTo (.start d)

/-- Passes the candidates that do not have to be skipped. -/
def unlessSkipped (skipped : ExtTreeSet EntryId) : Act Candidate Bool := do
  if skipped.contains (← get).id then
    tally .skipped
    return false
  else return true

/-- Asks operands about a candidate, and lets those that accept it skip it. -/
def announce (ctx : Context) : List Nat → Candidate → Act (Relay σ) Candidate
  | [], c => return c
  | operand :: rest, c => do
    match (← get).lanes[operand]? with
    | none => announce ctx rest c
    | some lane =>
      let (accepted, c) ← Act.attempt ((lane.evaluator.evaluate ctx).on c)
      if accepted then modify fun r ↦ r.skip operand c.id
      announce ctx rest c

/-- Moves the active operand to its next candidate that does not have to be skipped. -/
def seekActive (w : Walker σ) (ctx : Context) (d : Direction) :
    Act (Relay σ) (Option Candidate) := do
  let r ← get
  let skipped := (r.skippedBy? r.active).getD ∅
  match ← onActive none (w.seek d (unlessSkipped skipped)) with
  | some c => return some (← announce ctx r.inactive c)
  | none => return none

/-- Moves to the next candidate, going through at most so many operands. -/
def sweep (w : Walker σ) (ctx : Context) (d : Direction) : Nat → Act (Relay σ) (Option Candidate)
  | 0 => return none
  | operands + 1 => do
    match ← seekActive w ctx d with
    | some c => return some c
    | none =>
      match (← get).nextOperand? d with
      | some operand =>
        activate w d operand
        sweep w ctx d operands
      | none => return none

/-- Moves to the next candidate. -/
def advance (w : Walker σ) (ctx : Context) (d : Direction) : Act (Relay σ) Bool := do
  let r ← get
  r.standing.checkOpen d.moving
  if r.standing.position.isUnpositioned then rewind w d
  let found ← sweep w ctx d r.size
  if found.isSome then tally .emitted
  moveTo (.reached d found)
  return found.isSome

/-- The candidate the relay stands on. -/
def current (r : Relay σ) : Except SearchError Candidate := r.standing.element .get

end Relay
end DirectoryQuery
