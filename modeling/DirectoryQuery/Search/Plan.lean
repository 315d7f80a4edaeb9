import DirectoryQuery.Cursor.Operand

/-!
# Plans

A plan makes the operand for a filter: the cursor that yields the entries satisfying it, the
evaluator, and the estimate.

* A clause takes its candidates from an index on its attribute, if indexes may be used and there is
  one.  An equality reads one key where that decides it; any other clause goes through the index,
  which takes a reverse reading.  Failing that, a clause scans all entries.
* A negation scans all entries.
* A conjunction or disjunction of one part is that part.  In a conjunction the operands that are not
  negations come first, so that they drive when estimates agree.
* An empty conjunction scans all entries, an empty disjunction has none.
-/

set_option autoImplicit false

namespace DirectoryQuery
namespace Context

/-- The cursor over all entries. -/
def everyEntry (ctx : Context) : Attempt Cursor := do
  return .reel (← ofStore ctx.directory.everyEntry)

/-- The cursor over all entries that an evaluator accepts. -/
def scanAll (ctx : Context) (e : Evaluator) : Attempt Cursor := do
  Cursor.scan (← ctx.everyEntry) e

/-- The operand of a clause that an index can serve. -/
def planIndexed? (x : Index) (t : Test) : Option (Attempt Operand) :=
  match t.lookupKey with
  | some key => some do return ⟨← Cursor.ofKey x key, .leaf t, some (x.countOf key)⟩
  | none =>
    if x.hasReverse then
      some do return ⟨← Cursor.ofIndex x t.assertion, .leaf t, some x.count⟩
    else none

/-- The operand of a clause. -/
def planClause (ctx : Context) (c : Clause) : Attempt Operand := do
  let t ← c.resolve ctx.schema
  match (ctx.sourceIndex? t.subject.type).bind fun x ↦ planIndexed? x t with
  | some operand => operand
  | none => return ⟨← ctx.scanAll (.leaf t), .leaf t, some ctx.directory.size⟩

/-! ## Estimates of several operands -/

/-- The least of the estimates that are known. -/
def leastEstimate (operands : List Operand) : Option Nat :=
  (operands.filterMap Operand.estimate).min?

/-- Adds two estimates, neither of which is greater than the greatest. -/
def addEstimates (m n : Nat) : Nat := min (m + n) Cursor.greatestEstimate

/-- The sum of the estimates, if all are known. -/
def totalEstimate (operands : List Operand) : Option Nat :=
  (operands.mapM Operand.estimate).map fun estimates ↦ estimates.foldl addEstimates 0

/-- The operands in their order, but the negations last. -/
def negationsLast (operands : List Operand) : List Operand :=
  operands.filter (fun o ↦ !o.evaluator.isNot) ++ operands.filter fun o ↦ o.evaluator.isNot

/-! ## Plans of filters -/

mutual
/-- The operand of a filter. -/
def plan (ctx : Context) : Filter → Attempt Operand
  | .all [] => do
    let e ← Filter.resolve ctx.schema (.all [])
    return ⟨← ctx.scanAll e, e, some ctx.directory.size⟩
  | .all [part] => plan ctx part
  | .all (first :: second :: rest) => do
    let operands := negationsLast (← planEach ctx (first :: second :: rest))
    let cursor ← Cursor.conjunction operands
    let e ← Filter.resolve ctx.schema (.all (first :: second :: rest))
    return ⟨cursor, e, leastEstimate operands⟩
  | .any [] => do
    return ⟨.ofList [], ← Filter.resolve ctx.schema (.any []), some 0⟩
  | .any [part] => plan ctx part
  | .any (first :: second :: rest) => do
    let operands ← planEach ctx (first :: second :: rest)
    let cursor ← Cursor.disjunction operands
    let e ← Filter.resolve ctx.schema (.any (first :: second :: rest))
    return ⟨cursor, e, totalEstimate operands⟩
  | .not part => do
    let negated ← Filter.resolve ctx.schema part
    let cursor ← Cursor.negation (← ctx.everyEntry) negated
    let e ← Filter.resolve ctx.schema (.not part)
    return ⟨cursor, e, some ctx.directory.size⟩
  | .leaf c => ctx.planClause c
/-- The operands of filters. -/
def planEach (ctx : Context) : List Filter → Attempt (List Operand)
  | [] => return []
  | f :: fs => do
    let first ← plan ctx f
    return first :: (← planEach ctx fs)
end

end Context
end DirectoryQuery
