import DirectoryQuery.Evaluator.Test

/-!
# Evaluators

An evaluator is a filter whose leaves are ready for use: a formula over tests.  It judges a
candidate, and may attach the entry and a value to it on the way; or it judges an entry at hand,
which needs no index, cannot fail and leaves nothing behind.
-/

set_option autoImplicit false

namespace DirectoryQuery

/-- A filter ready for use. -/
abbrev Evaluator := Formula Test

/-- Makes a filter ready for use with a schema.  The first leaf from the left that the schema cannot
make sense of decides the failure. -/
def Filter.resolve (schema : Registry) (f : Filter) : Attempt Evaluator :=
  f.traverse (Clause.resolve schema)

namespace Evaluator

/-- The filter that the evaluator judges by. -/
def filter (e : Evaluator) : Filter := e.map Test.clause

/-- Judges a candidate. -/
def evaluate (e : Evaluator) (ctx : Context) : Act Candidate Bool := e.judge fun t ↦ t.evaluate ctx

/-- Judges an entry. -/
def acceptsEntry (e : Evaluator) (entry : Entry) : Bool := e.holds fun t ↦ t.acceptsEntry entry

end Evaluator
end DirectoryQuery
