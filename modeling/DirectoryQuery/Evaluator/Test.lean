import DirectoryQuery.Directory.Reverse
import DirectoryQuery.Evaluator.Subject

/-!
# Tests

A test is a leaf of a filter made ready for use: the clause, what it is about, and the assertion.  A
candidate is tested in one of two ways.

* If an index on the attribute may be used, the keys of the entry in the index are tested, and the
  candidate stays as it is.
* Otherwise the entry itself is tested.  It is looked up if the candidate does not have it yet, and
  stays attached to the candidate.  The first value that satisfies the assertion becomes the value
  of the candidate, except when the clause only asks for there being a value.
-/

set_option autoImplicit false

namespace DirectoryQuery

/-- A leaf of a filter ready for use. -/
structure Test where
  clause : Clause
  subject : Subject
  assertion : Assertion
deriving DecidableEq

/-- Makes a clause ready for use with a schema. -/
def Clause.resolve (schema : Registry) (c : Clause) : Attempt Test := do
  let subject ← Subject.resolve schema c.name c.condition.slots
  note .evaluatorCreated [("attribute", subject.type.name), ("rule", subject.ruleName)]
  let assertion := subject.assertion c.condition
  if assertion = .pattern none then
    note .substringUnsupported [("attribute", subject.type.name)]
  return ⟨c, subject, assertion⟩

namespace Test

/-- The key that an index can be asked for in place of the test; only an equality has one. -/
def lookupKey (t : Test) : Option Value :=
  match t.clause.condition with
  | .equalTo _ => t.assertion.lookupKey
  | _ => none

/-! ## Testing entries -/

/-- The first normalized value of an entry that satisfies the assertion. -/
def firstValue? (t : Test) (e : Entry) : Option Value :=
  (t.subject.values e).find? t.assertion.holds

/-- Whether an entry passes. -/
def acceptsEntry (t : Test) (e : Entry) : Bool := (t.firstValue? e).isSome

/-! ## Testing candidates -/

/-- The entry of a candidate, looked up if it is not at hand. -/
def entryOf (t : Test) (directory : Directory) : Act Candidate Entry := do
  let c ← get
  match c.record with
  | some e => return e
  | none =>
    tally .recordLookup
    match directory.lookup c.id with
    | .ok e => set { c with record := some e }; return e
    | .error e =>
      throw (.evaluation t.subject.type.name
        ("cannot resolve entry " ++ toString c.id.toNat) (some (.store e)))

/-- Tests the entry of a candidate. -/
def evaluateByEntry (t : Test) (directory : Directory) : Act Candidate Bool := do
  match t.firstValue? (← t.entryOf directory) with
  | some v =>
    if !t.assertion.isPresent then modify fun c ↦ { c with value := some v }
    return true
  | none => return false

/-- Tests the keys that an index has for a candidate. -/
def evaluateByIndex (t : Test) (index : Index) : Act Candidate Bool := do
  tally .reverseLookup
  let found ← Act.attempt (index.firstKey? (← get).id t.assertion.holds)
  return found.isSome

/-- Tests a candidate. -/
def evaluate (t : Test) (ctx : Context) : Act Candidate Bool := do
  tally .evaluation
  match ctx.reverseIndex? t.subject.type with
  | some index => t.evaluateByIndex index
  | none => t.evaluateByEntry ctx.directory

end Test
end DirectoryQuery
