import DirectoryQuery.Filter.Wildcard
import DirectoryQuery.MatchingRule

/-!
# Assertions on values

An assertion is a property of one normalized value.  It is what a clause of a filter asks for once
the schema has said how values of the attribute are normalized and compared: the same assertion
tests the keys of an index and the values of an entry.

A value that is incomparable with the bound or the key does not satisfy the assertion.
-/

set_option autoImplicit false

namespace DirectoryQuery

/-- A property of normalized values. -/
inductive Assertion where
  /-- Every value has it. -/
  | present
  /-- Equal to the key. -/
  | equals (key : Value) (comparator : Comparator)
  /-- A text of the shape; without a shape no value has it. -/
  | pattern (shape : Option Wildcard)
  /-- Not below the bound. -/
  | atLeast (bound : Value) (comparator : Comparator)
  /-- Not above the bound. -/
  | atMost (bound : Value) (comparator : Comparator)
deriving DecidableEq, Repr

namespace Assertion

/-- Whether a value is a text of the shape. -/
def fits (shape : Wildcard) (v : Value) : Bool :=
  match v.text? with
  | some s => shape.accepts s
  | none => false

/-- Whether a value satisfies the assertion. -/
def holds : Assertion → Value → Bool
  | present, _ => true
  | equals key comparator, v => comparator.compare? v key == some .eq
  | pattern (some shape), v => fits shape v
  | pattern none, _ => false
  | atLeast bound comparator, v =>
    match comparator.compare? v bound with
    | some o => o.isGE
    | none => false
  | atMost bound comparator, v =>
    match comparator.compare? v bound with
    | some o => o.isLE
    | none => false

/-- Whether the assertion asks only that there is a value. -/
def isPresent : Assertion → Bool
  | present => true
  | _ => false

/-- The key that an index can be asked for instead of testing its keys one by one.  It has to be a
text compared by code points: integers have many spellings, and byte by byte a text may equal a
binary value. -/
def lookupKey : Assertion → Option Value
  | equals (.text s) .lexical => some (.text s)
  | _ => none

@[simp]
theorem holds_present (v : Value) : present.holds v = true := rfl

@[simp]
theorem holds_pattern_none (v : Value) : (pattern none).holds v = false := rfl

end Assertion
end DirectoryQuery
