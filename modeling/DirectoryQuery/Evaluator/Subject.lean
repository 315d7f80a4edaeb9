import DirectoryQuery.Assertion
import DirectoryQuery.Filter.Basic
import DirectoryQuery.Schema.Hierarchy
import DirectoryQuery.SearchError

/-!
# What a clause is about

A clause names an attribute.  The schema says which attribute type that is, which types are below it
(their values count as values of the attribute), and by which matching rule values are normalized
and compared: the rule for the use the clause makes of it, or else the equality rule.  Without any
rule values stay as they are and are compared as the syntax suggests.

With all that known the condition of the clause becomes an assertion on normalized values.
-/

set_option autoImplicit false

namespace DirectoryQuery

/-- The uses of matching rules that a condition looks for, the first that has a rule being taken. -/
def Condition.slots : Condition → List RuleSlot
  | equalTo _ => [.equality]
  | present => []
  | shaped _ => [.substring, .equality]
  | atLeast _ | atMost _ => [.ordering, .equality]
  | approximately _ => [.approximate, .equality]

/-- The first rule that a type has for one of the uses. -/
def Registry.firstRule (r : Registry) (t : AttributeType) :
    List RuleSlot → Except SchemaError (Option MatchingRule)
  | [] => .ok none
  | slot :: slots => do
    match ← r.ruleFor t slot with
    | some rule => return some rule
    | none => r.firstRule t slots

/-- The attribute a clause is about. -/
structure Subject where
  type : AttributeType
  /-- The types below it, level by level. -/
  descendants : List AttributeType
  valueSyntax : ValueSyntax
  rule : Option MatchingRule
deriving DecidableEq

namespace Subject

/-- The failure of a clause that the schema cannot make sense of. -/
def unresolved (name message : String) (e : SchemaError) : SearchError :=
  .evaluation name message (some (.schema e))

/-- Finds the attribute of that name and the rule for one of the uses. -/
def resolve (r : Registry) (name : String) (slots : List RuleSlot) :
    Except SearchError Subject := do
  let t ← (r.resolve name).mapError (unresolved name "unknown attribute type")
  let s ← (r.syntaxOf t).mapError (unresolved name "cannot resolve syntax")
  let rule ← (r.firstRule t slots).mapError (unresolved name "cannot resolve matching rule")
  return ⟨t, r.descendants t, s, rule⟩

/-- How values are normalized. -/
def normalizer (s : Subject) : Normalizer :=
  match s.rule with
  | some rule => rule.normalizer
  | none => .identity

/-- How values are compared: by the rule, or else as text or bytes, as the syntax is. -/
def comparator (s : Subject) : Comparator :=
  match s.rule with
  | some rule => rule.comparator
  | none => if s.valueSyntax.humanReadable then .lexical else .bytes

/-- The name of the rule in a log line. -/
def ruleName (s : Subject) : String :=
  match s.rule with
  | some rule => rule.name
  | none => "none"

/-- What a condition asks of a normalized value.  Only text can be of a wildcard shape. -/
def assertion (s : Subject) : Condition → Assertion
  | .equalTo v | .approximately v => .equals (s.normalizer.apply v) s.comparator
  | .present => .present
  | .shaped w =>
    .pattern (if s.valueSyntax.humanReadable then some (w.mapFragments s.normalizer.applyText)
      else none)
  | .atLeast bound => .atLeast (s.normalizer.apply bound) s.comparator
  | .atMost bound => .atMost (s.normalizer.apply bound) s.comparator

/-- The normalized values that an entry has for the attribute: its own, then those of each type
below. -/
def values (s : Subject) (e : Entry) : List Value :=
  ((s.type :: s.descendants).flatMap e.get).map s.normalizer.apply

end Subject
end DirectoryQuery
