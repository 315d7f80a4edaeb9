import DirectoryQuery.Filter.Formula
import DirectoryQuery.Value

/-!
# Search filters

A filter is a formula over *clauses*.  A clause names an attribute and says what one of its values
has to be like: equal to a value, there at all, of a wildcard shape, not below or not above a bound,
or approximately equal.

Filters are shown in the notation of directory filters, with parentheses around every part.
-/

set_option autoImplicit false

namespace DirectoryQuery

/-- A wildcard shape `head*middle*…*tail`, each star standing for any text. -/
structure Wildcard where
  head : Option String
  middles : List String
  tail : Option String
deriving DecidableEq, Repr

/-- What a clause asks of a value. -/
inductive Condition where
  | equalTo (value : Value)
  | present
  | shaped (shape : Wildcard)
  | atLeast (bound : Value)
  | atMost (bound : Value)
  | approximately (value : Value)
deriving DecidableEq, Repr

/-- A leaf of a filter: an attribute, as it was named, and a condition on its values. -/
structure Clause where
  name : String
  condition : Condition
deriving DecidableEq, Repr

/-- A search filter. -/
abbrev Filter := Formula Clause

/-! ## Names of the parts -/

/-- The name of a condition. -/
def Condition.kind : Condition → String
  | equalTo _ => "equality"
  | present => "presence"
  | shaped _ => "substring"
  | atLeast _ => "greater_or_equal"
  | atMost _ => "less_or_equal"
  | approximately _ => "approximate_match"

namespace Filter

/-- The name of the outermost part of a filter. -/
def kind : Filter → String
  | .all _ => "and"
  | .any _ => "or"
  | .not _ => "not"
  | .leaf c => c.condition.kind

end Filter

/-! ## Notation -/

/-- The wildcard shape in filter notation. -/
def Wildcard.display (w : Wildcard) : String :=
  w.head.getD "" ++ "*" ++ String.join (w.middles.map fun s ↦ s ++ "*") ++ w.tail.getD ""

/-- The clause in filter notation. -/
def Clause.display (c : Clause) : String :=
  match c.condition with
  | .equalTo value => "(" ++ c.name ++ "=" ++ value.display ++ ")"
  | .present => "(" ++ c.name ++ "=*)"
  | .shaped shape => "(" ++ c.name ++ "=" ++ shape.display ++ ")"
  | .atLeast bound => "(" ++ c.name ++ ">=" ++ bound.display ++ ")"
  | .atMost bound => "(" ++ c.name ++ "<=" ++ bound.display ++ ")"
  | .approximately value => "(" ++ c.name ++ "~=" ++ value.display ++ ")"

namespace Filter

mutual
/-- The filter in filter notation. -/
def display : Filter → String
  | .all parts => "(&" ++ displayEach parts ++ ")"
  | .any parts => "(|" ++ displayEach parts ++ ")"
  | .not part => "(!" ++ display part ++ ")"
  | .leaf c => c.display
/-- The filters in filter notation, one after the other. -/
def displayEach : List Filter → String
  | [] => ""
  | part :: parts => display part ++ displayEach parts
end

end Filter
end DirectoryQuery
