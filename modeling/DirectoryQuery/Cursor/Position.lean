import DirectoryQuery.SearchError

/-!
# Positions

A cursor can be moved both ways over a sequence of elements.  Besides the elements it can stand
before the first one, after the last one, or, as long as it has not been moved at all, nowhere.
Once closed it stays closed.

`Standing` is the position of a cursor together with the text of the failure that closed it, if one
did.  Each cursor keeps one; its operations go through the checks below.
-/

set_option autoImplicit false

namespace DirectoryQuery

/-! ## Directions -/

/-- The direction of a traversal. -/
inductive Direction where
  | forward
  | backward
deriving DecidableEq, Repr

namespace Direction

/-- The operation that moves by one element. -/
def moving : Direction → Operation
  | forward => .next
  | backward => .previous

/-- The operation that goes to the edge where a traversal begins. -/
def rewinding : Direction → Operation
  | forward => .beforeFirst
  | backward => .afterLast

/-- The directions by name. -/
def names : List (String × Direction) := [("forward", forward), ("backward", backward)]

end Direction

/-! ## Positions -/

/-- Where a cursor stands. -/
inductive Position (α : Type) where
  /-- Never moved. -/
  | unpositioned
  | beforeFirst
  | onElement (a : α)
  | afterLast
  | closed
deriving DecidableEq, Repr

namespace Position

variable {α β : Type}

/-- The name of a position. -/
def name : Position α → String
  | unpositioned => "Unpositioned"
  | beforeFirst => "BeforeFirst"
  | onElement _ => "OnElement"
  | afterLast => "AfterLast"
  | closed => "Closed"

/-- Whether the cursor was closed. -/
def isClosed : Position α → Bool
  | closed => true
  | _ => false

/-- Whether the cursor was never moved. -/
def isUnpositioned : Position α → Bool
  | unpositioned => true
  | _ => false

/-- The position with another element. -/
def map (f : α → β) : Position α → Position β
  | unpositioned => unpositioned
  | beforeFirst => beforeFirst
  | onElement a => onElement (f a)
  | afterLast => afterLast
  | closed => closed

/-- The edge where a traversal in the direction begins. -/
def start : Direction → Position α
  | .forward => beforeFirst
  | .backward => afterLast

/-- The edge where a traversal in the direction ends. -/
def finish : Direction → Position α
  | .forward => afterLast
  | .backward => beforeFirst

/-- The position after a move that found the element, or found none. -/
def reached (d : Direction) : Option α → Position α
  | some a => onElement a
  | none => finish d

end Position

/-! ## Standings -/

/-- The position of a cursor and the text of the failure that closed it. -/
structure Standing (α : Type) where
  position : Position α
  closeCause : Option String

namespace Standing

variable {α : Type}

/-- A cursor that was never moved. -/
def fresh : Standing α := ⟨.unpositioned, none⟩

/-- The standing at another position. -/
def moveTo (s : Standing α) (p : Position α) : Standing α := { s with position := p }

/-- The standing of a closed cursor. -/
def close (s : Standing α) (cause : Option SearchError) : Standing α :=
  if s.position.isClosed then s else ⟨.closed, cause.map SearchError.message⟩

/-- Refuses an operation on a closed cursor. -/
def checkOpen (s : Standing α) (operation : Operation) : Except SearchError Unit :=
  if s.position.isClosed then .error (.closedCursor operation) else .ok ()

/-- The element a cursor stands on; refuses the operation anywhere else. -/
def element (s : Standing α) (operation : Operation) : Except SearchError α :=
  match s.position with
  | .onElement a => .ok a
  | .closed => .error (.closedCursor operation)
  | _ => .error (.invalidPosition operation)

end Standing
end DirectoryQuery
