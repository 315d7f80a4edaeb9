import DirectoryQuery.Schema.Error
import DirectoryQuery.Store.Error

/-!
# Search failures

Building a search, moving a cursor and testing a candidate can fail.  A *rejected* operation was
asked for at the wrong time or on the wrong parts; an *error* comes from the schema or the store.
Each failure has a code, and its text starts with whether it is a rejection or an error and with the
code.
-/

set_option autoImplicit false

namespace DirectoryQuery

/-- The operations on a cursor that can be refused. -/
inductive Operation where
  | next
  | previous
  | beforeFirst
  | afterLast
  | get
deriving DecidableEq, Repr

namespace Operation

/-- The operation as a failure names it. -/
def text : Operation → String
  | next => "next()"
  | previous => "previous()"
  | beforeFirst => "before_first()"
  | afterLast => "after_last()"
  | get => "get()"

end Operation

/-- What a failed test goes back to. -/
inductive EvaluationCause where
  | schema (e : SchemaError)
  | store (e : StoreError)
deriving DecidableEq, Repr

namespace EvaluationCause

/-- The text of the cause. -/
def message : EvaluationCause → String
  | schema e => e.message
  | store e => e.message

end EvaluationCause

/-- Why a search, a cursor or a test failed. -/
inductive SearchError where
  /-- The cursor has been closed. -/
  | closedCursor (operation : Operation)
  /-- The cursor is not on an element. -/
  | invalidPosition (operation : Operation)
  /-- The parts of a cursor do not make one. -/
  | construction (component reason : String)
  /-- A leaf on that attribute could not be built or tested. -/
  | evaluation (leaf message : String) (cause : Option EvaluationCause)
  /-- The store or an index failed. -/
  | store (e : StoreError)
deriving DecidableEq, Repr

namespace SearchError

/-- Whether the caller is at fault or a part the search relies on. -/
inductive Blame where
  | reject
  | error
deriving DecidableEq, Repr

/-- The blame as a failure names it. -/
def Blame.label : Blame → String
  | .reject => "REJECT"
  | .error => "ERROR"

/-- Who is at fault. -/
def blame : SearchError → Blame
  | closedCursor _ | invalidPosition _ | construction _ _ => .reject
  | evaluation _ _ _ | store _ => .error

/-- The code of a failure. -/
def code : SearchError → String
  | closedCursor _ => "DIRSEARCH_CURSOR_CLOSED"
  | invalidPosition _ => "DIRSEARCH_INVALID_POSITION"
  | construction _ _ => "DIRSEARCH_CONSTRUCTION_FAILED"
  | evaluation _ _ _ => "DIRSEARCH_EVALUATION_FAILED"
  | store _ => "DIRSEARCH_STORE_FAILED"

/-- What a failure says after its code. -/
def detail : SearchError → String
  | closedCursor operation => operation.text ++ " called on a closed cursor"
  | invalidPosition operation => operation.text ++ " called without a current element"
  | construction component reason => "cannot build " ++ component ++ ": " ++ reason
  | evaluation leaf message _ => leaf ++ ": " ++ message
  | store e => e.message

/-- The text of a failure. -/
def message (e : SearchError) : String :=
  "[" ++ e.blame.label ++ "] " ++ e.code ++ ": " ++ e.detail

/-- The failure that this one goes back to. -/
def cause : SearchError → Option EvaluationCause
  | evaluation _ _ cause => cause
  | store e => some (.store e)
  | _ => none

/-- Whether the process cannot go on.  No search failure is that bad: the caller can drop the
cursor. -/
def isFatal : SearchError → Bool := fun _ ↦ false

end SearchError
end DirectoryQuery
