import DirectoryQuery.Json.Decode

/-!
# What is logged

Log lines have a severity.  The engine logs nine events, each at a severity of its own; a line may
also be written for any other event by name.
-/

set_option autoImplicit false

namespace DirectoryQuery

/-- How serious a log line is. -/
inductive Severity where
  /-- The life of cursors and evaluators. -/
  | trace
  /-- The boundaries of a search. -/
  | info
  /-- Something that did not stop the search. -/
  | warn
  /-- A failed operation. -/
  | error
  /-- Nothing can go on. -/
  | fatal
deriving DecidableEq, Repr, Inhabited

namespace Severity

/-- The rank of a severity, lowest first. -/
def rank : Severity → Nat
  | trace => 0
  | info => 1
  | warn => 2
  | error => 3
  | fatal => 4

/-- Whether a line of the severity is written when the threshold is the given one. -/
def passes (severity threshold : Severity) : Bool := threshold.rank ≤ severity.rank

/-- The severity as a log line has it. -/
def label : Severity → String
  | trace => "TRACE"
  | info => "INFO"
  | warn => "WARN"
  | error => "ERROR"
  | fatal => "FATAL"

/-- The severity as a configuration has it. -/
def name : Severity → String
  | trace => "trace"
  | info => "info"
  | warn => "warn"
  | error => "error"
  | fatal => "fatal"

/-- The severities by their names in a configuration. -/
def names : List (String × Severity) :=
  [trace, info, warn, error, fatal].map fun s ↦ (s.name, s)

/-- Reads the name of a severity. -/
def ofJson? : Json → Option Severity := Json.keyword? names

end Severity

/-- The events that the engine logs. -/
inductive Event where
  | configLoaded
  | schemaLoaded
  | searchStart
  | searchComplete
  | cursorCreated
  | cursorClosed
  /-- A cursor within another one could not be released. -/
  | cursorCloseFailed
  /-- A leaf of a filter has found its attribute and matching rule. -/
  | evaluatorCreated
  /-- A substring is asked for in an attribute that is not text. -/
  | substringUnsupported
deriving DecidableEq, Repr

namespace Event

/-- All events. -/
def all : List Event :=
  [configLoaded, schemaLoaded, searchStart, searchComplete, cursorCreated, cursorClosed,
   cursorCloseFailed, evaluatorCreated, substringUnsupported]

/-- The name of an event. -/
def name : Event → String
  | configLoaded => "CONFIG_LOADED"
  | schemaLoaded => "SCHEMA_LOADED"
  | searchStart => "SEARCH_START"
  | searchComplete => "SEARCH_COMPLETE"
  | cursorCreated => "CURSOR_CREATED"
  | cursorClosed => "CURSOR_CLOSED"
  | cursorCloseFailed => "CURSOR_CLOSE_FAILED"
  | evaluatorCreated => "EVALUATOR_CREATED"
  | substringUnsupported => "SUBSTRING_UNSUPPORTED"

/-- The severity at which an event is logged. -/
def severity : Event → Severity
  | configLoaded | schemaLoaded | searchStart | searchComplete => .info
  | cursorCloseFailed | substringUnsupported => .warn
  | cursorCreated | cursorClosed | evaluatorCreated => .trace

/-- The event of a name. -/
def named? (name : String) : Option Event := all.find? fun e ↦ e.name == name

end Event
end DirectoryQuery
