import DirectoryQuery.Json.Printer
import DirectoryQuery.Log.Event

/-!
# Log lines

A log line is one JSON object on a line of its own.  Its first member is the event, its second the
severity, and the fields follow in ascending order of their keys; fields with one key keep their
order.
-/

set_option autoImplicit false

namespace DirectoryQuery

/-- What one log line says. -/
structure LogLine where
  severity : Severity
  event : String
  fields : List (String × String)
deriving DecidableEq, Repr

namespace LogLine

/-- The line of one of the engine's events. -/
def ofEvent (e : Event) (fields : List (String × String)) : LogLine := ⟨e.severity, e.name, fields⟩

/-- The fields in ascending order of their keys. -/
def sortedFields (l : LogLine) : List (String × String) :=
  l.fields.mergeSort fun a b ↦ a.1 ≤ b.1

/-- The line as an object. -/
def toJson (l : LogLine) : Json :=
  .object (("event", .string l.event) :: ("severity", .string l.severity.label)
    :: l.sortedFields.map fun (key, value) ↦ (key, .string value))

/-- The text of the line, with its end of line. -/
def render (l : LogLine) : String := l.toJson.render ++ "\n"

end LogLine
end DirectoryQuery
