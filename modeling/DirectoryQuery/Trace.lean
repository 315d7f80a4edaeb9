import DirectoryQuery.Counters
import DirectoryQuery.Log.Line
import DirectoryQuery.SearchError

/-!
# What a search leaves behind

Besides its answer a search writes log lines, counts its work and releases cursors.  A `Trace` holds
all of that, and an `Effect` is a computation that adds to it.  Nothing that a search does looks at
the trace; only the log threshold decides which lines are kept.

A step that can fail is an `Attempt`: what was logged and counted before the failure stays.  An
`Act` is an attempt on a changing thing, such as a cursor, and may change it even when it fails.
-/

set_option autoImplicit false

namespace DirectoryQuery

/-- What has been logged, counted and released. -/
structure Trace where
  /-- The lowest severity that is written. -/
  threshold : Severity
  /-- The lines written, last one first. -/
  lines : List LogLine
  /-- The counters, if there are any. -/
  counters : Option Counters
  /-- The labels of the monitored cursors that were released, last one first. -/
  releases : List String

namespace Trace

/-- Nothing logged, counted or released. -/
def start (threshold : Severity) (counting : Bool) : Trace :=
  ⟨threshold, [], if counting then some .zero else none, []⟩

/-- Writes a line if it is severe enough. -/
def write (t : Trace) (l : LogLine) : Trace :=
  if l.severity.passes t.threshold then { t with lines := l :: t.lines } else t

/-- Counts one thing, if anything is counted. -/
def count (t : Trace) (tally : Tally) : Trace :=
  { t with counters := t.counters.map fun c ↦ c.increment tally }

/-- Notes the release of a monitored cursor. -/
def release (t : Trace) (label : String) : Trace := { t with releases := label :: t.releases }

/-- The log in the order of writing. -/
def log (t : Trace) : List LogLine := t.lines.reverse

/-- How often the monitored cursors of a label were released. -/
def releasesOf (t : Trace) (label : String) : Nat := t.releases.count label

end Trace

/-- A computation that may log, count and release. -/
abbrev Effect := StateM Trace

/-- An effect that may fail. -/
abbrev Attempt := ExceptT SearchError Effect

/-- An attempt that changes a thing of type `σ`. -/
abbrev Act (σ : Type) := ExceptT SearchError (StateT σ Effect)

/-! ## Acts -/

namespace Act

variable {σ τ α : Type}

/-- The outcome of an act on a thing, and the thing afterwards. -/
def perform (act : Act σ α) (s : σ) : Effect (Except SearchError α × σ) := StateT.run act.run s

/-- The act that has the given outcome. -/
def of (f : σ → Effect (Except SearchError α × σ)) : Act σ α := ExceptT.mk f

/-- The act on a whole that is an act on one of its parts. -/
def within (part : τ → σ) (put : τ → σ → τ) (act : Act σ α) : Act τ α :=
  of fun whole ↦ do
    let (outcome, changed) ← act.perform (part whole)
    return (outcome, put whole changed)

/-- Acts on a thing at hand; it is lost if the act fails. -/
def on (act : Act σ α) (s : σ) : Attempt (α × σ) :=
  ExceptT.mk do
    let (outcome, changed) ← act.perform s
    return outcome.map fun a ↦ (a, changed)

/-- An attempt that changes nothing. -/
def attempt (a : Attempt α) : Act σ α :=
  of fun s ↦ do return (← a.run, s)

end Act

/-! ## Traces of a step -/

/-- Logs an event. -/
def note (e : Event) (fields : List (String × String)) : Effect Unit :=
  modify fun t ↦ t.write (.ofEvent e fields)

/-- Counts one thing. -/
def tally (what : Tally) : Effect Unit := modify fun t ↦ t.count what

/-- Notes the release of a monitored cursor. -/
def noteRelease (label : String) : Effect Unit := modify fun t ↦ t.release label

end DirectoryQuery
