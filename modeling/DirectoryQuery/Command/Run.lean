import DirectoryQuery.Command.Arguments
import DirectoryQuery.Command.Config
import DirectoryQuery.Filter.Json
import DirectoryQuery.Search.Basic

/-!
# Running commands

Both commands open a session: the configuration, then the schema, then the entries, then the
indexes.  Paths in the configuration are relative to its own directory, and from the moment it is
read its log threshold holds.

A command prints JSON objects.  A search that fails prints its failure and then fails itself; any
other failure prints nothing.
-/

set_option autoImplicit false

namespace DirectoryQuery

/-- A step of a command. -/
abbrev CommandStep := ExceptT CommandError Effect

/-- What a command needs to have read. -/
structure Session where
  config : CommandConfig
  schema : Registry
  store : Store

namespace Session

/-- Lets the log threshold be the one configured. -/
def applyLogging (c : SearchConfig) : Effect Unit :=
  modify fun t ↦ { t with threshold := c.logLevel }

/-- The schema that a configuration asks for. -/
def schemaOf (files : Files) (path : String) (c : CommandConfig) :
    Effect (Except CommandError Registry) := do
  match c.schemaFile with
  | some file => return (← Registry.load files (Path.besides path file)).mapError .ofSchema
  | none => return .ok .core

/-- Reads everything that the configuration at a path asks for. -/
def «open» (files : Files) (path : String) : CommandStep Session := do
  let config ← ExceptT.mk (CommandConfig.load files path)
  applyLogging config.search
  let schema ← ExceptT.mk (schemaOf files path config)
  let store ← (Store.load files (Path.besides path config.entriesFile)).mapError
    CommandError.ofStore
  let store ← config.search.indexedAttributes.foldlM
    (fun store name ↦ (store.keepIndexOn schema name).mapError CommandError.ofSchema) store
  return ⟨config, schema, store⟩

/-- What the parts of a search refer to. -/
def context (s : Session) : Context := ⟨s.store.directory, s.schema, s.config.search⟩

end Session

/-- What a command leaves: what it prints, and the failure if it fails. -/
structure Report where
  output : List Json
  failure : Option CommandError

namespace Report

/-- A command that succeeds. -/
def success (data : Json) : Report :=
  ⟨[.object [("data", data), ("status", .string "ok")]], none⟩

/-- A search that fails. -/
def searchFailure (e : SearchError) : Report :=
  ⟨[.object [("code", .string e.code), ("message", .string e.message),
    ("status", .string "error")]], some (.ofSearch e)⟩

/-- The report of steps, nothing being printed if one of them fails. -/
def ofStep (step : CommandStep Report) : Effect Report := do
  match ← step.run with
  | .ok report => return report
  | .error e => return ⟨[], some e⟩

end Report

namespace Command

/-- The failure to make sense of the input. -/
def invalidInput : CommandError := ⟨.inputOutput, "JSON error: not a filter"⟩

/-- Reads the filter in the input. -/
def filterOf (input : Except String String) : Except CommandError Filter :=
  match input with
  | .error reason => .error ⟨.inputOutput, reason⟩
  | .ok text =>
    if Text.isAllBlank text then .error ⟨.inputOutput, "Empty input"⟩
    else match (Json.readValue? text).bind Filter.ofValue? with
      | some f => .ok f
      | none => .error invalidInput

/-- Lets the counters start at zero. -/
def startCounting : Effect Unit := modify fun t ↦ { t with counters := some .zero }

/-- Answers the filter in the input. -/
def answer (files : Files) (input : Except String String) (searchId : String) (config : String)
    (d : Direction) : CommandStep Report := do
  let session ← Session.open files config
  let f ← filterOf input
  startCounting
  match ← (session.context.search searchId f d).run with
  | .ok ids =>
    let counters := (← get).counters.getD .zero
    return .success (.object [("ids", .list (fun id ↦ .ofNat id.toNat) ids),
      ("stats", counters.toJson)])
  | .error e => return .searchFailure e

/-- Tells what a search would have to do with. -/
def inspect (files : Files) (config : String) : CommandStep Report := do
  let session ← Session.open files config
  session.schema.validate.mapError CommandError.ofSchema
  return .success (.object [("attribute_types", .ofNat session.schema.typeCount),
    ("entries", .ofNat session.store.size),
    ("indexed_attributes", .list .string session.config.search.indexedAttributes)])

/-- Runs a command. -/
def run (files : Files) (input : Except String String) (searchId : String) :
    Command → Effect Report
  | search config inReverse =>
    Report.ofStep (answer files input searchId config (if inReverse then .backward else .forward))
  | validate config => Report.ofStep (inspect files config)

end Command
end DirectoryQuery
