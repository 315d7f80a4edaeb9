import DirectoryQuery.Command.Files
import DirectoryQuery.Schema.Core

/-!
# Configuration of commands

The configuration file of a command has the settings of searches, the path of the schema file if the
core schema is not to be used, and the path of the file of entries.  All members stand in one
object.  A member that is none of these is skipped, but it has to be a proper value.
-/

set_option autoImplicit false

namespace DirectoryQuery

/-- The parts of a command that can fail. -/
inductive CommandStage where
  | configuration
  | schema
  | store
  | inputOutput
  | search
deriving DecidableEq, Repr

/-- The code of a failure in a part of a command. -/
def CommandStage.code : CommandStage → String
  | configuration => "DIRSEARCH_CLI_CONFIG_ERROR"
  | schema => "DIRSEARCH_CLI_SCHEMA_ERROR"
  | store => "DIRSEARCH_CLI_STORE_ERROR"
  | inputOutput => "DIRSEARCH_CLI_IO_ERROR"
  | search => "DIRSEARCH_CLI_SEARCH_FAILED"

/-- Why a command failed. -/
structure CommandError where
  stage : CommandStage
  message : String
deriving DecidableEq, Repr

namespace CommandError

/-- The failure as it is shown: code and text. -/
def display (e : CommandError) : String := e.stage.code ++ ": " ++ e.message

/-- The failure of a configuration. -/
def ofConfig (e : ConfigError) : CommandError := ⟨.configuration, e.message⟩

/-- The failure of a schema. -/
def ofSchema (e : SchemaError) : CommandError := ⟨.schema, e.message⟩

/-- The failure of a store. -/
def ofStore (e : StoreError) : CommandError := ⟨.store, e.message⟩

/-- The failure of a search. -/
def ofSearch (e : SearchError) : CommandError := ⟨.search, e.message⟩

end CommandError

/-- The settings of a command. -/
structure CommandConfig where
  search : SearchConfig
  schemaFile : Option String
  entriesFile : String
deriving DecidableEq, Repr

namespace CommandConfig

/-- The names of the two settings besides those of searches. -/
def fileNames : List String := ["schema_file", "entries_file"]

/-- The settings in JSON. -/
def toJson (c : CommandConfig) : Json :=
  .object (c.search.members ++ [("schema_file", Json.orNull .string c.schemaFile),
    ("entries_file", .string c.entriesFile)])

/-- Reads a severity among other settings, where its name may also be the key of an empty object. -/
def severity? : Json → Option Severity
  | .object [(name, .object [])] => Severity.names.lookup name
  | j => Severity.ofJson? j

/-- Whether every member that is not the path of a file is a proper value. -/
def isSound (members : List (String × Json)) : Bool :=
  members.all fun m ↦ fileNames.contains m.1 || m.2.value?.isSome

/-- Reads the settings, without asking whether they make sense. -/
def ofJson? : Json → Option CommandConfig
  | .object members => do
    if !isSound members then none
    match ← fileNames.mapM (Json.field? members) with
    | [schemaFile, entriesFile] =>
      some {
        search :=
          ← SearchConfig.ofFields? severity? (← SearchConfig.fieldNames.mapM (Json.field? members))
        schemaFile := ← Json.optional? none (Json.nullable? Json.string?) schemaFile
        entriesFile := ← Json.required? Json.string? entriesFile }
    | _ => none
  | _ => none

/-- Refuses settings that make no sense. -/
def validate (c : CommandConfig) : Except CommandError Unit :=
  if Text.isAllBlank c.entriesFile then
    .error ⟨.configuration, "entries_file must not be empty"⟩
  else c.search.validate.mapError .ofConfig

/-- Reads and checks settings. -/
def ofText (text : String) : Except CommandError CommandConfig := do
  match (Json.read? text).bind ofJson? with
  | some c => c.validate; return c
  | none =>
    .error ⟨.configuration, (ConfigError.unparsed SearchConfig.notAConfiguration).message⟩

/-- The paths of the files that the settings in the file at a path ask for. -/
def paths (c : CommandConfig) (path : String) : List String :=
  (c.schemaFile.toList ++ [c.entriesFile]).map (Path.besides path)

/-- Reads the settings in a file. -/
def load (files : Files) (path : String) : Effect (Except CommandError CommandConfig) := do
  match files path with
  | .error reason => return .error ⟨.configuration, "Failed to read config: " ++ reason⟩
  | .ok text =>
    match ofText text with
    | .error e => return .error e
    | .ok c =>
      note .configLoaded [("path", path)]
      return .ok c

end CommandConfig
end DirectoryQuery
