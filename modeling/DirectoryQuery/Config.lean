import DirectoryQuery.Log.Event
import DirectoryQuery.Text.Blank

/-!
# Configuration of searches

A configuration says how much is logged, whether indexes may be used, and which attributes a store
keeps indexes on.  Each setting has a default.
-/

set_option autoImplicit false

namespace DirectoryQuery

/-- The settings of a search. -/
structure SearchConfig where
  /-- The lowest severity that is logged. -/
  logLevel : Severity
  /-- Whether a leaf may be tested by the reverse reading of an index. -/
  useReverseIndex : Bool
  /-- Whether candidates for a leaf may come from an index. -/
  preferIndexCursors : Bool
  /-- The attributes on which indexes are to be kept. -/
  indexedAttributes : List String
deriving DecidableEq, Repr

/-- Why a configuration could not be had. -/
inductive ConfigError where
  /-- The file cannot be read. -/
  | unread (path reason : String)
  /-- The text is not the JSON of a configuration. -/
  | unparsed (reason : String)
  /-- A setting makes no sense. -/
  | invalid (reason : String)
deriving DecidableEq, Repr

/-- The text of a failure. -/
def ConfigError.message : ConfigError → String
  | unread path reason => "Failed to read config " ++ path ++ ": " ++ reason
  | unparsed reason => "Invalid config JSON: " ++ reason
  | invalid reason => "Invalid config: " ++ reason

namespace SearchConfig

/-- Warnings are logged and indexes are used where there are any. -/
def standard : SearchConfig := ⟨.warn, true, true, []⟩

/-- Indexes are never used, so that every leaf looks at every entry. -/
def fullScan : SearchConfig :=
  { standard with useReverseIndex := false, preferIndexCursors := false }

/-- The names of the settings. -/
def fieldNames : List String :=
  ["log_level", "use_reverse_index", "prefer_index_cursors", "indexed_attributes"]

/-- The settings in JSON. -/
def members (c : SearchConfig) : List (String × Json) :=
  [("log_level", .string c.logLevel.name), ("use_reverse_index", .bool c.useReverseIndex),
   ("prefer_index_cursors", .bool c.preferIndexCursors),
   ("indexed_attributes", .list .string c.indexedAttributes)]

/-- The configuration in JSON. -/
def toJson (c : SearchConfig) : Json := .object c.members

/-- Reads the settings from the values of the fields, the severity in the way given. -/
def ofFields? (severity? : Json → Option Severity) : List (Option Json) → Option SearchConfig
  | [logLevel, useReverseIndex, preferIndexCursors, indexedAttributes] => do
    some {
      logLevel := ← Json.optional? standard.logLevel severity? logLevel
      useReverseIndex := ← Json.optional? standard.useReverseIndex Json.bool? useReverseIndex
      preferIndexCursors :=
        ← Json.optional? standard.preferIndexCursors Json.bool? preferIndexCursors
      indexedAttributes :=
        ← Json.optional? standard.indexedAttributes (Json.list? Json.string?) indexedAttributes }
  | _ => none

/-- Reads a configuration, without asking whether it makes sense. -/
def ofJson? (j : Json) : Option SearchConfig :=
  (j.record? fieldNames).bind (ofFields? Severity.ofJson?)

/-- Refuses a configuration in which an attribute has no name. -/
def validate (c : SearchConfig) : Except ConfigError Unit :=
  if c.indexedAttributes.any Text.isAllBlank then
    .error (.invalid "indexed_attributes contains an empty name")
  else .ok ()

/-- The reason given for text that is not JSON of the wanted form. -/
def notAConfiguration : String := "not a search configuration"

/-- Reads and checks a configuration. -/
def ofText (text : String) : Except ConfigError SearchConfig := do
  match (Json.read? text).bind ofJson? with
  | some c => c.validate; return c
  | none => .error (.unparsed notAConfiguration)

end SearchConfig
end DirectoryQuery
