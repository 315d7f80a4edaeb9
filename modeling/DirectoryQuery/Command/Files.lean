import DirectoryQuery.Command.Path
import DirectoryQuery.Schema.Definition
import DirectoryQuery.Store.Basic
import DirectoryQuery.Config
import DirectoryQuery.Trace

/-!
# Reading from files

Configurations, schemas and entries come from files.  `Files` answers each path with the text of the
file or with the reason why there is none.  A `FileTree` is such an answerer whose files are held in
memory; it gives the reasons that a file system gives.
-/

set_option autoImplicit false

namespace DirectoryQuery

/-- The text of the file at a path, or the reason why it cannot be read. -/
abbrev Files := String → Except String String

/-! ## Files in memory -/

/-- Files by the components of their paths. -/
structure FileTree where
  files : List (List String × String)

namespace FileTree

/-- The tree of files at the given relative paths. -/
def ofList (files : List (String × String)) : FileTree :=
  ⟨files.map fun (path, text) ↦ ((Path.components path).filter fun c ↦ !Path.isIdle c, text)⟩

/-- The text of the file at exactly these components. -/
def file? (t : FileTree) (place : List String) : Option String := t.files.lookup place

/-- Whether there is a directory at these components. -/
def isDirectory (t : FileTree) (place : List String) : Bool :=
  place.isEmpty || t.files.any fun f ↦ place.isPrefixOf f.1 && place != f.1

/-! ### Why a path leads to no text -/

/-- The reason for a path that leads nowhere. -/
def missing : String := "No such file or directory (os error 2)"

/-- The reason for a path that goes on behind a file. -/
def notADirectory : String := "Not a directory (os error 20)"

/-- The reason for a path to a directory. -/
def isADirectory : String := "Is a directory (os error 21)"

/-- The reason for a path, or a component of one, beyond the length that there is room for. -/
def tooLong : String := "File name too long (os error 36)"

/-- The reason for a text that is no path because of a zero character. -/
def holdsZero : String := "file name contained an unexpected NUL byte"

/-- How many bytes a component may have. -/
def componentRoom : Nat := 255

/-- How many bytes a path may have. -/
def pathRoom : Nat := 4095

/-! ### Where a path leads -/

/-- A place that a path leads to. -/
inductive Place where
  /-- A place in the tree, or where one could be, by its components, last one first. -/
  | inside (above : List String)
  /-- A directory above the tree. -/
  | outside

namespace Place

/-- The directory that holds the place; at the root it is the root itself. -/
def parent : Place → Place
  | inside (_ :: above) => inside above
  | inside [] => outside
  | outside => outside

/-- The place of that name in a directory.  Above the tree there are directories alone, and none of
them is known by its name. -/
def child? (name : String) : Place → Except String Place
  | inside above => .ok (inside (name :: above))
  | outside => .error missing

end Place

/-- Checks that there is a directory at the place. -/
def enter (t : FileTree) : Place → Except String Unit
  | .outside => .ok ()
  | .inside above =>
    if t.isDirectory above.reverse then .ok ()
    else .error (if (t.file? above.reverse).isSome then notADirectory else missing)

/-- The place that further components lead to.  Each one asks for a directory to go on from. -/
def walk (t : FileTree) : Place → List String → Except String Place
  | place, [] => .ok place
  | place, component :: rest => do
    t.enter place
    if Path.isIdle component then t.walk place rest
    else if component == ".." then t.walk place.parent rest
    else if componentRoom < component.utf8ByteSize then .error tooLong
    else t.walk (← place.child? component) rest

/-- The text at a place. -/
def textAt (t : FileTree) : Place → Except String String
  | .outside => .error isADirectory
  | .inside above =>
    match t.file? above.reverse with
    | some text => .ok text
    | none => .error (if t.isDirectory above.reverse then isADirectory else missing)

/-- Reads the file at a path. -/
def read (t : FileTree) (path : String) : Except String String := do
  if path.toList.contains '\x00' then .error holdsZero
  else if pathRoom < path.utf8ByteSize then .error tooLong
  else if path == "" then .error missing
  else
    let start := if Path.isAbsolute path then Place.outside else .inside []
    t.textAt (← t.walk start (Path.components path))

end FileTree

/-! ## What is read -/

/-- Builds the registry of the definition in a file. -/
def Registry.load (files : Files) (path : String) : Effect (Except SchemaError Registry) := do
  match files path with
  | .error reason => return .error (.malformed path ("Failed to read file: " ++ reason))
  | .ok text =>
    match (Json.read? text).bind SchemaDefinition.ofJson? with
    | none => return .error (.malformed path ("Invalid JSON: " ++ Registry.invalidJson))
    | some d =>
      match Registry.ofDefinition d with
      | .error e => return .error e
      | .ok r =>
        note .schemaLoaded [("attribute_types", toString r.typeCount), ("path", path)]
        return .ok r

/-- Reads the configuration in a file. -/
def SearchConfig.load (files : Files) (path : String) :
    Effect (Except ConfigError SearchConfig) := do
  match files path with
  | .error reason => return .error (.unread path reason)
  | .ok text =>
    match SearchConfig.ofText text with
    | .error e => return .error e
    | .ok c =>
      note .configLoaded [("path", path)]
      return .ok c

/-- Builds the store of the entries in a file. -/
def Store.load (files : Files) (path : String) : Except StoreError Store :=
  match files path with
  | .error reason => .error (.backend ("cannot read " ++ path ++ ": " ++ reason))
  | .ok text =>
    match (Json.read? text).bind Store.entries? with
    | some entries => .ok (.ofEntries entries)
    | none => .error (.backend ("cannot parse " ++ path ++ ": not a list of entries"))

end DirectoryQuery
