/-!
# Paths

A path is a text with slashes between its components.  Empty components and single dots say nothing,
except that a dot in front of everything else is kept.  `parent` leaves out the last component and
`join` puts a path behind another one, unless it stands on its own.
-/

set_option autoImplicit false

namespace DirectoryQuery
namespace Path

/-- Whether the path starts at the root. -/
def isAbsolute (path : String) : Bool := path.toList.head? == some '/'

/-- Whether a component says nothing. -/
def isIdle (component : String) : Bool := component == "" || component == "."

/-- The components between the slashes, idle ones included. -/
def components (path : String) : List String := path.splitOn "/"

/-- Splits off what a path begins with and keeps: the slash of the root, or a dot in front. -/
def splitLead (path : String) : String × List String :=
  match components path with
  | "" :: rest => if rest.isEmpty then ("", []) else ("/", rest)
  | "." :: rest => (".", if rest.isEmpty then [] else "" :: rest)
  | parts => ("", parts)

/-- The path without its last component, if it has one. -/
def parent? (path : String) : Option String :=
  let (lead, body) := splitLead path
  match body.reverse.dropWhile isIdle with
  | _ :: above => some (lead ++ "/".intercalate (above.dropWhile isIdle).reverse)
  | [] => if lead == "." then some "" else none

/-- The path as seen from the directory given. -/
def join (directory path : String) : String :=
  if isAbsolute path || directory == "" then path
  else if directory.toList.getLast? == some '/' then directory ++ path
  else directory ++ "/" ++ path

/-- The path as seen from the directory of the file given. -/
def besides (file path : String) : String := join ((parent? file).getD ".") path

end Path
end DirectoryQuery
