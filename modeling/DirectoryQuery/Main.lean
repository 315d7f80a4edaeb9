import DirectoryQuery.Command.Run
import DirectoryQuery.Search.Identifier

/-!
# The program

Reads the command line and the files it leads to, runs the command, and writes what it prints to the
standard output and what it logs to the standard error.  The program ends with 0 if the command
succeeds, with 1 if it fails, and with 2 if the command line makes no sense.
-/

set_option autoImplicit false

namespace DirectoryQuery
namespace Program

/-- What is shown when the command line makes no sense. -/
def usage : String :=
  "usage: search [--config PATH] [--reverse] | validate [--config PATH]"

/-- The reason for a failure to read.  A failure that names the file came up on the way to it. -/
def reasonOf : IO.Error → String
  | .noFileOrDirectory .. => FileTree.missing
  | .inappropriateType (some _) .. => FileTree.notADirectory
  | .inappropriateType none .. => FileTree.isADirectory
  | .invalidArgument (some _) .. => FileTree.tooLong
  | e => toString e

/-- The text that bytes encode. -/
def textOf (bytes : ByteArray) : Except String String :=
  match String.fromUTF8? bytes with
  | some text => .ok text
  | none => .error "stream did not contain valid UTF-8"

/-- Reads a file. -/
def readFile (path : String) : IO (Except String String) := do
  if path.toList.contains '\x00' then return .error FileTree.holdsZero
  try return textOf (← IO.FS.readBinFile path)
  catch e => return .error (reasonOf e)

/-- Reads the rest of a stream. -/
partial def readAll (stream : IO.FS.Stream) (seen : ByteArray) : IO ByteArray := do
  let chunk ← stream.read 65536
  if chunk.isEmpty then return seen else readAll stream (seen ++ chunk)

/-- Reads the standard input. -/
def readInput : IO (Except String String) := do
  try return textOf (← readAll (← IO.getStdin) .empty)
  catch e => return .error (reasonOf e)

/-- The path of the configuration. -/
def configPath : Command → String
  | .search config _ | .validate config => config

/-- Reads the configuration and the files that it asks for. -/
def readFiles (path : String) : IO Files := do
  let settings ← readFile path
  let further := match settings.toOption.bind fun text ↦ (CommandConfig.ofText text).toOption with
    | some c => c.paths path
    | none => []
  let contents ← further.mapM fun p ↦ do return (p, ← readFile p)
  return fun p ↦ (((path, settings) :: contents).lookup p).getD (.error FileTree.missing)

/-- The state in which logging and counting begin. -/
def begin : Trace := .start SearchConfig.standard.logLevel false

/-- Whether the command gets as far as reading its input. -/
def readsInput (files : Files) : Command → Bool
  | .search config _ => ((Session.open files config).run.run begin).1.isOk
  | .validate _ => false

/-- Runs a command. -/
def run (c : Command) : IO UInt32 := do
  let files ← readFiles (configPath c)
  let input ← if readsInput files c then readInput else pure (.ok "")
  let searchId := SearchId.ofBytes (← IO.getRandomBytes 16).data.toList
  let (report, trace) := (c.run files input searchId).run begin
  for line in trace.log do IO.eprint line.render
  for answer in report.output do IO.println answer.render
  match report.failure with
  | some e => IO.eprintln e.display; return 1
  | none => return 0

/-- Runs the command that the arguments ask for. -/
def answer (arguments : List String) : IO UInt32 :=
  match Command.ofArguments? arguments with
  | some c => run c
  | none => do
    IO.eprintln usage
    return 2

end Program
end DirectoryQuery

/-- The entry point. -/
def main (arguments : List String) : IO UInt32 := DirectoryQuery.Program.answer arguments
