/-!
# Command lines

There are two commands.  `search` answers a filter read from the standard input, and `validate`
reads everything a search needs and tells what was there.  Both take the option `--config` with the
path of the configuration, and `search` takes the flag `--reverse`.

An option is given at most once.  Its value is the next argument, which then must not look like an
option itself, or stands behind an equals sign.  Nothing else may be given, but a lone `--` may end
the command line.
-/

set_option autoImplicit false

namespace DirectoryQuery

/-- What is to be done. -/
inductive Command where
  /-- Answer a filter, from the last entry to the first if in reverse. -/
  | search (config : String) (inReverse : Bool)
  /-- Read everything a search needs. -/
  | validate (config : String)
deriving DecidableEq, Repr

namespace Command

/-- The options given so far. -/
structure Options where
  config : Option String
  inReverse : Bool

/-- The path of the configuration if none is given. -/
def usualConfig : String := "./dirsearch.json"

/-- Whether an argument is taken for an option and cannot be the value of one. -/
def looksLikeOption (argument : String) : Bool :=
  match argument.toList with
  | '-' :: _ :: _ => true
  | _ => false

/-- The value behind the equals sign of a `--config` option. -/
def attachedConfig? (argument : String) : Option String :=
  ("--config=".toList.isPrefixOf? argument.toList).map String.ofList

/-- The options with the path of the configuration, which must be new and not empty. -/
def Options.withConfig? (o : Options) (path : String) : Option Options :=
  if o.config.isNone && path != "" then some { o with config := some path } else none

/-- Reads the arguments behind the command. -/
def options? (reversible : Bool) (o : Options) : List String → Option Options
  | [] => some o
  | ["--"] => some o
  | "--config" :: path :: rest =>
    if looksLikeOption path then none
    else (o.withConfig? path).bind fun o ↦ options? reversible o rest
  | argument :: rest =>
    if argument == "--reverse" then
      if reversible && !o.inReverse then options? reversible { o with inReverse := true } rest
      else none
    else match attachedConfig? argument with
      | some path => (o.withConfig? path).bind fun o ↦ options? reversible o rest
      | none => none

/-- Reads a command line. -/
def ofArguments? : List String → Option Command
  | "search" :: rest =>
    (options? true ⟨none, false⟩ rest).map fun o ↦
      .search (o.config.getD usualConfig) o.inReverse
  | "validate" :: rest =>
    (options? false ⟨none, false⟩ rest).map fun o ↦ .validate (o.config.getD usualConfig)
  | _ => none

end Command
end DirectoryQuery
