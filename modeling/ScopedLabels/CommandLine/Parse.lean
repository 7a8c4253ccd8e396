import ScopedLabels.CommandLine.Argument

/-!
# Reading an argument list

Arguments are read from left to right. Reading stops at the first error, at a request for help,
and behind the end-of-options mark; the settings reached by then are kept in every case. A command
line that names no script is an error.
-/

namespace ScopedLabels.CommandLine

/-- The settings that reading reached, and the fault it stopped at. -/
structure Parsed where
  settings : Settings
  fault? : Option Fault := none
deriving DecidableEq

namespace Parsed

/-- The end of the list: there must be a script. -/
def finish (settings : Settings) : Parsed :=
  if settings.inputs = [] then ⟨settings, some .noInputs⟩ else ⟨settings, none⟩

/-- Read arguments on top of the settings so far. -/
def ofArguments : List Text → Settings → Parsed
  | [], settings => finish settings
  | argument :: rest, settings =>
    match Recogniser.any settings argument rest with
    | .rejected fault => ⟨settings, some fault⟩
    | .notMatched => ofArguments rest settings
    | .handled settings extent =>
      if settings.showHelp then ⟨settings, none⟩
      else
        match extent with
        | .one => ofArguments rest settings
        | .all => finish settings

/-- Read an argument vector: the program's name, which does not matter here, and the arguments. A
missing entry counts as an empty one. -/
def ofVector (vector : List (Option Text)) : Parsed :=
  ofArguments ((vector.map (·.getD [])).drop 1) {}

end Parsed

end ScopedLabels.CommandLine
