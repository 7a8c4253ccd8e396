import ScopedLabels.Log
import ScopedLabels.Options

/-!
# Settings — what the command line can ask for

`Settings` is the outcome of reading an argument list: the scripts to run and the switches. Its
defaults are what an empty list of options means. `Settings.labelOptions` is the part that
concerns labels.
-/

namespace ScopedLabels.CommandLine

/-- How the metrics are reported. -/
inductive Format
  | text
  | json
deriving DecidableEq

namespace Format

/-- How a format is written. -/
def name : Format → Text
  | .text => "text"
  | .json => "json"

/-- All formats. -/
def all : List Format :=
  [.text, .json]

/-- The format that is written as `text`. -/
def ofName? (text : Text) : Option Format :=
  all.find? fun format => format.name == text

end Format

/-- What the command line asks for. -/
structure Settings where
  /-- The scripts to run, in order; a lone dash is standard input. -/
  inputs : List Text := []
  showHelp : Bool := false
  strictNames : Bool := false
  fallbackWarning : Bool := true
  logLevel : Level := .warning
  metrics : Bool := false
  format : Format := .text
deriving DecidableEq

/-- The options of the environments that the scripts run in. -/
def Settings.labelOptions (settings : Settings) : Options :=
  { forbidUnderscore := settings.strictNames
    warnOnGlobalFallback := settings.fallbackWarning }

end ScopedLabels.CommandLine
