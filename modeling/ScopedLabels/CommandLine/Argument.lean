import ScopedLabels.CommandLine.Settings

/-!
# Arguments — what one word of the command line means

Every option has a *recogniser*. It is shown the settings so far, the argument, and the arguments
after it, and answers with a `Recognition`: the argument is none of its business, or it is taken
and changes the settings, or it is an error. Only the end-of-options mark takes the arguments after
it as well; every other recogniser takes a single one.

The recognisers are asked in order, and the last one, for scripts and for unknown options, always
has an answer.
-/

namespace ScopedLabels.CommandLine

/-- What is wrong with a command line. -/
inductive Fault
  /-- No such format of the metrics report. -/
  | unknownFormat (value : Text)
  /-- No such severity. -/
  | unknownLevel (value : Text)
  /-- An argument begins like an option and is none. -/
  | unknownOption (argument : Text)
  /-- There is no script to run. -/
  | noInputs
deriving DecidableEq

/-- The line that reports a fault. -/
def Fault.text (fault : Fault) : Text :=
  let message : Text :=
    match fault with
    | .unknownFormat value => "cannot report label metrics as '" ++ value ++
        "'; use --metrics=text or --metrics=json"
    | .unknownLevel value => "unknown log level '" ++ value ++
        "' (expected debug, info, warning, error or off)"
    | .unknownOption argument => "unknown option '" ++ argument ++ "'"
    | .noInputs => "no input scripts"
  "labelkit: error: " ++ message ++ [Text.newline]

/-- How much of the command line a recogniser takes. -/
inductive Extent
  /-- The argument alone. -/
  | one
  /-- The argument and all that follow it. -/
  | all
deriving DecidableEq

/-- What a recogniser makes of an argument. -/
inductive Recognition
  | notMatched
  | handled (settings : Settings) (extent : Extent)
  | rejected (fault : Fault)
deriving DecidableEq

/-- Reads an argument, given the settings so far and the arguments after it. -/
abbrev Recogniser := Settings → Text → List Text → Recognition

namespace Recogniser

/-- `-h` and `--help`. -/
def help : Recogniser := fun settings argument _ =>
  if argument = ("-h" : Text) ∨ argument = ("--help" : Text) then
    .handled { settings with showHelp := true } .one
  else .notMatched

/-- `--metrics`, and `--metrics=` with a format. -/
def metrics : Recogniser := fun settings argument _ =>
  if argument = ("--metrics" : Text) then
    .handled { settings with metrics := true, format := .text } .one
  else
    match ("--metrics=" : Text).isPrefixOf? argument with
    | none => .notMatched
    | some value =>
      match Format.ofName? value with
      | some format => .handled { settings with metrics := true, format } .one
      | none => .rejected (.unknownFormat value)

/-- `--log-level=` with a severity. -/
def logLevel : Recogniser := fun settings argument _ =>
  match ("--log-level=" : Text).isPrefixOf? argument with
  | none => .notMatched
  | some value =>
    match Level.ofName? value with
    | some level => .handled { settings with logLevel := level } .one
    | none => .rejected (.unknownLevel value)

/-- `--strict-names` and `--no-fallback-warning`. -/
def switch : Recogniser := fun settings argument _ =>
  if argument = ("--strict-names" : Text) then
    .handled { settings with strictNames := true } .one
  else if argument = ("--no-fallback-warning" : Text) then
    .handled { settings with fallbackWarning := false } .one
  else .notMatched

/-- `--`: everything after it is a script, whatever it looks like. -/
def endOfOptions : Recogniser := fun settings argument rest =>
  if argument = ("--" : Text) then
    .handled { settings with inputs := settings.inputs ++ rest } .all
  else .notMatched

/-- Any other argument is a script, unless it begins with a dash and goes on. An empty argument is
ignored. -/
def positional : Recogniser := fun settings argument _ =>
  if argument.head? = some Text.dash ∧ 1 < argument.length then
    .rejected (.unknownOption argument)
  else if argument = [] then
    .handled settings .one
  else
    .handled { settings with inputs := settings.inputs ++ [argument] } .one

/-- Ask recognisers in order; the first one that has an answer gives it. -/
def firstOf : List Recogniser → Recogniser
  | [], _, _, _ => .notMatched
  | recogniser :: others, settings, argument, rest =>
    match recogniser settings argument rest with
    | .notMatched => firstOf others settings argument rest
    | answer => answer

/-- The recognisers of the options. -/
def options : List Recogniser :=
  [help, metrics, logLevel, switch, endOfOptions]

/-- The meaning of an argument. -/
def any : Recogniser :=
  firstOf (options ++ [positional])

end Recogniser

/-! ## A place in an argument vector -/

/-- A place in an argument vector of which the first `count` arguments are looked at. -/
structure Cursor where
  arguments : List Text
  count : Nat
  index : Nat
deriving DecidableEq

namespace Cursor

/-- The arguments after the place. -/
def rest (cursor : Cursor) : List Text :=
  (cursor.arguments.take cursor.count).drop (cursor.index + 1)

/-- The place after a recognition: it stays, unless everything was taken. -/
def advance (cursor : Cursor) : Recognition → Nat
  | .handled _ .all => max (cursor.index + 1) cursor.count
  | _ => cursor.index

end Cursor

end ScopedLabels.CommandLine
