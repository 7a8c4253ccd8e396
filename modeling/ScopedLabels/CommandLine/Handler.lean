import ScopedLabels.CommandLine.Argument

/-!
# Handlers — acting on an argument

A recogniser says what an argument means, and a handler acts on it. A handler works on a `Reading`,
which is the settings so far, the place in the argument vector and what was reported, and it may
change all three before it gives its `Answer`. Each looks at the bytes of the argument in its own
way; the values of options are found in tables, which are gone through entry by entry.

`Handler.any` has the handlers act in order on one reading, up to the first that has an answer.
-/

namespace ScopedLabels.CommandLine

/-- Where the reading of an argument vector stands. -/
structure Reading where
  settings : Settings
  /-- The place in the vector. -/
  index : Nat
  /-- What was written to the error stream. -/
  report : Text := []
deriving DecidableEq

/-- What a handler makes of an argument. -/
inductive Answer
  | notMatched
  | handled
  | rejected
deriving DecidableEq

/-- Work on a reading. It has no result if it looks at an argument that is not there. -/
abbrev Handling := StateT Reading Option

namespace Handling

/-- The argument at the place. -/
def argument (arguments : List Text) : Handling Text := fun reading =>
  arguments[reading.index]?.map (·, reading)

/-- Change the settings. -/
def change (update : Settings → Settings) : Handling Unit :=
  modify fun reading => { reading with settings := update reading.settings }

/-- Write to the error stream. -/
def write (text : Text) : Handling Unit :=
  modify fun reading => { reading with report := reading.report ++ text }

/-- Go on to the next place. -/
def advance : Handling Unit :=
  modify fun reading => { reading with index := reading.index + 1 }

/-- Find the entry of a table that has this name and store it in the settings. It is a fault if
there is none. -/
def choose {α : Type} (name : α → Text) (store : α → Settings → Settings) (fault : Text → Fault)
    (value : Text) : List α → Handling Answer
  | [] => do
    write (fault value).text
    return .rejected
  | entry :: entries => do
    if value = name entry then
      change (store entry)
      return .handled
    choose name store fault value entries

/-- Keep the arguments from the place on as scripts, and stand behind the last one. -/
def keepRest (arguments : List Text) (count : Nat) (reading : Reading) :
    Option (Unit × Reading) :=
  if reading.index < count then do
    let script ← arguments[reading.index]?
    keepRest arguments count
      { reading with
        settings := { reading.settings with inputs := reading.settings.inputs ++ [script] }
        index := reading.index + 1 }
  else
    some ((), reading)
termination_by count - reading.index

end Handling

/-- Acts on the argument at the place of a reading, given the argument vector and how many of its
arguments are looked at. -/
abbrev Handler := List Text → Nat → Handling Answer

namespace Handler

open Handling

/-- `-h` and `--help`. -/
def help (argument : Text) : Handling Answer := do
  if argument = ("-h" : Text) ∨ argument = ("--help" : Text) then
    change fun settings => { settings with showHelp := true }
    return .handled
  return .notMatched

/-- `--metrics`, and `--metrics=` with a format. -/
def metrics (argument : Text) : Handling Answer := do
  let flag : Text := "--metrics"
  if argument = flag then
    change fun settings => { settings with metrics := true, format := .text }
    return .handled
  if argument.length ≤ flag.length ∨ argument.take flag.length ≠ flag ∨
      argument[flag.length]? ≠ some Text.equals then
    return .notMatched
  choose Format.name (fun format settings => { settings with metrics := true, format })
    .unknownFormat (argument.drop (flag.length + 1)) Format.all

/-- `--log-level=` with a severity. -/
def logLevel (argument : Text) : Handling Answer := do
  let flag : Text := "--log-level="
  if ¬ flag <+: argument then
    return .notMatched
  choose Level.name (fun level settings => { settings with logLevel := level })
    .unknownLevel (argument.drop flag.length) Level.all

/-- `--strict-names` and `--no-fallback-warning`. -/
def switch (argument : Text) : Handling Answer := do
  if argument = ("--strict-names" : Text) then
    change fun settings => { settings with strictNames := true }
    return .handled
  if argument = ("--no-fallback-warning" : Text) then
    change fun settings => { settings with fallbackWarning := false }
    return .handled
  return .notMatched

/-- Any other argument is a script, unless it begins with a dash and goes on. -/
def positional (argument : Text) : Handling Answer := do
  if 1 < argument.length ∧ argument[0]? = some Text.dash then
    write (Fault.unknownOption argument).text
    return .rejected
  if argument ≠ [] then
    change fun settings => { settings with inputs := settings.inputs ++ [argument] }
  return .handled

/-- `--`: every argument behind it is a script. -/
def endOfOptions : Handler := fun arguments count => do
  if (← argument arguments) ≠ ("--" : Text) then
    return .notMatched
  advance
  keepRest arguments count
  return .handled

/-- Act on the argument at the place alone. -/
def single (handle : Text → Handling Answer) : Handler := fun arguments _ => do
  handle (← argument arguments)

/-- Have handlers act in order, up to the first that has an answer. -/
def inOrder : List Handler → Handler
  | [], _, _ => return .notMatched
  | handler :: others, arguments, count => do
    match ← handler arguments count with
    | .notMatched => inOrder others arguments count
    | answer => return answer

/-- The handlers of the options. -/
def options : List Handler :=
  [single help, single metrics, single logLevel, single switch, endOfOptions]

/-- Act on an argument, whatever it is. -/
def any : Handler :=
  inOrder (options ++ [single positional])

end Handler

end ScopedLabels.CommandLine
