import ScopedLabels.CommandLine.Parse
import ScopedLabels.CommandLine.Usage
import ScopedLabels.Script.Trial
import ScopedLabels.Source

/-!
# The program — running scripts in order

Every script runs in a world of its own, so the labels it prints depend on nothing but its text
and the settings. Only the metrics and standard input go from one script to the next. The first
script that fails ends the run: those after it are not looked at, and no report is printed.

What goes to standard error is a sequence of `Diagnostic`s in the order in which they are written:
log records, and messages of the program. When a script fails, its message comes before the records
of closing what it left open.
-/

namespace ScopedLabels

open CommandLine Script

/-- Why a script was given up. -/
inductive Complaint
  /-- Its text could not be read. -/
  | unreadable (fault : SourceFault)
  /-- It failed at a line. -/
  | failed (script : Text) (line : Nat) (error : Error)
deriving DecidableEq

/-- The line that reports why a script was given up. The message of a faulty script names its line
already. -/
def Complaint.text (complaint : Complaint) : Text :=
  let message : Text :=
    match complaint with
    | .unreadable fault => fault.message
    | .failed script _ (.script fault) => script ++ ": " ++ (Error.script fault).shown
    | .failed script line error => script ++ ": line " ++ Text.ofNat line ++ ": " ++ error.shown
  "labelkit: " ++ message ++ [Text.newline]

/-- What is written to standard error. -/
inductive Diagnostic
  | record (record : Record)
  | complaint (complaint : Complaint)
  | fault (fault : CommandLine.Fault)
  | usage (name : Option Text)
deriving DecidableEq

/-- How a diagnostic is written. -/
def Diagnostic.text : Diagnostic → Text
  | .record r => r.text
  | .complaint c => c.text
  | .fault f => f.text
  | .usage name => CommandLine.usage name

/-! ## Running scripts -/

/-- What running some scripts printed and reported, and the metrics after it. -/
structure Progress where
  printed : Text := []
  diagnostics : List Diagnostic := []
  metrics : Metrics
  /-- Was a script given up? -/
  failed : Bool := false
deriving DecidableEq

/-- One run after another. -/
def Progress.andThen (first second : Progress) : Progress :=
  { printed := first.printed ++ second.printed
    diagnostics := first.diagnostics ++ second.diagnostics
    metrics := second.metrics
    failed := second.failed }

/-- What a log holds, as diagnostics. -/
def Log.diagnostics (log : Log) : List Diagnostic :=
  (log.records .standardError).map .record

/-- Run one script text, which goes by `name` in messages. -/
def runText (settings : Settings) (metrics : Metrics) (name text : Text) : Progress :=
  let log : Log := { threshold := settings.logLevel }
  let ran := scriptRunner.run text (freshWorld settings.labelOptions log metrics)
  let state := ran.state
  let closed := (state.runner.close { state.world with log := state.world.log.drained }).state.world
  { printed := state.output
    diagnostics :=
      state.world.log.diagnostics ++
      (ran.error?.map fun error => .complaint (.failed name state.runner.line error)).toList ++
      closed.log.diagnostics
    metrics := closed.metrics
    failed := ran.error?.isSome }

/-- Run one script, if it could be read. -/
def runSource (settings : Settings) (metrics : Metrics) (name : Text) :
    Except SourceFault Text → Progress
  | .ok text => runText settings metrics name text
  | .error fault =>
    { diagnostics := [.complaint (.unreadable fault)], metrics, failed := true }

/-- The argument that stands for standard input. -/
def standardInput : Text := "-"

/-- The contents of an input. -/
def inputContents (files : Files) (stream : Stream) (name : Text) : Except SourceFault Text :=
  if name = standardInput then stream.contents else files.contents name

/-- Standard input after an input was read. -/
def streamAfter (stream : Stream) (name : Text) : Stream :=
  if name = standardInput then stream.exhausted else stream

/-- Run scripts in order, up to the first that fails. -/
def runInputs (settings : Settings) (files : Files) :
    List Text → Stream → Metrics → Progress
  | [], _, metrics => { metrics }
  | name :: rest, stream, metrics =>
    let first := runSource settings metrics name (inputContents files stream name)
    if first.failed then first
    else first.andThen (runInputs settings files rest (streamAfter stream name) first.metrics)

/-! ## The whole program -/

/-- What the program does: the text on standard output, in two parts, the diagnostics on standard
error, and the exit status. -/
structure Conclusion where
  exit : UInt8
  /-- What the scripts printed, or the usage text. -/
  printed : Text := []
  /-- The metrics report after it. -/
  report : Text := []
  diagnostics : List Diagnostic := []
deriving DecidableEq

namespace Conclusion

/-- All of standard output. -/
def stdout (conclusion : Conclusion) : Text :=
  conclusion.printed ++ conclusion.report

/-- All of standard error. -/
def stderr (conclusion : Conclusion) : Text :=
  conclusion.diagnostics.flatMap Diagnostic.text

end Conclusion

/-- The metrics report, if the settings ask for one. -/
def metricsReport (settings : Settings) (metrics : Metrics) : Text :=
  if settings.metrics then
    match settings.format with
    | .text => metrics.textReport
    | .json => metrics.jsonReport
  else []

/-- The exit status of a failed run. -/
def failureStatus : UInt8 := 2

/-- The conclusion of a run of all scripts. -/
def Progress.conclude (settings : Settings) (progress : Progress) : Conclusion :=
  { exit := if progress.failed then failureStatus else 0
    printed := progress.printed
    report := if progress.failed then [] else metricsReport settings progress.metrics
    diagnostics := progress.diagnostics }

/-- The metrics that the first script starts with. -/
def initialMetrics (settings : Settings) : Metrics :=
  { enabled := settings.metrics }

/-- Read the argument vector. Either there is nothing to run, and the program is done, or there are
settings to run scripts with. -/
def plan (vector : List (Option Text)) : Except Conclusion Settings :=
  let name := vector.head?.join
  let parsed := Parsed.ofVector vector
  match parsed.fault? with
  | some fault =>
    .error { exit := failureStatus, diagnostics := [.fault fault, .usage name] }
  | none =>
    if parsed.settings.showHelp then .error { exit := 0, printed := CommandLine.usage name }
    else .ok parsed.settings

/-- Run the program on an argument vector, files and standard input. -/
def runProgram (vector : List (Option Text)) (files : Files) (stream : Stream) : Conclusion :=
  match plan vector with
  | .error conclusion => conclusion
  | .ok settings =>
    (runInputs settings files settings.inputs stream (initialMetrics settings)).conclude settings

end ScopedLabels
