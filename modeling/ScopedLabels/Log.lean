import ScopedLabels.Text

/-!
# Log — leveled diagnostics

A `Record` is a `Notice` with its severity, and a `Notice` is a cause that knows its wording. The
log keeps a threshold: a record below it is dropped when it is written, and so is every record of
severity `off`. What was written stays, newest first, together with the `Sink` it went to; nothing
in the library ever reads it back.
-/

namespace ScopedLabels

/-- Severities in ascending order. `off` as a threshold drops everything. -/
inductive Level
  | debug
  | info
  | warning
  | error
  | off
deriving DecidableEq

namespace Level

/-- The place of a severity in the ascending order. -/
def rank : Level → Nat
  | .debug => 0
  | .info => 1
  | .warning => 2
  | .error => 3
  | .off => 4

/-- How a severity is written. -/
def name : Level → Text
  | .debug => "debug"
  | .info => "info"
  | .warning => "warning"
  | .error => "error"
  | .off => "off"

/-- All severities, ascending. -/
def all : List Level :=
  [.debug, .info, .warning, .error, .off]

/-- The severity that is written as `text`. -/
def ofName? (text : Text) : Option Level :=
  all.find? fun level => level.name == text

/-- The name of the severity of a rank; every other number is unknown. -/
def nameOfRank (rank : Int) : Text :=
  match all.find? fun level => (level.rank : Int) == rank with
  | some level => level.name
  | none => "unknown"

end Level

/-- What a record reports. Scopes are given as displayed. -/
inductive Notice
  /-- A nameless label or scope is numbered globally. -/
  | globalFallback
  | entered (scope : Text)
  | exited (scope : Text)
  /-- A guard let go of its scope while no scope was active. -/
  | releasedInactive (scope : Text)
  /-- A guard let go of its scope while another value was the innermost. -/
  | releasedOutOfOrder (scope : Text)
  /-- A scope was destroyed while `removed` of its entries were active. -/
  | destroyedActive (scope : Text) (removed : Nat)
  /-- A script ended with scopes open. -/
  | leftOpen (count : Nat)
  /-- A lease ended while its key held nothing. -/
  | alreadyPopped (key : Text)
  /-- A message of the caller. -/
  | custom (message : Text)
deriving DecidableEq

/-- What is said in a record. -/
def Notice.message : Notice → Text
  | .globalFallback => "Label is not provided, and label scope is also missing. " ++
      "Global numbering will be used. " ++
      "Note that we always recommend specifying the label manually."
  | .entered scope => "enter " ++ scope
  | .exited scope => "exit " ++ scope
  | .releasedInactive scope => scope ++ " released, but no label scope is active"
  | .releasedOutOfOrder scope => scope ++
      " released out of order; label scope stack left unchanged"
  | .destroyedActive scope removed => scope ++ " destroyed while active; removed " ++
      Text.ofNat removed ++ " entry(ies) from the label scope stack"
  | .leftOpen count => Text.ofNat count ++
      " label scope(s) left open at end of script; closing"
  | .alreadyPopped key => "context with key " ++ key ++
      " was already popped before its scope ended"
  | .custom message => message

/-- A notice and its severity. -/
structure Record where
  level : Level
  notice : Notice
deriving DecidableEq

/-- The line that a record is written as. -/
def Record.text (record : Record) : Text :=
  "labelkit: " ++ record.level.name ++ ": " ++ record.notice.message ++ [Text.newline]

/-- Where written records go. -/
inductive Sink
  | standardError
  | capture
deriving DecidableEq

/-- The threshold, the sink, and what was written so far, newest first. -/
structure Log where
  threshold : Level := .warning
  sink : Sink := .standardError
  written : List (Sink × Record) := []
deriving DecidableEq

namespace Log

/-- Does a record of this severity pass the threshold? -/
def admits (threshold level : Level) : Bool :=
  level != .off && threshold.rank ≤ level.rank

/-- Write a record, unless the threshold drops it. -/
def write (log : Log) (level : Level) (notice : Notice) : Log :=
  if admits log.threshold level then
    { log with written := (log.sink, ⟨level, notice⟩) :: log.written }
  else log

/-- The records written to a sink, oldest first. -/
def records (log : Log) (sink : Sink) : List Record :=
  (log.written.reverse.filter fun entry => entry.1 == sink).map Prod.snd

/-- The text written to a sink. -/
def text (log : Log) (sink : Sink) : Text :=
  (log.records sink).flatMap Record.text

/-- The same log with nothing written yet. -/
def drained (log : Log) : Log :=
  { log with written := [] }

end Log

end ScopedLabels
