import ScopedLabels.Program

/-!
# Reports — what is printed and reported about a script

What a script comes to is read off its outcome (`runText_eq`): it printed what it printed, and what
it reported is the log of the run, a message if it was given up, and the log of closing what it left
open. A log holds records and no messages, so the messages of a script are those that say why it was
given up. Settings without a fault are what the program runs at, unless they ask for help
(`runProgram_of_parsed`).
-/

namespace ScopedLabels

open CommandLine

/-- Is it a message of the program itself, and not a record? -/
def Diagnostic.isMessage : Diagnostic → Bool
  | .record _ => false
  | _ => true

namespace Script.Outcome

variable (ran : Outcome)

/-- Why a script was given up, if it was. -/
def complaints (name : Text) : List Diagnostic :=
  (ran.error?.map fun error => .complaint (.failed name ran.state.runner.line error)).toList

/-- The world after the runner was closed, with what was logged meanwhile. -/
def closed : World :=
  (ran.state.runner.close { ran.state.world with log := ran.state.world.log.drained }).state.world

/-- What a script comes to. -/
def progress (name : Text) : Progress where
  printed := ran.state.output
  diagnostics :=
    ran.state.world.log.diagnostics ++ ran.complaints name ++ ran.closed.log.diagnostics
  metrics := ran.closed.metrics
  failed := ran.error?.isSome

end Script.Outcome

open Script

/-- The world that a script starts in. -/
def startWorld (settings : Settings) (metrics : Metrics) : World :=
  freshWorld settings.labelOptions { threshold := settings.logLevel } metrics

theorem runText_eq (settings : Settings) (metrics : Metrics) (name text : Text) :
    runText settings metrics name text =
      (scriptRunner.run text (startWorld settings metrics)).progress name :=
  rfl

/-! ## Messages -/

/-- What is logged is no message about a script. -/
theorem Log.messages (log : Log) : log.diagnostics.filter Diagnostic.isMessage = [] := by
  refine List.filter_eq_nil_iff.mpr fun d hmem => ?_
  obtain ⟨record, -, rfl⟩ := List.mem_map.mp hmem
  exact Bool.false_ne_true

theorem Script.Outcome.messages_complaints (ran : Outcome) (name : Text) :
    (ran.complaints name).filter Diagnostic.isMessage = ran.complaints name := by
  rw [complaints]
  cases ran.error? <;> rfl

/-- The messages about a script say why it was given up. -/
theorem Script.Outcome.messages_progress (ran : Outcome) (name : Text) :
    (ran.progress name).diagnostics.filter Diagnostic.isMessage = ran.complaints name := by
  rw [progress, List.filter_append, List.filter_append, Log.messages, Log.messages,
    messages_complaints, List.nil_append, List.append_nil]

/-- There is no message about a script that gets through. -/
theorem runSource_messages {settings : Settings} {metrics : Metrics} {name : Text}
    {contents : Except SourceFault Text}
    (h : (runSource settings metrics name contents).failed = false) :
    (runSource settings metrics name contents).diagnostics.filter Diagnostic.isMessage = [] := by
  cases contents with
  | error fault => cases h
  | ok text =>
      rw [runSource, runText_eq] at h ⊢
      rw [Script.Outcome.messages_progress, Script.Outcome.complaints]
      cases herror : (scriptRunner.run text (startWorld settings metrics)).error? with
      | none => rfl
      | some error =>
          rw [Script.Outcome.progress, herror] at h
          cases h

/-! ## Settings -/

section Settings

variable {vector : List (Option Text)} {settings : Settings}
  (hparsed : Parsed.ofVector vector = ⟨settings, none⟩)
include hparsed

theorem plan_of_parsed (hhelp : settings.showHelp = false) : plan vector = .ok settings := by
  rw [plan, hparsed]
  exact if_neg (hhelp ▸ Bool.false_ne_true)

theorem runProgram_of_parsed (hhelp : settings.showHelp = false) (files : Files)
    (stream : Stream) :
    runProgram vector files stream =
      (runInputs settings files settings.inputs stream (initialMetrics settings)).conclude
        settings := by
  rw [runProgram, plan_of_parsed hparsed hhelp]

/-- Asked for help, the program runs nothing. -/
theorem runProgram_help (hhelp : settings.showHelp = true) (files : Files) (stream : Stream) :
    runProgram vector files stream = { exit := 0, printed := usage vector.head?.join } := by
  rw [runProgram, plan, hparsed]
  simp only [if_pos hhelp]

end Settings

end ScopedLabels
