import ScopedLabels.Proofs.Books
import ScopedLabels.Proofs.Reports

/-!
# Fallbacks — every fall back to global numbering is reported once

The books of a run say how many fall backs its log took in (`RunState.Books`). What a program writes
to standard error is read off that log: it is begun empty with standard error as its sink, and goes
on with it (`Log.Continues`), so no report is written anywhere else. When the runner is closed only
exits are booked. So in all that a program writes to standard error there are as many reports as
commands that fell back (`runInputs_fallbacks`).
-/

namespace ScopedLabels

open CommandLine Script

/-- A log that was begun anew for standard error has all its reports of falling back there. -/
theorem Log.Continues.count_diagnostics {old log : Log} (h : old.Continues log)
    (hempty : old.written = []) (hsink : old.sink = .standardError) :
    log.diagnostics.count (.record .fallback) = log.fallbackWarnings := by
  obtain ⟨later, hwritten, hlater⟩ := h.written
  rw [hempty, List.append_nil] at hwritten
  rw [Log.diagnostics, Log.records, List.count, List.countP_map, List.countP_map,
    List.countP_filter, List.countP_reverse, Log.fallbackWarnings]
  refine List.countP_congr fun entry hmem => ?_
  have hentry : entry.1 = .standardError := by
    rw [hwritten] at hmem
    rw [hlater entry hmem, hsink]
  simp [hentry]

/-- The commands that a script gets to. -/
def textAttempts (settings : Settings) (metrics : Metrics) (text : Text) : List Attempt :=
  match parse text with
  | .error _ => []
  | .ok commands =>
    Run.attempts commands { world := startWorld settings metrics, runner := scriptRunner }

/-- The commands that a script gets to, if it could be read. -/
def sourceAttempts (settings : Settings) (metrics : Metrics) :
    Except SourceFault Text → List Attempt
  | .ok text => textAttempts settings metrics text
  | .error _ => []

/-- The commands that the scripts get to that are run in order, up to the first that fails. -/
def inputAttempts (settings : Settings) (files : Files) :
    List Text → Stream → Metrics → List Attempt
  | [], _, _ => []
  | name :: rest, stream, metrics =>
    let contents := inputContents files stream name
    let first := runSource settings metrics name contents
    sourceAttempts settings metrics contents ++
      if first.failed then []
      else inputAttempts settings files rest (streamAfter stream name) first.metrics

/-- The state that a script starts in. -/
def startState (settings : Settings) (metrics : Metrics) : RunState :=
  { world := startWorld settings metrics, runner := scriptRunner }

/-- A script has booked what its commands did, and exits, and has its scopes on top of what it
    found. One that is malformed has done nothing. -/
theorem runText_books (settings : Settings) (metrics : Metrics) (text : Text) :
    let start := startState settings metrics
    let ran := scriptRunner.run text start.world
    ran.state.runner.Brackets ran.state.world (start.world.activeValues scriptEnvironment) ∧
      ∃ exits, RunState.Books ((textAttempts settings metrics text).flatMap Attempt.booked ++
        List.replicate exits .scopesExited) start ran.state := by
  intro start ran
  have hstart : start.runner.Brackets start.world (start.world.activeValues scriptEnvironment) :=
    .start rfl start.world
  rw [textAttempts]
  cases hparse : parse text with
  | error fault =>
      have hran : ran = ⟨some (.script fault), start⟩ := by
        show (Run.runText text).outcome start = _
        rw [Run.runText, hparse]
        rfl
      rw [hran]
      exact ⟨hstart, 0, .refl start⟩
  | ok commands =>
      have hran : ran = (Run.run commands).outcome start := by
        show (Run.runText text).outcome start = _
        rw [Run.runText, hparse]
      rw [hran]
      exact ⟨(Run.run_kept commands hstart).1.brackets, Run.run_books commands hstart⟩

/-- Closing a runner whose log was begun anew for standard error reports no fall back there: only
    exits are booked. -/
theorem close_fallbacks {s : RunState} {found : List Value}
    (hs : s.runner.Brackets s.world found) (hwarns : s.world.Warns s.runner.environment)
    (hempty : s.world.log.written = []) (hsink : s.world.log.sink = .standardError) :
    (s.runner.close s.world).state.world.log.diagnostics.count (.record .fallback) = 0 := by
  have hbooks := Run.close_books hs
  have hnone : s.world.log.fallbackWarnings = 0 := by
    rw [Log.fallbackWarnings, hempty, List.countP_nil]
  rw [hbooks.world.log.count_diagnostics hempty hsink, hbooks.world.warned hwarns, hnone,
    List.count_replicate]
  rfl

section Programs

variable {settings : Settings} (hwanted : settings.fallbackWarning = true)
  (hadmitted : Log.admits settings.logLevel .warning = true)
include hwanted hadmitted

/-- A script reports each time that one of its commands falls back. -/
theorem runText_fallbacks (metrics : Metrics) (name text : Text) :
    (runText settings metrics name text).diagnostics.count (.record .fallback) =
      (textAttempts settings metrics text).countP Attempt.fallsBack := by
  let start := startState settings metrics
  let ran := scriptRunner.run text start.world
  have hwarns : start.world.Warns start.runner.environment := by
    have hoptions : start.world.optionsOf scriptEnvironment = settings.labelOptions :=
      Std.ExtTreeMap.getD_insert_self
    exact ⟨(congrArg Options.warnOnGlobalFallback hoptions).trans hwanted, hadmitted⟩
  obtain ⟨hbrackets, exits, hran⟩ := runText_books settings metrics text
  have hran : RunState.Books _ start ran.state := hran
  have hreported : ran.state.world.log.diagnostics.count (.record .fallback) =
      (textAttempts settings metrics text).countP Attempt.fallsBack := by
    rw [hran.world.log.count_diagnostics rfl rfl, hran.world.warned hwarns,
      count_fallbacks_booked]
    exact Nat.zero_add _
  have hcomplaints : (ran.complaints name).count (.record .fallback) = 0 := by
    rw [Outcome.complaints]
    cases ran.error? <;> rfl
  -- what is logged while the runner is closed goes to a log that was begun anew
  have hclosed : ran.closed.log.diagnostics.count (.record .fallback) = 0 := by
    let drained : RunState :=
      { ran.state with world := { ran.state.world with log := ran.state.world.log.drained } }
    have hdrained : drained.runner.Brackets drained.world _ :=
      ⟨hbrackets.active, hbrackets.standing⟩
    have hwarns' : drained.world.Warns drained.runner.environment := by
      have hleft := hran.world.warns hwarns
      rw [← hran.environment] at hleft
      exact ⟨hleft.wanted, hleft.admitted⟩
    have hnone := close_fallbacks hdrained hwarns' rfl hran.world.log.sink
    rwa [Outcome.closed]
  show (ran.progress name).diagnostics.count (.record .fallback) = _
  rw [Outcome.progress, List.count_append, List.count_append, hreported, hcomplaints, hclosed]
  rfl

/-- On standard error there are as many reports of falling back as there were commands that fell
    back. -/
theorem runInputs_fallbacks (files : Files) (inputs : List Text) (stream : Stream)
    (metrics : Metrics) :
    (runInputs settings files inputs stream metrics).diagnostics.count (.record .fallback) =
      (inputAttempts settings files inputs stream metrics).countP Attempt.fallsBack := by
  induction inputs generalizing stream metrics with
  | nil => rfl
  | cons name rest ih =>
      let contents := inputContents files stream name
      have hfirst : (runSource settings metrics name contents).diagnostics.count
          (Diagnostic.record .fallback) =
          (sourceAttempts settings metrics contents).countP Attempt.fallsBack := by
        cases contents with
        | error fault => rfl
        | ok text => exact runText_fallbacks hwanted hadmitted metrics name text
      rw [runInputs, inputAttempts, List.countP_append]
      split
      · rw [hfirst, List.countP_nil, Nat.add_zero]
      · rw [Progress.andThen, List.count_append, hfirst, ih]

end Programs

end ScopedLabels
