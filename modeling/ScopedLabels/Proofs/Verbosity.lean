import ScopedLabels.Proofs.Fallbacks
import ScopedLabels.Proofs.Periphery

/-!
# Verbosity — what the log is told changes nothing else

The threshold of the log and the switch for the warning about global numbering decide which records
are written, and nothing reads a record back. So a run at any verbosity is the loud run, in which
everything is written, with some records left out of its log: `Verbosity.Mutes` relates what stands
beside the labels in the one to what stands there in the other, whatever is counted meanwhile. Two
runs at different verbosities are compared through the loud one.
-/

namespace ScopedLabels

open CommandLine Script

/-- How much is written to the log. -/
structure Verbosity where
  threshold : Level
  /-- Is it reported that numbering falls back? -/
  warned : Bool

namespace Verbosity

/-- Is a record written? -/
def shows (V : Verbosity) (record : Record) : Bool :=
  Log.admits V.threshold record.level && (V.warned || record != .fallback)

/-- Only the reports of falling back depend on whether they are wanted. -/
theorem shows_of_ne (V : Verbosity) {level : Level} {notice : Notice}
    (hnotice : notice ≠ .globalFallback) :
    V.shows ⟨level, notice⟩ = Log.admits V.threshold level := by
  have hne : (⟨level, notice⟩ : Record) ≠ .fallback := fun h => hnotice (congrArg Record.notice h)
  simp [shows, hne]

/-- A fallback is shown if warnings are admitted and the switch is on. -/
theorem shows_fallback (V : Verbosity) :
    V.shows .fallback = (Log.admits V.threshold .warning && V.warned) := by
  simp [shows, Record.fallback]

/-! ## A loud log and a muted one -/

/-- The first log writes everything, the second only what is shown. -/
structure MutesLog (V : Verbosity) (l m : Log) : Prop where
  loud : l.threshold = .debug
  threshold : m.threshold = V.threshold
  sink : m.sink = l.sink
  written : m.written = l.written.filter fun entry => V.shows entry.2

namespace MutesLog

variable {V : Verbosity} {l m : Log}

/-- A record is written to the first log, and to the second if it is shown. -/
theorem add (h : V.MutesLog l m) {level : Level} {notice : Notice} {m' : Log}
    (hlevel : level ≠ .off)
    (hshown : V.shows ⟨level, notice⟩ = true →
      m' = { m with written := (m.sink, ⟨level, notice⟩) :: m.written })
    (hhidden : V.shows ⟨level, notice⟩ = false → m' = m) :
    V.MutesLog (l.write level notice) m' := by
  -- at the lowest threshold only a record of no level at all would be dropped
  have hadmits : Log.admits l.threshold level = true := by
    rw [h.loud]
    cases level with
    | off => exact absurd rfl hlevel
    | _ => rfl
  rw [Log.write, if_pos hadmits]
  cases hshows : V.shows ⟨level, notice⟩ with
  | true =>
      rw [hshown hshows]
      refine ⟨h.loud, h.threshold, h.sink, ?_⟩
      simp only [List.filter_cons, hshows, if_true, h.written, h.sink]
  | false =>
      rw [hhidden hshows]
      refine ⟨h.loud, h.threshold, h.sink, ?_⟩
      simp [hshows, h.written]

/-- A record other than of a fallback goes by the threshold alone. -/
theorem write (h : V.MutesLog l m) (level : Level) {notice : Notice}
    (hnotice : notice ≠ .globalFallback) :
    V.MutesLog (l.write level notice) (m.write level notice) := by
  by_cases hlevel : level = .off
  · subst hlevel
    exact h
  · have hshows : V.shows ⟨level, notice⟩ = Log.admits m.threshold level := by
      rw [V.shows_of_ne hnotice, h.threshold]
    refine h.add hlevel (fun hshown => ?_) fun hhidden => ?_
    · rw [hshows] at hshown
      exact if_pos hshown
    · rw [hshows] at hhidden
      exact if_neg (by simp [hhidden])

/-- The second side may not want it reported that numbering falls back. -/
theorem fallBack (h : V.MutesLog l m) :
    V.MutesLog (l.write .warning .globalFallback)
      (if V.warned then m.write .warning .globalFallback else m) := by
  have hshows : V.shows ⟨.warning, .globalFallback⟩ =
      (Log.admits m.threshold .warning && V.warned) := by
    rw [h.threshold]
    exact V.shows_fallback
  refine h.add nofun (fun hshown => ?_) fun hhidden => ?_
  · rw [hshows, Bool.and_eq_true] at hshown
    rw [if_pos hshown.2, Log.write, if_pos hshown.1]
  · rw [hshows] at hhidden
    cases hwarned : V.warned with
    | false => rfl
    | true =>
        rw [hwarned, Bool.and_true] at hhidden
        rw [if_pos rfl, Log.write, hhidden]
        rfl

theorem drained (h : V.MutesLog l m) : V.MutesLog l.drained m.drained where
  loud := h.loud
  threshold := h.threshold
  sink := h.sink
  written := rfl

end MutesLog

/-- The second side writes less to its log, and may count other events. The first is loud. -/
structure Mutes (V : Verbosity) (p q : Periphery) : Prop where
  loud : p.options.warnOnGlobalFallback = true
  options : q.options = { p.options with warnOnGlobalFallback := V.warned }
  log : V.MutesLog p.log q.log

namespace Mutes

variable {V : Verbosity}

/-- Whatever a script does to its periphery, the quieter side writes what it shows of the other. -/
theorem kept (V : Verbosity) : Periphery.Kept V.Mutes where
  report h hnotice := { h with log := h.log.write _ hnotice }
  count _ h := { h with }
  fallBack {p q} h := by
    have hlog := h.log.fallBack
    rw [Periphery.fallBack, Periphery.fallBack, if_pos h.loud, h.options]
    split at hlog
    · next hwarned =>
        rw [if_pos hwarned]
        exact { h with log := hlog }
    · next hquiet =>
        rw [if_neg hquiet]
        exact { h with log := hlog }
  drained h := { h with log := h.log.drained }

/-- Names are checked without a look at what is reported. -/
theorem accepts (V : Verbosity) (name : Option Text) : Periphery.Accepts V.Mutes name := by
  intro p q h n _
  rw [h.options]
  rfl

end Mutes

/-! ## Programs -/

/-- Is a diagnostic written? Only records are ever left out. -/
def keeps (V : Verbosity) : Diagnostic → Bool
  | .record record => V.shows record
  | _ => true

/-- What a muted log tells is what the other tells, filtered. -/
theorem MutesLog.diagnostics {V : Verbosity} {l m : Log} (h : V.MutesLog l m) :
    m.diagnostics = l.diagnostics.filter V.keeps := by
  have hkeeps : V.keeps ∘ Diagnostic.record = V.shows := rfl
  rw [Log.diagnostics, Log.diagnostics, List.filter_map, hkeeps, Log.records, Log.records,
    h.written, List.filter_map, List.filter_filter, ← List.filter_reverse, List.filter_filter]
  simp only [Function.comp_def, Bool.and_comm]

/-- The message about a script is written in any case. -/
theorem filter_complaints (V : Verbosity) (ran : Outcome) (name : Text) :
    (ran.complaints name).filter V.keeps = ran.complaints name := by
  rw [Outcome.complaints]
  cases ran.error? <;> rfl

/-- What some scripts came to, and the same with less logged. -/
structure MutesProgress (V : Verbosity) (p q : Progress) : Prop where
  printed : q.printed = p.printed
  failed : q.failed = p.failed
  diagnostics : q.diagnostics = p.diagnostics.filter V.keeps

theorem MutesProgress.andThen {V : Verbosity} {p q p' q' : Progress} (h : V.MutesProgress p q)
    (h' : V.MutesProgress p' q') : V.MutesProgress (p.andThen p') (q.andThen q') where
  printed := by rw [Progress.andThen, Progress.andThen, h.printed, h'.printed]
  failed := h'.failed
  diagnostics := by
    rw [Progress.andThen, Progress.andThen, List.filter_append, h.diagnostics, h'.diagnostics]

end Verbosity

namespace CommandLine.Settings

/-- How much is logged. -/
def verbosity (settings : Settings) : Verbosity :=
  ⟨settings.logLevel, settings.fallbackWarning⟩

/-- Settings at which everything is logged. -/
def loudest (strictNames : Bool) : Settings :=
  { strictNames, logLevel := .debug }

end CommandLine.Settings

section Programs

variable (settings : Settings)

/-- What a script does is what it does at the highest verbosity, with less logged. -/
theorem runText_mutes (metrics metrics' : Metrics) (name text : Text) :
    settings.verbosity.MutesProgress (runText (.loudest settings.strictNames) metrics name text)
      (runText settings metrics' name text) := by
  let ran := scriptRunner.run text (startWorld (.loudest settings.strictNames) metrics)
  let ran' := scriptRunner.run text (startWorld settings metrics')
  have hkept := Verbosity.Mutes.kept settings.verbosity
  have hstart : settings.verbosity.Mutes (.start (.loudest settings.strictNames) metrics)
      (.start settings metrics') := ⟨rfl, rfl, ⟨rfl, rfl, rfl, rfl⟩⟩
  have hran : ran.Beside settings.verbosity.Mutes ran' :=
    run_beside hstart hkept (Verbosity.Mutes.accepts _) text
  have hlog : ran'.state.world.log.diagnostics =
      ran.state.world.log.diagnostics.filter settings.verbosity.keeps :=
    hran.state.worlds.periphery.log.diagnostics
  have hrest : ran'.closed.log.diagnostics =
      ran.closed.log.diagnostics.filter settings.verbosity.keeps :=
    (hran.closed hkept).periphery.log.diagnostics
  show settings.verbosity.MutesProgress (ran.progress name) (ran'.progress name)
  refine ⟨hran.printed name, hran.failed name, ?_⟩
  rw [Outcome.progress, Outcome.progress, List.filter_append, List.filter_append,
    Verbosity.filter_complaints, hlog, hran.complaints, hrest]

/-- Printing and failing do not depend on verbosity, so both programs run the same inputs. -/
theorem runInputs_mutes (files : Files) (inputs : List Text) (stream : Stream)
    (metrics metrics' : Metrics) :
    settings.verbosity.MutesProgress
      (runInputs (.loudest settings.strictNames) files inputs stream metrics)
      (runInputs settings files inputs stream metrics') := by
  induction inputs generalizing stream metrics metrics' with
  | nil => exact ⟨rfl, rfl, rfl⟩
  | cons name rest ih =>
      have hfirst : settings.verbosity.MutesProgress
          (runSource (.loudest settings.strictNames) metrics name
            (inputContents files stream name))
          (runSource settings metrics' name (inputContents files stream name)) := by
        cases inputContents files stream name with
        | error fault => exact ⟨rfl, rfl, rfl⟩
        | ok text => exact runText_mutes settings metrics metrics' name text
      rw [runInputs, runInputs]
      simp only [hfirst.failed]
      split
      · exact hfirst
      · exact hfirst.andThen (ih _ _ _)

end Programs

/-! ## The whole program -/

namespace Diagnostic

/-- Does a diagnostic pass a threshold? Only records are measured. -/
def passes (threshold : Level) : Diagnostic → Bool
  | .record r => Log.admits threshold r.level
  | _ => true

end Diagnostic

namespace Verbosity

/-- What a threshold keeps is what the lowest threshold keeps and the threshold lets pass. -/
theorem keeps_eq_passes (threshold : Level) (warned : Bool) (d : Diagnostic) :
    keeps ⟨threshold, warned⟩ d = (d.passes threshold && keeps ⟨.debug, warned⟩ d) := by
  cases d with
  | record r =>
      show (Log.admits threshold r.level && _) =
        (Log.admits threshold r.level && (Log.admits .debug r.level && _))
      cases hadmits : Log.admits threshold r.level with
      | false => rfl
      | true =>
          have hlowest : Log.admits .debug r.level = true := by
            cases hlevel : r.level with
            | off =>
                rw [hlevel] at hadmits
                cases hadmits
            | _ => rfl
          rw [hlowest]
          rfl
  | _ => rfl

/-- What is kept while falling back is not reported is what is kept otherwise and does not report
    that. -/
theorem keeps_eq_wanted (threshold : Level) (d : Diagnostic) :
    keeps ⟨threshold, false⟩ d = (d != .record .fallback && keeps ⟨threshold, true⟩ d) := by
  cases d with
  | record r =>
      have hsame : (Diagnostic.record r != .record .fallback) = (r != .fallback) := by
        rw [Bool.eq_iff_iff]
        simp
      show (Log.admits threshold r.level && (false || r != .fallback)) =
        (_ && (Log.admits threshold r.level && true))
      rw [hsame, Bool.false_or, Bool.and_true, Bool.and_comm]
  | _ => rfl

end Verbosity

/-- The commands that the program gets to. -/
def programAttempts (vector : List (Option Text)) (files : Files) (stream : Stream) :
    List Attempt :=
  match plan vector with
  | .error _ => []
  | .ok settings =>
    inputAttempts settings files settings.inputs stream (initialMetrics settings)

/-- What decides about log, warnings and metrics changes nothing else: exit status, output and
    messages stay, and the log is the one at the lowest threshold without the records below the
    threshold, and without the reports of falling back if these are switched off. Of these there is
    one for each command that falls back. -/
theorem runProgram_verbosity {first second : List (Option Text)} {settings : Settings}
    {level : Level} {metrics : Bool} {format : Format} {warned : Bool}
    (hfirst : Parsed.ofVector first = ⟨settings, none⟩)
    (hsecond : Parsed.ofVector second =
      ⟨{ settings with logLevel := level, metrics, format, fallbackWarning := warned }, none⟩)
    (hname : second.head?.join = first.head?.join) (files : Files) (stream : Stream) :
    let p := runProgram first files stream
    let q := runProgram second files stream
    (q.exit = p.exit ∧ q.printed = p.printed ∧
      q.diagnostics.filter Diagnostic.isMessage = p.diagnostics.filter Diagnostic.isMessage) ∧
    (level = .debug → warned = settings.fallbackWarning →
      p.diagnostics = q.diagnostics.filter (Diagnostic.passes settings.logLevel)) ∧
    (level = settings.logLevel → warned = true → settings.fallbackWarning = false →
      p.diagnostics = q.diagnostics.filter (· != .record .fallback)) ∧
    (warned = true → Log.admits level .warning = true →
      q.diagnostics.count (.record .fallback) =
        (programAttempts second files stream).countP Attempt.fallsBack) := by
  intro p q
  let settings' : Settings :=
    { settings with logLevel := level, metrics, format, fallbackWarning := warned }
  cases hhelp : settings.showHelp with
  | true =>
      have hp : p = { exit := 0, printed := usage first.head?.join } :=
        runProgram_help hfirst hhelp files stream
      have hq : q = { exit := 0, printed := usage second.head?.join } :=
        runProgram_help hsecond hhelp files stream
      have hnone : programAttempts second files stream = [] := by
        simp [programAttempts, plan, hsecond, hhelp]
      rw [hp, hq, hnone, hname]
      exact ⟨⟨rfl, rfl, rfl⟩, fun _ _ => rfl, fun _ _ _ => rfl, fun _ _ => rfl⟩
  | false =>
      have hp : p = (runInputs settings files settings.inputs stream
          (initialMetrics settings)).conclude settings :=
        runProgram_of_parsed hfirst hhelp files stream
      have hq : q = (runInputs settings' files settings.inputs stream
          (initialMetrics settings')).conclude settings' :=
        runProgram_of_parsed hsecond hhelp files stream
      have hattempts : programAttempts second files stream =
          inputAttempts settings' files settings.inputs stream (initialMetrics settings') := by
        rw [programAttempts, plan_of_parsed hsecond hhelp]
      -- both are compared with the loudest run
      let loud := runInputs (.loudest settings.strictNames) files settings.inputs stream {}
      have hmutes : settings.verbosity.MutesProgress loud _ :=
        runInputs_mutes settings files settings.inputs stream {} (initialMetrics settings)
      have hmutes' : settings'.verbosity.MutesProgress loud _ :=
        runInputs_mutes settings' files settings.inputs stream {} (initialMetrics settings')
      have hlog : p.diagnostics = loud.diagnostics.filter settings.verbosity.keeps := by
        rw [hp]
        exact hmutes.diagnostics
      have hlog' : q.diagnostics = loud.diagnostics.filter settings'.verbosity.keeps := by
        rw [hq]
        exact hmutes'.diagnostics
      refine ⟨⟨?exit, ?printed, ?messages⟩, ?threshold, ?warning, ?counted⟩
      case exit =>
        rw [hp, hq, Progress.conclude, Progress.conclude, hmutes.failed, hmutes'.failed]
      case printed =>
        rw [hp, hq, Progress.conclude, Progress.conclude, hmutes.printed, hmutes'.printed]
      case messages =>
        rw [hlog, hlog', List.filter_filter, List.filter_filter]
        refine List.filter_congr fun d _ => ?_
        cases d <;> rfl
      case threshold =>
        rintro rfl rfl
        rw [hlog, hlog', List.filter_filter]
        refine List.filter_congr fun d _ => ?_
        exact Verbosity.keeps_eq_passes settings.logLevel settings.fallbackWarning d
      case warning =>
        rintro rfl rfl hquiet
        rw [hlog, hlog', List.filter_filter, CommandLine.Settings.verbosity, hquiet]
        refine List.filter_congr fun d _ => ?_
        exact Verbosity.keeps_eq_wanted settings.logLevel d
      case counted =>
        intro hwarned hadmitted
        rw [hq, hattempts]
        have hwanted : settings'.fallbackWarning = true := hwarned
        exact runInputs_fallbacks hwanted hadmitted files _ stream _

/-- A script that falls back twice, prints a label below its scope, and fails. -/
def failingFile : Files := fun path =>
  if path = "a" then some "label\nscope\nlabel\nend\nend" else none

/-- The script, at a verbosity that is asked for by two options. -/
def verboseVector (first second : Text) : List (Option Text) :=
  [some "labelkit", some first, some second, some "a"]

/-- At the lowest threshold the script logs eight records, two of which report a fall back, and one
    message. A run that logs errors only, and one that does not report falling back, print the
    same. -/
theorem runProgram_verbosity_failing :
    let run (first second : Text) := runProgram (verboseVector first second) failingFile .failed
    let loud := run "--metrics=json" "--log-level=debug"
    let quiet := run "--log-level=error" "--metrics"
    let unwarned := run "--no-fallback-warning" "--log-level=debug"
    loud.exit = failureStatus ∧ loud.printed = Text.unlines ["global/1", "global/2/1"] ∧
      loud.diagnostics.length = 9 ∧ loud.diagnostics.count (.record .fallback) = 2 ∧
      loud.printed = quiet.printed ∧
      quiet.diagnostics = loud.diagnostics.filter (Diagnostic.passes .error) ∧
      loud.printed = unwarned.printed ∧
      unwarned.diagnostics = loud.diagnostics.filter (· != .record .fallback) := by
  intro run loud quiet unwarned
  have hloud : Parsed.ofVector (verboseVector "--metrics=json" "--log-level=debug") =
      ⟨{ inputs := ["a"], logLevel := .debug, metrics := true, format := .json }, none⟩ := by
    decide +kernel
  have hquiet : Parsed.ofVector (verboseVector "--log-level=error" "--metrics") =
      ⟨{ inputs := ["a"], logLevel := .error, metrics := true }, none⟩ := by
    decide +kernel
  have hunwarned : Parsed.ofVector (verboseVector "--no-fallback-warning" "--log-level=debug") =
      ⟨{ inputs := ["a"], logLevel := .debug, fallbackWarning := false }, none⟩ := by
    decide +kernel
  obtain ⟨⟨-, hprinted, -⟩, hthreshold, -, hcounted⟩ :=
    runProgram_verbosity hquiet hloud rfl failingFile .failed
  obtain ⟨⟨-, hprinted', -⟩, -, hwarning, -⟩ :=
    runProgram_verbosity hunwarned hloud rfl failingFile .failed
  refine ⟨by decide +kernel, by decide +kernel, by decide +kernel, ?_, hprinted,
    hthreshold rfl rfl, hprinted', hwarning rfl rfl rfl⟩
  exact (hcounted rfl rfl).trans (by decide +kernel)

end ScopedLabels
