import ScopedLabels.Proofs.Composition
import ScopedLabels.Proofs.Periphery
import ScopedLabels.Proofs.Resumption

/-!
# Strictness — strict naming stops a script earlier, and does nothing else

Strict naming refuses the underscore in a name, and only the names that commands bring to scopes and
labels are checked. As long as no such name holds an underscore, a strict run and a lax one are the
same but for the option (`Periphery.Stricter`). The first command that brings one, with a name that
is right otherwise, is where the strict run stops, and the lax run goes on printing from there.
-/

namespace ScopedLabels

open CommandLine Script

/-! ## Names that only strict naming refuses -/

/-- The name holds an underscore, and nothing else is wrong with it. -/
def Text.Underscored (name : Text) : Prop :=
  underscore ∈ name ∧ slash ∉ name

/-- A name with an underscore is refused by strict naming, for the underscore. -/
theorem requireName_strict {name : Text} (hname : name.Underscored) {options : Options}
    (hstrict : options.forbidUnderscore = true) :
    requireName options name = .error (.invalidName (.underscore name)) := by
  have hne : name ≠ [] := List.ne_nil_of_mem hname.1
  have hfault : nameFault? options name = some (.underscore name) := by
    rw [nameFault?, if_neg hne, if_neg hname.2, if_pos ⟨hstrict, hname.1⟩]
  rw [requireName, hfault]

/-- All other names are checked alike. -/
theorem requireName_lax {name : Text} (hname : ¬ name.Underscored) {options : Options}
    (hlax : options.forbidUnderscore = false) :
    requireName { options with forbidUnderscore := true } name = requireName options name := by
  have hfault : nameFault? { options with forbidUnderscore := true } name =
      nameFault? options name := by
    rw [nameFault?, nameFault?]
    split
    · rfl
    · split
      · rfl
      · next hslash =>
          rw [if_neg fun h => hname ⟨h.2, hslash⟩, if_neg]
          rw [hlax]
          intro h
          exact Bool.false_ne_true h.1
  rw [requireName, requireName, hfault]

/-! ## A lax periphery and a strict one -/

/-- The second side names strictly, and nothing else is different. -/
structure Periphery.Stricter (p q : Periphery) : Prop where
  lax : p.options.forbidUnderscore = false
  options : q.options = { p.options with forbidUnderscore := true }
  log : q.log = p.log
  metrics : q.metrics = p.metrics

namespace Periphery.Stricter

/-- What scripts do to their periphery keeps both as strict and as lax as they are. -/
theorem kept : Kept Stricter where
  report h _ := { h with log := congrArg (fun log : Log => log.write _ _) h.log }
  count metric h := { h with metrics := congrArg (·.count metric) h.metrics }
  fallBack {p q} h := by
    have hwarn : q.options.warnOnGlobalFallback = p.options.warnOnGlobalFallback := by
      rw [h.options]
    have hmetrics := congrArg (·.count .globalFallbacks) h.metrics
    rw [fallBack, fallBack, hwarn]
    split
    · exact { h with log := congrArg (fun log : Log => log.write _ _) h.log, metrics := hmetrics }
    · exact { h with metrics := hmetrics }
  drained h := { h with log := congrArg Log.drained h.log }

theorem accepts {name : Option Text} (hname : ∀ n ∈ name, ¬ n.Underscored) :
    Accepts Stricter name := by
  intro p q h n hn
  rw [h.options]
  exact requireName_lax (hname n hn) h.lax

theorem strict {p q : Periphery} (h : Stricter p q) : q.options.forbidUnderscore = true := by
  rw [h.options]

end Periphery.Stricter

/-! ## Runs -/

namespace Script

/-- Only scopes and labels are given names. -/
theorem Command.name?_eq_some {command : Command} {name : Text} (h : command.name? = some name) :
    command.verb = .scope (some name) ∨ command.verb = .label (some name) := by
  rw [name?] at h
  split at h
  · next hverb =>
      subst h
      exact .inl hverb
  · next hverb =>
      subst h
      exact .inr hverb
  · cases h

namespace Run

/-- Printing goes on after what was printed. -/
theorem printed_suffix (commands : List Command) (s : RunState) :
    s.printed <:+ ((run commands).outcome s).state.printed := by
  have hresumes : Resumes s.printed s { s with printed := [] } := ⟨rfl, ⟨s.runner.line, rfl⟩, rfl⟩
  exact ⟨_, (hresumes.outcome commands).2.printed.symm⟩

/-- Under strict naming, a command with an underscored name fails before it does anything. -/
theorem execute_strict {command : Command} {name : Text} (hcommand : command.name? = some name)
    (hname : name.Underscored) {s : RunState}
    (hstrict : (s.world.optionsOf s.runner.environment).forbidUnderscore = true) :
    execute command s = .error (.invalidName (.underscore name)) s := by
  have hrefused : (Origin.ofName? s.runner.environment (some name)).scope s.world =
      .error (.invalidName (.underscore name)) := by
    show Scope.named _ _ _ = _
    rw [Scope.named, requireName_strict hname hstrict]
    rfl
  rcases Command.name?_eq_some hcommand with hverb | hverb
  · rw [execute_scope hverb]
    simp only [openScope, bind_apply, get_apply, act, ScopeId.create_apply, hrefused]
  · rw [execute_label hverb]
    simp only [Environment.momentaryLabel, bind_apply, act, ScopeId.create_apply, hrefused]

/-- Two runs, lax and strict, end alike, or the strict one stops at a command with an underscored
    name, and has printed no more than the other by then. -/
theorem run_strict {environment : Environment} (commands : List Command) {s t : RunState}
    (h : RunState.Beside environment Periphery.Stricter s t) :
    (((run commands).outcome t).error? = ((run commands).outcome s).error? ∧
      RunState.Beside environment Periphery.Stricter ((run commands).outcome s).state
        ((run commands).outcome t).state) ∨
    ∃ command ∈ commands, ∃ name, command.name? = some name ∧ name.Underscored ∧
      ((run commands).outcome t).error? = some (.invalidName (.underscore name)) ∧
      ((run commands).outcome t).state.runner.line = command.line ∧
      ((run commands).outcome t).state.printed <:+ ((run commands).outcome s).state.printed := by
  have hS := RunState.Beside.coupled Periphery.Stricter.kept environment
  induction commands generalizing s t with
  | nil => exact .inl (outcome_of_twinned hS.finish_twinned h)
  | cons command rest ih =>
      by_cases hname : ∃ name, command.name? = some name ∧ name.Underscored
      · -- the strict run ends here, and the lax one only adds to what was printed
        obtain ⟨name, hcommand, hname⟩ := hname
        have hstrict : (t.world.optionsOf t.runner.environment).forbidUnderscore = true := by
          rw [h.runner, h.environment]
          exact h.worlds.periphery.strict
        have hfailed : execute command (t.goTo command.line) = .error _ (t.goTo command.line) :=
          execute_strict hcommand hname hstrict
        have hattempt : (attempt command t).outcome =
            ⟨some (.invalidName (.underscore name)), t.goTo command.line⟩ := by
          rw [attempt, outcome, hfailed]
        refine .inr ⟨command, List.mem_cons_self, name, hcommand, hname, ?_⟩
        rw [outcome_cons command rest t, hattempt]
        refine ⟨rfl, rfl, ?_⟩
        show t.printed <:+ _
        rw [h.printed]
        exact printed_suffix (command :: rest) s
      · -- the command ends alike in both runs, which go on from related states
        have haccepts : Periphery.Accepts Periphery.Stricter command.name? :=
          Periphery.Stricter.accepts fun name hmem hbad => hname ⟨name, hmem, hbad⟩
        have hattempt := outcome_of_twinned
          (hS.execute_twinned (RunState.Beside.command_alike Periphery.Stricter.kept haccepts))
          (hS.goTo command.line h)
        change (attempt command t).outcome.error? = (attempt command s).outcome.error? ∧
          RunState.Beside _ _ (attempt command s).outcome.state
            (attempt command t).outcome.state at hattempt
        rw [outcome_cons, outcome_cons]
        generalize (attempt command s).outcome = ended at hattempt ⊢
        generalize (attempt command t).outcome = ended' at hattempt ⊢
        obtain ⟨error?, s'⟩ := ended
        obtain ⟨error?', t'⟩ := ended'
        obtain ⟨herror, hstates⟩ := hattempt
        cases herror
        cases error? with
        | some e => exact .inl ⟨rfl, hstates⟩
        | none =>
            rcases ih hstates with hends | ⟨other, hmem, hother⟩
            · exact .inl hends
            · exact .inr ⟨other, List.mem_cons_of_mem _ hmem, hother⟩

/-- The text is read before anything is named, so a fault is the same. -/
theorem runText_strict {environment : Environment} (text : Text) {s t : RunState}
    (h : RunState.Beside environment Periphery.Stricter s t) :
    (((runText text).outcome t).error? = ((runText text).outcome s).error? ∧
      RunState.Beside environment Periphery.Stricter ((runText text).outcome s).state
        ((runText text).outcome t).state) ∨
    ∃ commands command name, parse text = .ok commands ∧ command ∈ commands ∧
      command.name? = some name ∧ name.Underscored ∧
      ((runText text).outcome t).error? = some (.invalidName (.underscore name)) ∧
      ((runText text).outcome t).state.runner.line = command.line ∧
      ((runText text).outcome t).state.printed <:+ ((runText text).outcome s).state.printed := by
  rw [runText]
  cases parse text with
  | error fault => exact .inl ⟨rfl, h⟩
  | ok commands =>
      rcases run_strict commands h with hends | ⟨command, hmem, name, hcommand, hname, hstops⟩
      · exact .inl hends
      · exact .inr ⟨commands, command, name, rfl, hmem, hcommand, hname, hstops⟩

end Run

end Script

/-! ## Programs -/

/-- A script stopped at a command with an underscored name. Nothing else was complained about. -/
structure Progress.StopsAt (progress : Progress) (script text : Text) : Prop where
  failed : progress.failed = true
  message : ∃ commands command name, parse text = .ok commands ∧ command ∈ commands ∧
    command.name? = some name ∧ name.Underscored ∧
    progress.diagnostics.filter Diagnostic.isMessage =
      [.complaint (.failed script command.line (.invalidName (.underscore name)))]

/-- What is run before it gets through without a message. -/
theorem Progress.StopsAt.andThen {first progress : Progress} {script text : Text}
    (h : progress.StopsAt script text)
    (hquiet : first.diagnostics.filter Diagnostic.isMessage = []) :
    (first.andThen progress).StopsAt script text := by
  obtain ⟨commands, command, name, hparse, hmem, hcommand, hname, hmessages⟩ := h.message
  refine ⟨h.failed, commands, command, name, hparse, hmem, hcommand, hname, ?_⟩
  rw [Progress.andThen, List.filter_append, hquiet, hmessages, List.nil_append]

section Programs

variable {settings : Settings} (hlax : settings.strictNames = false)
include hlax

/-- Run strictly, a script does the same, or it stops at an underscored name. -/
theorem runText_strict (metrics : Metrics) (name text : Text) :
    let p := runText settings metrics name text
    let q := runText { settings with strictNames := true } metrics name text
    q = p ∨ q.printed <+: p.printed ∧ q.StopsAt name text := by
  let strict : Settings := { settings with strictNames := true }
  let ran := scriptRunner.run text (startWorld settings metrics)
  let ran' := scriptRunner.run text (startWorld strict metrics)
  have hstart : RunState.Beside scriptEnvironment Periphery.Stricter
      { world := startWorld settings metrics, runner := scriptRunner }
      { world := startWorld strict metrics, runner := scriptRunner } :=
    startWorld_beside ⟨hlax, rfl, rfl, rfl⟩
  show ran'.progress name = ran.progress name ∨
    (ran'.progress name).printed <+: (ran.progress name).printed ∧
      (ran'.progress name).StopsAt name text
  -- the runs stay beside one another to the end, or the strict one stops at a name
  rcases Run.runText_strict text hstart with
    ⟨herror, hstate⟩ | ⟨commands, command, bad, hparse, hmem, hcommand, hbad, hstopped⟩
  · refine .inl ?_
    have hran : ran.Beside Periphery.Stricter ran' := ⟨herror, hstate⟩
    have hclosed := (hran.closed Periphery.Stricter.kept).periphery
    have hlog : ran'.state.world.log = ran.state.world.log := hran.state.worlds.periphery.log
    have hrest : ran'.closed.log = ran.closed.log := hclosed.log
    have hmetrics : ran'.closed.metrics = ran.closed.metrics := hclosed.metrics
    rw [hran.progress_of_log hlog hrest, hmetrics]
    rfl
  · obtain ⟨herror, hline, since, hsince⟩ := hstopped
    have herror : ran'.error? = some (.invalidName (.underscore bad)) := herror
    have hline : ran'.state.runner.line = command.line := hline
    have hsince : since ++ ran'.state.printed = ran.state.printed := hsince
    refine .inr ⟨?_, ?_, commands, command, bad, hparse, hmem, hcommand, hbad, ?_⟩
    · show ran'.state.output <+: ran.state.output
      rw [RunState.output, RunState.output, ← hsince, List.reverse_append]
      exact ⟨_, List.flatMap_append.symm⟩
    · exact congrArg Option.isSome herror
    · rw [Outcome.messages_progress, Outcome.complaints, herror, hline]
      rfl

/-- Run strictly, scripts do the same, or one of them stops at an underscored name. -/
theorem runInputs_strict (files : Files) (inputs : List Text) (stream : Stream)
    (metrics : Metrics) :
    let p := runInputs settings files inputs stream metrics
    let q := runInputs { settings with strictNames := true } files inputs stream metrics
    q = p ∨ q.printed <+: p.printed ∧ ∃ turn ∈ turns inputs stream, ∃ text,
      inputContents files turn.2 turn.1 = .ok text ∧ q.StopsAt turn.1 text := by
  induction inputs generalizing stream metrics with
  | nil => exact .inl rfl
  | cons name rest ih =>
      let strict : Settings := { settings with strictNames := true }
      let first := runSource settings metrics name (inputContents files stream name)
      let first' := runSource strict metrics name (inputContents files stream name)
      have hfirst : first' = first ∨ first'.printed <+: first.printed ∧ ∃ text,
          inputContents files stream name = .ok text ∧ first'.StopsAt name text := by
        simp only [first, first']
        cases inputContents files stream name with
        | error fault => exact .inl rfl
        | ok text =>
            rcases runText_strict hlax metrics name text with hsame | ⟨hprinted, hstops⟩
            · exact .inl hsame
            · exact .inr ⟨hprinted, text, rfl, hstops⟩
      let after := runInputs settings files rest (streamAfter stream name) first.metrics
      let after' := runInputs strict files rest (streamAfter stream name) first'.metrics
      have hp : runInputs settings files (name :: rest) stream metrics =
          if first.failed then first else first.andThen after := rfl
      have hq : runInputs strict files (name :: rest) stream metrics =
          if first'.failed then first' else first'.andThen after' := rfl
      show _ = _ ∨ _
      rw [turns_cons, hp, hq]
      rcases hfirst with hsame | ⟨hprinted, text, htext, hstops⟩
      · -- the other scripts start with the same metrics, so they are left to the induction
        simp only [after', hsame]
        split
        · exact .inl rfl
        · next hthrough =>
            have hquiet := runSource_messages (eq_false_of_ne_true hthrough)
            rcases ih (streamAfter stream name) first.metrics with
              hrest | ⟨hprinted, turn, hturn, text, htext, hstops⟩
            · exact .inl (congrArg first.andThen hrest)
            · exact .inr ⟨(List.prefix_append_right_inj _).mpr hprinted, turn,
                List.mem_cons_of_mem _ hturn, text, htext, hstops.andThen hquiet⟩
      · rw [if_pos hstops.failed]
        refine .inr ⟨?_, (name, stream), List.mem_cons_self, text, htext, hstops⟩
        split
        · exact hprinted
        · exact hprinted.trans (List.prefix_append _ _)

end Programs

/-! ## The whole program -/

/-- Strict naming only restricts. If the strict run gets through, the lax run is the same; what the
    strict run prints is the beginning of what the lax run prints, and if the lax run fails, so does
    the strict one. If there is any difference, the strict run stops at a command that names a scope
    or a label, and the message says that the name holds an underscore. -/
theorem runProgram_strict {lax strict : List (Option Text)} {settings : Settings}
    (hlax : Parsed.ofVector lax = ⟨settings, none⟩) (hoff : settings.strictNames = false)
    (hstrict : Parsed.ofVector strict = ⟨{ settings with strictNames := true }, none⟩)
    (hname : strict.head?.join = lax.head?.join) (files : Files) (stream : Stream) :
    let p := runProgram lax files stream
    let q := runProgram strict files stream
    (q.exit = 0 → q = p) ∧ q.printed <+: p.printed ∧ (p.exit ≠ 0 → q.exit ≠ 0) ∧
    (q ≠ p → q.exit = failureStatus ∧ ∃ turn ∈ turns settings.inputs stream,
      ∃ text commands command name, inputContents files turn.2 turn.1 = .ok text ∧
        parse text = .ok commands ∧ command ∈ commands ∧
        (command.verb = .scope (some name) ∨ command.verb = .label (some name)) ∧
        Text.underscore ∈ name ∧ Text.slash ∉ name ∧
        q.diagnostics.filter Diagnostic.isMessage =
          [.complaint (.failed turn.1 command.line (.invalidName (.underscore name)))]) := by
  intro p q
  have hsame {stops : Prop} (h : q = p) : (q.exit = 0 → q = p) ∧ q.printed <+: p.printed ∧
      (p.exit ≠ 0 → q.exit ≠ 0) ∧ (q ≠ p → stops) := by
    refine ⟨fun _ => h, ?_, fun hfailed => ?_, fun hne => absurd h hne⟩
    · rw [h]
    · rw [h]
      exact hfailed
  cases hhelp : settings.showHelp with
  | true =>
      refine hsame ?_
      show runProgram strict files stream = runProgram lax files stream
      rw [runProgram_help hstrict hhelp, runProgram_help hlax hhelp, hname]
  | false =>
      let settings' : Settings := { settings with strictNames := true }
      let ran := runInputs settings files settings.inputs stream (initialMetrics settings)
      let ran' := runInputs settings' files settings.inputs stream (initialMetrics settings')
      have hp : p = ran.conclude settings := runProgram_of_parsed hlax hhelp files stream
      have hq : q = ran'.conclude settings' := runProgram_of_parsed hstrict hhelp files stream
      rcases runInputs_strict hoff files settings.inputs stream (initialMetrics settings) with
        hends | ⟨hprinted, turn, hturn, text, htext, hstops⟩
      · have hends : ran' = ran := hends
        refine hsame ?_
        rw [hp, hq, hends]
        rfl
      · have hfailed : ran'.failed = true := hstops.failed
        have hexit : q.exit = failureStatus := by
          rw [hq, Progress.conclude, if_pos hfailed]
        have hne : q.exit ≠ 0 := by
          rw [hexit]
          decide
        obtain ⟨commands, command, name, hparse, hmem, hcommand, hbad, hmessages⟩ := hstops.message
        have hverb := Command.name?_eq_some hcommand
        obtain ⟨hunderscore, hslash⟩ := hbad
        refine ⟨fun hthrough => absurd hthrough hne, ?printed, fun _ => hne, fun _ => ⟨hexit, ?stops⟩⟩
        case printed =>
          rw [hp, hq]
          exact hprinted
        case stops =>
          rw [hq]
          exact ⟨turn, hturn, text, commands, command, name, htext, hparse, hmem, hverb,
            hunderscore, hslash, hmessages⟩

/-- A script, and another with an underscore in the name of its second label. -/
def underscoredFiles : Files := fun path =>
  if path = "a" then some "scope a\nlabel\nend"
  else if path = "b" then some "label b\nlabel b_c\nlabel d"
  else none

/-- The lax run gets through both scripts, and the strict run stops in the middle of the second. -/
theorem runProgram_strict_underscored :
    let lax : List (Option Text) := [some "labelkit", some "a", some "b"]
    let strict : List (Option Text) := [some "labelkit", some "a", some "--strict-names", some "b"]
    let p := runProgram lax underscoredFiles .failed
    let q := runProgram strict underscoredFiles .failed
    p.exit = 0 ∧ p.printed = Text.unlines ["a/1", "b", "b_c", "d"] ∧
      q.printed = Text.unlines ["a/1", "b"] ∧ q.printed <+: p.printed ∧ q.exit = failureStatus ∧
      ∃ script line name, q.diagnostics.filter Diagnostic.isMessage =
        [.complaint (.failed script line (.invalidName (.underscore name)))] := by
  intro lax strict p q
  have hlax : Parsed.ofVector lax = ⟨{ inputs := ["a", "b"] }, none⟩ := by
    decide +kernel
  have hstrict : Parsed.ofVector strict =
      ⟨{ inputs := ["a", "b"], strictNames := true }, none⟩ := by
    decide +kernel
  obtain ⟨-, hprinted, -, hstops⟩ :=
    runProgram_strict hlax rfl hstrict rfl underscoredFiles .failed
  have hdiffer : q ≠ p := by
    decide +kernel
  obtain ⟨hexit, turn, -, -, -, command, name, -, -, -, -, -, -, hmessages⟩ := hstops hdiffer
  exact ⟨by decide +kernel, by decide +kernel, by decide +kernel, hprinted, hexit, turn.1,
    command.line, name, hmessages⟩

end ScopedLabels
