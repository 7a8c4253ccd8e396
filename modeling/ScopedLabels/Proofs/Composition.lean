import Mathlib.Data.List.TakeWhile
import Mathlib.Data.UInt
import ScopedLabels.Proofs.Arguments
import ScopedLabels.Proofs.Periphery

/-!
# Composition — several scripts run as each of them alone

A program that is given several scripts runs each in a world of its own. Only the metrics and
standard input go from one to the next, and neither tells on what a script does: what was counted
before is counted on top of (`Periphery.OnTop`, `runSource_onTop`), and standard input is empty once
a script was read from it (`turns`).

So the program comes to what the scripts come to that are run alone, each by a program with the same
options (`aloneVector`): their outputs one after the other, with the sums of what they counted, up
to the first that fails (`runProgram_composes`).
-/

namespace ScopedLabels

open CommandLine Script

/-! ## Tallies that add up -/

namespace Tally

/-- What is counted in one tally and in another. -/
def plus (s t : Tally) : Tally where
  scopesEntered := s.scopesEntered + t.scopesEntered
  scopesExited := s.scopesExited + t.scopesExited
  labelsGenerated := s.labelsGenerated + t.labelsGenerated
  globalFallbacks := s.globalFallbacks + t.globalFallbacks

/-- What is counted altogether. -/
def total (tallies : List Tally) : Tally :=
  tallies.foldr plus {}

theorem get_plus (s t : Tally) (metric : Metric) :
    (s.plus t).get metric = s.get metric + t.get metric := by
  cases metric <;> rfl

theorem get_empty (metric : Metric) : ({} : Tally).get metric = 0 := by
  cases metric <;> rfl

/-- Every counter is the sum of the counters, modulo 2^64. -/
theorem get_total (tallies : List Tally) (metric : Metric) :
    (total tallies).get metric = (tallies.map (·.get metric)).sum := by
  induction tallies with
  | nil => exact get_empty metric
  | cons tally rest ih =>
      rw [List.map_cons, List.sum_cons, ← ih]
      exact get_plus tally (total rest) metric

/-- It does not matter which tallies are put together first, since the counters are added modulo
    2^64. -/
theorem plus_assoc (s t u : Tally) : (s.plus t).plus u = s.plus (t.plus u) := by
  refine ext_get fun metric => ?_
  simp only [get_plus, UInt64.add_assoc]

theorem plus_empty (s : Tally) : s.plus {} = s := by
  refine ext_get fun metric => ?_
  rw [get_plus, get_empty, UInt64.add_zero]

theorem empty_plus (s : Tally) : plus {} s = s := by
  refine ext_get fun metric => ?_
  rw [get_plus, get_empty, UInt64.zero_add]

end Tally

/-! ## Running one script -/

/-- The same progress, with more counted before it. -/
def Progress.onTop (progress : Progress) (before : Tally) : Progress :=
  { progress with
    metrics := { progress.metrics with tally := before.plus progress.metrics.tally } }

/-- Both sides count or neither does, and the second has counted more before. Nothing else is
    different. -/
structure Periphery.OnTop (enabled : Bool) (before : Tally) (p q : Periphery) : Prop where
  options : q.options = p.options
  log : q.log = p.log
  first : p.metrics.enabled = enabled
  second : q.metrics.enabled = enabled
  tally : q.metrics.tally = before.plus p.metrics.tally

namespace Periphery.OnTop

variable {enabled : Bool} {before : Tally} {p q : Periphery}

theorem report (h : OnTop enabled before p q) (level : Level) (notice : Notice) :
    OnTop enabled before (p.report level notice) (q.report level notice) := by
  have hlog : (q.report level notice).log = (p.report level notice).log :=
    congrArg (·.write level notice) h.log
  exact { h with log := hlog }

/-- Counting once more on both sides keeps what was counted before apart. -/
theorem count (h : OnTop enabled before p q) (metric : Metric) :
    OnTop enabled before (p.count metric) (q.count metric) := by
  have hfirst : (p.count metric).metrics.enabled = enabled := by
    rw [Periphery.count, Metrics.enabled_count, h.first]
  have hsecond : (q.count metric).metrics.enabled = enabled := by
    rw [Periphery.count, Metrics.enabled_count, h.second]
  refine { h with first := hfirst, second := hsecond, tally := Tally.ext_get fun other => ?_ }
  rw [Tally.get_plus, Periphery.count, Periphery.count]
  cases enabled with
  | false =>
      rw [Metrics.count_disabled _ _ h.first, Metrics.count_disabled _ _ h.second, h.tally,
        Tally.get_plus]
  | true =>
      rw [Metrics.get_count _ _ _ h.first, Metrics.get_count _ _ _ h.second, h.tally]
      split
      · next hsame => rw [hsame, Tally.get_plus, UInt64.add_assoc]
      · rw [Tally.get_plus]

/-- What a script can do to its periphery keeps the two sides on top of one another. -/
theorem kept (enabled : Bool) (before : Tally) : Kept (OnTop enabled before) where
  report h _ := h.report _ _
  count metric h := h.count metric
  fallBack {p q} h := by
    rw [fallBack, fallBack, h.options]
    split
    · exact (h.report _ _).count _
    · exact h.count _
  drained h := { h with log := congrArg Log.drained h.log }

/-- The options are the same on both sides, so the same names are accepted. -/
theorem accepts (enabled : Bool) (before : Tally) (name : Option Text) :
    Accepts (OnTop enabled before) name := by
  intro p q h n _
  rw [h.options]

end Periphery.OnTop

/-- A script counts on top of what was counted before, and leaves the switch as it is. -/
theorem runText_onTop (settings : Settings) {metrics : Metrics}
    (henabled : metrics.enabled = settings.metrics) (name text : Text) :
    let alone := runText settings (initialMetrics settings) name text
    alone.metrics.enabled = settings.metrics ∧
      runText settings metrics name text = alone.onTop metrics.tally := by
  let ran := scriptRunner.run text (startWorld settings (initialMetrics settings))
  let ran' := scriptRunner.run text (startWorld settings metrics)
  -- the two runs stay beside one another from the start to the closing, and only their tallies
  -- differ
  have hkept := Periphery.OnTop.kept settings.metrics metrics.tally
  have hstart : Periphery.OnTop settings.metrics metrics.tally
      (.start settings (initialMetrics settings)) (.start settings metrics) :=
    ⟨rfl, rfl, rfl, henabled, (Tally.plus_empty _).symm⟩
  have hran : ran.Beside (Periphery.OnTop settings.metrics metrics.tally) ran' :=
    run_beside hstart hkept (Periphery.OnTop.accepts _ _) text
  have hclosed := (hran.closed hkept).periphery
  have hlog : ran'.state.world.log = ran.state.world.log := hran.state.worlds.periphery.log
  have hrest : ran'.closed.log = ran.closed.log := hclosed.log
  have hmetrics : ran'.closed.metrics =
      { ran.closed.metrics with tally := metrics.tally.plus ran.closed.metrics.tally } :=
    congrArg₂ Metrics.mk (hclosed.second.trans hclosed.first.symm) hclosed.tally
  refine ⟨hclosed.first, ?_⟩
  show ran'.progress name = (ran.progress name).onTop metrics.tally
  rw [hran.progress_of_log hlog hrest, hmetrics]
  rfl

/-- What was counted before is counted on top of. -/
theorem runSource_onTop (settings : Settings) {metrics : Metrics}
    (henabled : metrics.enabled = settings.metrics) (name : Text)
    (contents : Except SourceFault Text) :
    runSource settings metrics name contents =
      (runSource settings (initialMetrics settings) name contents).onTop metrics.tally := by
  cases contents with
  | error fault =>
      obtain ⟨enabled, tally⟩ := metrics
      cases henabled
      have hplus : tally.plus (initialMetrics settings).tally = tally := Tally.plus_empty tally
      rw [runSource, runSource, Progress.onTop, hplus]
      rfl
  | ok text => exact (runText_onTop settings henabled name text).2

/-! ## Running scripts one after another -/

/-- The inputs in order, each with what standard input holds when its turn comes: what it held at
    the start, and nothing after an input that reads it. -/
def turns (inputs : List Text) (stream : Stream) : List (Text × Stream) :=
  inputs.mapIdx fun i name =>
    (name, if standardInput ∈ inputs.take i then stream.exhausted else stream)

/-- The first input finds standard input as it is, and the others as the first leaves it. -/
theorem turns_cons (name : Text) (inputs : List Text) (stream : Stream) :
    turns (name :: inputs) stream = (name, stream) :: turns inputs (streamAfter stream name) := by
  have hexhausted : stream.exhausted.exhausted = stream.exhausted := by cases stream <;> rfl
  rw [turns, List.mapIdx_cons, turns]
  refine congrArg₂ List.cons (by simp) (congrArg (fun f => inputs.mapIdx f) ?_)
  -- an input finds standard input empty if an earlier one is the mark, and the first may be it
  funext i other
  rw [List.take_succ_cons, streamAfter]
  by_cases hname : name = standardInput
  · simp [hname, hexhausted]
  · simp [hname, Ne.symm hname]

/-- What an input comes to that is run alone. -/
def runAlone (settings : Settings) (files : Files) (turn : Text × Stream) : Progress :=
  runSource settings (initialMetrics settings) turn.1 (inputContents files turn.2 turn.1)

/-- Whatever an input comes to alone, the switch of the metrics is as the settings have it. -/
theorem runAlone_enabled (settings : Settings) (files : Files) (turn : Text × Stream) :
    (runAlone settings files turn).metrics.enabled = settings.metrics := by
  rw [runAlone]
  cases inputContents files turn.2 turn.1 with
  | error fault => rfl
  | ok text =>
      have henabled : (initialMetrics settings).enabled = settings.metrics := rfl
      exact (runText_onTop settings henabled turn.1 text).1

section Sequences

variable {settings : Settings} {files : Files} {inputs : List Text} {stream : Stream}
  {metrics : Metrics}

/-- The first of some inputs is run alone on top of what was counted before, and unless it fails,
    the others are run on top of that. -/
theorem runInputs_cons (henabled : metrics.enabled = settings.metrics) (name : Text) :
    runInputs settings files (name :: inputs) stream metrics =
      let first := (runAlone settings files (name, stream)).onTop metrics.tally
      if (runAlone settings files (name, stream)).failed then first
      else first.andThen
        (runInputs settings files inputs (streamAfter stream name) first.metrics) := by
  rw [runInputs, runSource_onTop settings henabled, runAlone]
  rfl

/-- If no script fails, what they come to alone is put together. -/
theorem runInputs_of_all (henabled : metrics.enabled = settings.metrics)
    (hall : ∀ turn ∈ turns inputs stream, (runAlone settings files turn).failed = false) :
    runInputs settings files inputs stream metrics =
      { printed := (turns inputs stream).flatMap fun turn => (runAlone settings files turn).printed
        diagnostics :=
          (turns inputs stream).flatMap fun turn => (runAlone settings files turn).diagnostics
        metrics :=
          { enabled := settings.metrics
            tally := metrics.tally.plus (.total ((turns inputs stream).map fun turn =>
              (runAlone settings files turn).metrics.tally)) }
        failed := false } := by
  induction inputs generalizing stream metrics with
  | nil =>
      obtain ⟨enabled, tally⟩ := metrics
      cases henabled
      show Progress.mk [] [] ⟨settings.metrics, tally⟩ false =
        Progress.mk [] [] ⟨settings.metrics, tally.plus {}⟩ false
      rw [Tally.plus_empty]
  | cons name rest ih =>
      rw [turns_cons] at hall
      have hfirst : (runAlone settings files (name, stream)).failed = false :=
        hall (name, stream) List.mem_cons_self
      -- the rest is run on the tally of the first, and the induction is over all such tallies
      have hon : ((runAlone settings files (name, stream)).onTop metrics.tally).metrics.enabled =
          settings.metrics := runAlone_enabled settings files (name, stream)
      have hrest := ih hon fun turn hturn => hall turn (List.mem_cons_of_mem _ hturn)
      rw [runInputs_cons henabled]
      simp only [hfirst, Bool.false_eq_true, if_false, hrest]
      simp only [Progress.andThen, Progress.onTop, turns_cons, List.flatMap_cons, List.map_cons,
        Tally.plus_assoc]
      rfl

/-- Up to the first script that fails, what they come to alone is put together. -/
theorem runInputs_of_first (henabled : metrics.enabled = settings.metrics)
    {earlier later : List (Text × Stream)} {turn : Text × Stream}
    (hturns : turns inputs stream = earlier ++ turn :: later)
    (hearlier : ∀ other ∈ earlier, (runAlone settings files other).failed = false)
    (hfailed : (runAlone settings files turn).failed = true) :
    ∃ reached, runInputs settings files inputs stream metrics =
      { printed := (earlier ++ [turn]).flatMap fun turn => (runAlone settings files turn).printed
        diagnostics :=
          (earlier ++ [turn]).flatMap fun turn => (runAlone settings files turn).diagnostics
        metrics := reached
        failed := true } := by
  induction inputs generalizing stream metrics earlier with
  | nil => exact absurd hturns.symm (by simp [turns])
  | cons name rest ih =>
      have hon : ((runAlone settings files (name, stream)).onTop metrics.tally).metrics.enabled =
          settings.metrics := runAlone_enabled settings files (name, stream)
      rw [turns_cons] at hturns
      rw [runInputs_cons henabled]
      cases earlier with
      | nil =>
          obtain ⟨rfl, -⟩ := List.cons.inj hturns
          refine ⟨((runAlone settings files (name, stream)).onTop metrics.tally).metrics, ?_⟩
          simp [hfailed, Progress.onTop]
      | cons first earlier =>
          obtain ⟨rfl, hrest⟩ := List.cons.inj hturns
          have hfirst : (runAlone settings files (name, stream)).failed = false :=
            hearlier (name, stream) List.mem_cons_self
          obtain ⟨reached, hreached⟩ := ih hon hrest fun other hother =>
            hearlier other (List.mem_cons_of_mem _ hother)
          refine ⟨reached, ?_⟩
          simp only [hfirst, Bool.false_eq_true, if_false, hreached]
          simp only [Progress.andThen, Progress.onTop, List.cons_append, List.flatMap_cons]

end Sequences

/-! ## Programs that run one script -/

namespace CommandLine

/-- An argument list can be parted in one way only. -/
theorem Parted.front_eq {arguments front scripts : List Text} (h : Parted arguments front scripts) :
    front = arguments.takeWhile (· != endMark) := by
  have hfront : ∀ argument ∈ front, (argument != endMark) = true := by
    intro argument hargument
    rw [bne_iff_ne]
    rintro rfl
    exact h.open_front hargument
  rcases h.whole with ⟨rfl, -⟩ | rfl
  · exact (List.takeWhile_eq_self_iff.mpr hfront).symm
  · rw [List.takeWhile_append_of_pos hfront, List.takeWhile_cons_of_neg (by simp),
      List.append_nil]

/-- What an option says, it does not say as a script. -/
theorem ordinary_of_isScript {argument : Text} (h : isScript argument = true) :
    formatAsked? argument = none ∧ levelAsked? argument = none ∧
      argument ≠ ("--strict-names" : Text) ∧ argument ≠ ("--no-fallback-warning" : Text) := by
  refine ⟨?_, ?_, ?_, ?_⟩
  · cases hformat : formatAsked? argument with
    | none => rfl
    | some format =>
        rcases eq_of_formatAsked? hformat with ⟨rfl, -⟩ | rfl
        · exact absurd h (by decide)
        · cases format <;> exact absurd h (by decide)
  · cases hlevel : levelAsked? argument with
    | none => rfl
    | some level =>
        obtain rfl := eq_of_levelAsked? hlevel
        cases level <;> exact absurd h (by decide)
  · rintro rfl
    exact absurd h (by decide)
  · rintro rfl
    exact absurd h (by decide)

/-- The options among some arguments describe the same settings without the scripts among them. -/
theorem Settings.described_options (front scripts others : List Text) :
    Settings.described (front.filter fun argument => !isScript argument) others =
      { Settings.described front scripts with inputs := others } := by
  have hinputs : (front.filter fun argument => !isScript argument).filter isScript = [] := by
    rw [List.filter_filter]
    exact List.filter_eq_nil_iff.mpr fun argument _ => by cases isScript argument <;> simp
  have hcontains : ∀ switch : Text, isScript switch = false →
      (front.filter fun argument => !isScript argument).contains switch =
        front.contains switch := by
    intro switch hswitch
    rw [Bool.eq_iff_iff, List.contains_iff_mem, List.contains_iff_mem, List.mem_filter, hswitch]
    simp
  have hasked : ∀ {α : Type} (asked? : Text → Option α),
      (∀ argument, isScript argument = true → asked? argument = none) →
      (front.filter fun argument => !isScript argument).filterMap asked? =
        front.filterMap asked? := by
    intro α asked? hnone
    rw [List.filterMap_filter]
    refine List.filterMap_congr fun argument _ => ?_
    cases hscript : isScript argument with
    | false => rfl
    | true => exact (hnone argument hscript).symm
  have hmetrics : ((front.filter fun argument => !isScript argument).any fun argument =>
        (formatAsked? argument).isSome) =
      front.any fun argument => (formatAsked? argument).isSome := by
    rw [List.any_filter]
    refine congrArg front.any (funext fun argument => ?_)
    cases hscript : isScript argument with
    | false => rfl
    | true =>
        rw [(ordinary_of_isScript hscript).1]
        rfl
  rw [Settings.described, hinputs, List.nil_append, hcontains _ (by decide),
    hcontains _ (by decide), hasked levelAsked? fun _ h => (ordinary_of_isScript h).2.1, hmetrics,
    hasked formatAsked? fun _ h => (ordinary_of_isScript h).1, Settings.described]

end CommandLine

/-- The same program and options with a single input: what stands in front of the end of the
    options, without the scripts there, and then the input. -/
def aloneVector (vector : List (Option Text)) (name : Text) : List (Option Text) :=
  let front := ((vector.map (·.getD [])).drop 1).takeWhile (· != endMark)
  let options := front.filter fun argument => !isScript argument
  vector.head?.join :: (options ++ [endMark, name]).map some

/-- Where several scripts are accepted, each of them is accepted alone. -/
theorem plan_aloneVector {vector : List (Option Text)} {settings : Settings}
    (hplan : plan vector = .ok settings) (name : Text) :
    plan (aloneVector vector name) = .ok { settings with inputs := [name] } := by
  obtain ⟨parsed, hmeans⟩ := exists_means ((vector.map (·.getD [])).drop 1)
  have hread : Parsed.ofVector vector = parsed := hmeans.read
  rw [plan, hread] at hplan
  -- only an accepted vector gives settings
  cases hmeans with
  | help => cases hplan
  | rejected => cases hplan
  | idle => cases hplan
  | @accepted front scripts hparted hfront hinputs =>
      cases hplan
      have hoptions : ∀ argument ∈ front.filter fun argument => !isScript argument,
          argument ∈ front := fun _ hmem => (List.mem_filter.mp hmem).1
      have harguments : ((aloneVector vector name).map (·.getD [])).drop 1 =
          (front.filter fun argument => !isScript argument) ++ endMark :: [name] := by
        have hsome : ∀ arguments : List Text,
            (arguments.map some).map (·.getD []) = arguments := by
          intro arguments
          rw [List.map_map]
          exact List.map_id arguments
        rw [hparted.front_eq]
        exact hsome _
      have halone : Parsed.ofVector (aloneVector vector name) =
          ⟨{ Settings.described front scripts with inputs := [name] }, none⟩ := by
        rw [Parsed.ofVector, harguments, ← Settings.described_options]
        have hopen : endMark ∉ front.filter fun argument => !isScript argument :=
          fun hmem => hparted.open_front (hoptions endMark hmem)
        have hordinary : ∀ argument ∈ front.filter fun argument => !isScript argument,
            ¬ Stops argument := fun argument hmem => hfront argument (hoptions argument hmem)
        refine Means.read (.accepted ⟨hopen, .inr rfl⟩ hordinary ?_)
        simp [Settings.described]
      rw [plan, halone]
      rfl

/-- What a program counts. -/
def countedBy (vector : List (Option Text)) (files : Files) (stream : Stream) : Tally :=
  match plan vector with
  | .error _ => {}
  | .ok settings =>
    (runInputs settings files settings.inputs stream (initialMetrics settings)).metrics.tally

/-- A program that runs one script concludes with what the script comes to. -/
theorem runProgram_aloneVector {vector : List (Option Text)} {settings : Settings}
    (hplan : plan vector = .ok settings) (files : Files) (turn : Text × Stream) :
    runProgram (aloneVector vector turn.1) files turn.2 =
        (runAlone settings files turn).conclude settings ∧
      countedBy (aloneVector vector turn.1) files turn.2 =
        (runAlone settings files turn).metrics.tally := by
  have hsingle : ∀ s : Settings,
      runInputs s files [turn.1] turn.2 (initialMetrics s) = runAlone s files turn := by
    intro s
    rw [runInputs, runInputs]
    show (if (runAlone s files turn).failed then runAlone s files turn
      else (runAlone s files turn).andThen { metrics := (runAlone s files turn).metrics }) = _
    split
    · rfl
    · next h =>
        have hfailed : (runAlone s files turn).failed = false := by simpa using h
        simp only [Progress.andThen, List.append_nil, ← hfailed]
  have hsame : runAlone { settings with inputs := [turn.1] } files turn =
      runAlone settings files turn := rfl
  have halone := plan_aloneVector hplan turn.1
  rw [runProgram, countedBy, halone]
  simp only
  rw [hsingle, hsame]
  exact ⟨rfl, rfl⟩

/-- A program ends with status 0 if and only if no script failed. -/
theorem conclude_exit_eq_zero {settings : Settings} {progress : Progress} :
    (progress.conclude settings).exit = 0 ↔ progress.failed = false := by
  cases hfailed : progress.failed <;> simp [Progress.conclude, hfailed, failureStatus]

/-- The programs that run the inputs of a program one by one, each with what standard input holds
    for it. -/
def aloneRuns (vector : List (Option Text)) (settings : Settings) (stream : Stream) :
    List (List (Option Text) × Stream) :=
  (turns settings.inputs stream).map fun turn => (aloneVector vector turn.1, turn.2)

section AloneRuns

variable {vector : List (Option Text)} {settings : Settings}

/-- The programs of the single inputs conclude with what the inputs come to alone. -/
theorem map_runProgram_aloneRuns (hplan : plan vector = .ok settings) (files : Files)
    (stream : Stream) :
    (aloneRuns vector settings stream).map (fun run => runProgram run.1 files run.2) =
      (turns settings.inputs stream).map fun turn =>
        (runAlone settings files turn).conclude settings := by
  rw [aloneRuns, List.map_map]
  exact List.map_congr_left fun turn _ => (runProgram_aloneVector hplan files turn).1

/-- The programs of the single inputs count what the inputs count alone. -/
theorem map_countedBy_aloneRuns (hplan : plan vector = .ok settings) (files : Files)
    (stream : Stream) :
    (aloneRuns vector settings stream).map (fun run => countedBy run.1 files run.2) =
      (turns settings.inputs stream).map fun turn =>
        (runAlone settings files turn).metrics.tally := by
  rw [aloneRuns, List.map_map]
  exact List.map_congr_left fun turn _ => (runProgram_aloneVector hplan files turn).2

/-- A program that runs one script to its end reports what it counted. -/
theorem report_aloneVector (hplan : plan vector = .ok settings) (files : Files)
    (turn : Text × Stream)
    (hexit : (runProgram (aloneVector vector turn.1) files turn.2).exit = 0) :
    (runProgram (aloneVector vector turn.1) files turn.2).report =
      metricsReport settings
        { enabled := settings.metrics
          tally := countedBy (aloneVector vector turn.1) files turn.2 } := by
  obtain ⟨hconclusion, htally⟩ := runProgram_aloneVector hplan files turn
  rw [hconclusion] at hexit
  have hfailed := conclude_exit_eq_zero.mp hexit
  rw [hconclusion, htally, ← runAlone_enabled settings files turn]
  simp [Progress.conclude, hfailed]

end AloneRuns

/-- A program comes to what its scripts come to alone. If all of them get through, it prints what
    they print and then a report on the sums of what they counted. Otherwise it stops with the first
    that fails and prints no report, whatever comes after. -/
theorem runProgram_composes {vector : List (Option Text)} {settings : Settings}
    (hplan : plan vector = .ok settings) (files : Files) (stream : Stream) :
    let runs := aloneRuns vector settings stream
    let conclusions := runs.map fun run => runProgram run.1 files run.2
    (∀ run ∈ runs, (runProgram run.1 files run.2).exit = 0 →
      (runProgram run.1 files run.2).report =
        metricsReport settings
          { enabled := settings.metrics, tally := countedBy run.1 files run.2 }) ∧
    ((∀ conclusion ∈ conclusions, conclusion.exit = 0) →
      runProgram vector files stream =
        { exit := 0
          printed := conclusions.flatMap (·.printed)
          report := metricsReport settings
            { enabled := settings.metrics
              tally := .total (runs.map fun run => countedBy run.1 files run.2) }
          diagnostics := conclusions.flatMap (·.diagnostics) }) ∧
    ∀ earlier failing later, conclusions = earlier ++ failing :: later →
      (∀ conclusion ∈ earlier, conclusion.exit = 0) → failing.exit ≠ 0 →
      runProgram vector files stream =
        { exit := failureStatus
          printed := (earlier ++ [failing]).flatMap (·.printed)
          report := []
          diagnostics := (earlier ++ [failing]).flatMap (·.diagnostics) } := by
  intro runs conclusions
  let inTurn := turns settings.inputs stream
  have hconclusions : conclusions =
      inTurn.map fun turn => (runAlone settings files turn).conclude settings :=
    map_runProgram_aloneRuns hplan files stream
  have hrun : runProgram vector files stream =
      (runInputs settings files settings.inputs stream (initialMetrics settings)).conclude
        settings := by
    rw [runProgram, hplan]
  refine ⟨?reports, ?all, ?first⟩
  case reports =>
    intro run hmem hexit
    obtain ⟨turn, -, rfl⟩ := List.mem_map.mp hmem
    exact report_aloneVector hplan files turn hexit
  case all =>
    intro hall
    have hthrough : ∀ turn ∈ inTurn, (runAlone settings files turn).failed = false := by
      intro turn hturn
      refine conclude_exit_eq_zero.mp (hall ((runAlone settings files turn).conclude settings) ?_)
      rw [hconclusions]
      exact List.mem_map_of_mem hturn
    rw [hrun, runInputs_of_all rfl hthrough, hconclusions, map_countedBy_aloneRuns hplan,
      List.flatMap_map, List.flatMap_map]
    show Conclusion.mk 0 _ (metricsReport settings ⟨settings.metrics, Tally.plus {} _⟩) _ = _
    rw [Tally.empty_plus]
    rfl
  case first =>
    -- the conclusions split where the turns do
    intro earlier failing later hsplit hearlier hfailing
    rw [hconclusions] at hsplit
    obtain ⟨before, rest, hturns, rfl, hrest⟩ := List.map_eq_append_iff.mp hsplit
    obtain ⟨turn, after, rfl, rfl, -⟩ := List.map_eq_cons_iff.mp hrest
    have hbefore : ∀ other ∈ before, (runAlone settings files other).failed = false :=
      fun other hother => conclude_exit_eq_zero.mp (hearlier _ (List.mem_map_of_mem hother))
    have hfailed : (runAlone settings files turn).failed = true := by
      cases hturn : (runAlone settings files turn).failed with
      | true => rfl
      | false => exact absurd (conclude_exit_eq_zero.mpr hturn) hfailing
    have hon : (initialMetrics settings).enabled = settings.metrics := rfl
    obtain ⟨reached, hreached⟩ := runInputs_of_first hon hturns hbefore hfailed
    rw [hrun, hreached]
    simp [Progress.conclude, List.flatMap_append, List.flatMap_map]

/-- A file that labels a scope, and no other. -/
def oneFile : Files := fun path => if path = "a" then some "scope\nlabel\nend" else none

/-- The file, and then standard input twice. -/
def repeatedInputs : List (Option Text) :=
  [some "labelkit", some "--metrics", some "a", some "-", some "-"]

/-- A file that is missing, and then one that is not. -/
def missingInput : List (Option Text) :=
  [some "labelkit", some "--metrics", some "a", some "b", some "a"]

/-- One file and standard input twice, of which the second time finds it empty; and a program that
    stops at a file that is missing. -/
theorem runProgram_composes_repeated :
    (plan repeatedInputs = .ok { metrics := true, inputs := ["a", "-", "-"] } ∧
      (runProgram repeatedInputs oneFile (.ready "label\nlabel")).exit = 0 ∧
      (runProgram repeatedInputs oneFile (.ready "label\nlabel")).printed =
        Text.unlines ["global/1/1", "global/1", "global/2"] ∧
      (runProgram repeatedInputs oneFile (.ready "label\nlabel")).report =
        metricsReport { metrics := true }
          { enabled := true
            tally :=
              { scopesEntered := 4
                scopesExited := 4
                labelsGenerated := 3
                globalFallbacks := 3 } }) ∧
    plan missingInput = .ok { metrics := true, inputs := ["a", "b", "a"] } ∧
      (runProgram missingInput oneFile .failed).exit = 2 ∧
      (runProgram missingInput oneFile .failed).printed = Text.unlines ["global/1/1"] ∧
      (runProgram missingInput oneFile .failed).report = [] := by
  have hplan : plan repeatedInputs = .ok { metrics := true, inputs := ["a", "-", "-"] } := by
    decide +kernel
  have hplan' : plan missingInput = .ok { metrics := true, inputs := ["a", "b", "a"] } := by
    decide +kernel
  obtain ⟨-, hall, -⟩ := runProgram_composes hplan oneFile (.ready "label\nlabel")
  obtain ⟨-, -, hfirst⟩ := runProgram_composes hplan' oneFile .failed
  have hthrough := hall (by decide +kernel)
  have hstopped := hfirst [runProgram (aloneVector missingInput "a") oneFile .failed]
    (runProgram (aloneVector missingInput "b") oneFile .failed)
    [runProgram (aloneVector missingInput "a") oneFile .failed] rfl (by decide +kernel)
    (by decide +kernel)
  rw [hthrough, hstopped]
  decide +kernel

end ScopedLabels
