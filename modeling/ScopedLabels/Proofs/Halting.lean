import ScopedLabels.Proofs.Faults
import ScopedLabels.Proofs.Frames
import ScopedLabels.Proofs.Grammar
import ScopedLabels.Proofs.Reports
import ScopedLabels.Proofs.Strictness

/-!
# Halting — where a script fails, and with what

A script in a fresh environment fails in one of three ways, and each can be told from its text. A
line that is refused is found before anything is executed (`Malformed`). Among the commands of a
script that is read, the first that *stumbles* is where the run stops: an `end` that has no scope
left to close, or a name that breaks a rule (`Stumbles`). There is no fourth way. Scopes that a
script opens are closed in their order and are entered before they are asked for a path, so neither
disorder nor a missing path is met, and the innermost active value is always a scope.

What carries the proof is that a run stands at an outline whose spots are as many as there were
`scope` commands without the `end` commands (`executeAll_passes`), and that a step of such an
outline fails exactly when its command stumbles (`Outline.step_error_iff`).
-/

namespace ScopedLabels

/-! ## Texts of errors -/

/-- Nothing is cut off before the first zero byte. -/
theorem Text.untilZero_append {front : Text} (h : ∀ b ∈ front, b ≠ 0) (rest : Text) :
    untilZero (front ++ rest) = front ++ untilZero rest := by
  refine List.takeWhile_append_of_pos fun b hb => ?_
  exact bne_iff_ne.mpr (h b hb)

/-- A number is written in digits, and no digit is a zero byte. -/
theorem Text.ne_zero_of_mem_ofNat {n : Nat} {b : UInt8} (hb : b ∈ ofNat n) : b ≠ 0 := by
  rintro rfl
  exact absurd (List.all_eq_true.mp (isNumeral_ofNat n) 0 hb) (by decide)

/-- The line of a faulty script is shown in full. -/
theorem Script.Fault.shown (fault : Script.Fault) :
    (Error.script fault).shown =
      ("line " : Text) ++ Text.ofNat fault.line ++ (": " : Text) ++
        fault.defect.message.untilZero := by
  have hfront : ∀ b ∈ ("line " : Text) ++ Text.ofNat fault.line ++ (": " : Text), b ≠ 0 := by
    intro b hb
    rcases List.mem_append.mp hb with hb | hb
    · rcases List.mem_append.mp hb with hb | hb
      · exact (by decide +kernel : ∀ b ∈ ("line " : Text), b ≠ 0) b hb
      · exact Text.ne_zero_of_mem_ofNat hb
    · exact (by decide +kernel : ∀ b ∈ (": " : Text), b ≠ 0) b hb
  exact Text.untilZero_append hfront fault.defect.message

/-- What is wrong, without the line that a faulty script names. -/
def Error.reason : Error → Text
  | .script fault => fault.defect.message.untilZero
  | error => error.shown

/-- A script that failed is reported with its name, a line, and what is wrong. The line is that of
    the fault, if the script is faulty, and the line of the runner otherwise. -/
theorem Complaint.text_failed (name : Text) (line : Nat) (error : Error) :
    (Complaint.failed name line error).text =
      ("labelkit: " : Text) ++ (name ++ (": line " : Text) ++
        Text.ofNat (error.line?.getD line) ++ (": " : Text) ++ error.reason) ++
          [Text.newline] := by
  cases error with
  | script fault =>
      have hsplit : (": line " : Text) = (": " : Text) ++ ("line " : Text) := by decide
      rw [text, Script.Fault.shown, hsplit, Error.reason]
      simp only [List.append_assoc]
      rfl
  | _ => rfl

namespace Script

/-! ## Commands that stumble -/

/-- How many scopes some commands open. -/
def scopeCount (commands : List Command) : Nat :=
  commands.countP (·.verb.keyword = .scope)

/-- How many scopes some commands close. -/
def leaveCount (commands : List Command) : Nat :=
  commands.countP (·.verb.keyword = .leave)

/-- A command that cannot be executed after some others, and the error that it ends with. -/
inductive Stumbles (options : Options) (before : List Command) (c : Command) : Error → Prop
  /-- An `end` comes after as many `end` commands as there were `scope` commands. -/
  | leave (hverb : c.verb = .leave) (hcount : leaveCount before = scopeCount before) :
      Stumbles options before c (.script ⟨c.line, .endWithoutScope⟩)
  /-- The name of a scope or label holds the separator. -/
  | slash {name : Text} (hname : c.name? = some name) (hmem : Text.slash ∈ name) :
      Stumbles options before c (.invalidName (.slash name))
  /-- The name holds an underscore, which strict naming refuses. -/
  | underscore {name : Text} (hname : c.name? = some name) (hslash : Text.slash ∉ name)
      (hstrict : options.forbidUnderscore = true) (hmem : Text.underscore ∈ name) :
      Stumbles options before c (.invalidName (.underscore name))

/-- No command stumbles. -/
def Passes (options : Options) (commands : List Command) : Prop :=
  ∀ before c after, commands = before ++ c :: after → ∀ e, ¬ Stumbles options before c e

/-- A line of the text is refused, and it is the first one. -/
def Malformed (text : Text) (fault : Fault) : Prop :=
  ∃ before line after, text.lines = before ++ line :: after ∧
    (∀ earlier ∈ before, ∃ verb?, Asks earlier verb?) ∧
    fault.line = before.length + 1 ∧ Offends line fault.defect

theorem Passes.nil (options : Options) : Passes options [] := by
  intro before c after h
  cases before <;> cases h

/-- Commands pass with one more behind them if they pass and the last one does not stumble after
    them. -/
theorem passes_concat_iff {options : Options} {before : List Command} {c : Command} :
    Passes options (before ++ [c]) ↔
      Passes options before ∧ ∀ e, ¬ Stumbles options before c e := by
  constructor
  · intro h
    refine ⟨fun first d after hsplit => h first d (after ++ [c]) ?_, h before c [] rfl⟩
    rw [hsplit, List.append_assoc, List.cons_append]
  · rintro ⟨hbefore, hlast⟩ first d after hsplit
    rcases List.eq_nil_or_concat after with rfl | ⟨others, last, rfl⟩
    · obtain ⟨rfl, hd⟩ := List.append_inj' hsplit rfl
      cases hd
      exact hlast
    · have hassoc : before ++ [c] = (first ++ d :: others) ++ [last] := by
        rw [hsplit, List.append_assoc, List.cons_append, List.concat_eq_append]
      exact hbefore first d others (List.append_inj' hassoc rfl).1

/-- Either no command stumbles, or there is a first one that does. -/
theorem passes_or_stumbles (options : Options) (commands : List Command) :
    Passes options commands ∨ ∃ before c after e, commands = before ++ c :: after ∧
      Passes options before ∧ Stumbles options before c e := by
  induction commands using List.reverseRecOn with
  | nil => exact .inl (.nil options)
  | append_singleton before c ih =>
      rcases ih with hpasses | ⟨first, d, after, e, rfl, hfirst, hstumbles⟩
      · by_cases hlast : ∃ e, Stumbles options before c e
        · obtain ⟨e, hstumbles⟩ := hlast
          exact .inr ⟨before, c, [], e, rfl, hpasses, hstumbles⟩
        · exact .inl (passes_concat_iff.mpr ⟨hpasses, fun e h => hlast ⟨e, h⟩⟩)
      · refine .inr ⟨first, d, after ++ [c], e, ?_, hfirst, hstumbles⟩
        rw [List.append_assoc, List.cons_append]

/-- The kind of the error tells an `end` from a name. -/
theorem Stumbles.kind_eq {options : Options} {before : List Command} {c : Command} {e : Error}
    (h : Stumbles options before c e) :
    e.kind = if c.verb = .leave then .script else .validation := by
  cases h with
  | leave hverb hcount => rw [if_pos hverb, Error.kind]
  | slash hname hmem | underscore hname hslash hstrict hmem =>
      rw [if_neg, Error.kind]
      intro hverb
      rw [Command.name?, hverb] at hname
      cases hname

/-- If the error tells a line, it is that of the command. -/
theorem Stumbles.line_eq {options : Options} {before : List Command} {c : Command} {e : Error}
    (h : Stumbles options before c e) : e.line?.getD c.line = c.line := by
  cases h <;> rfl

/-! ## Outlines of the commands before -/

/-- What is wrong with a name that is not empty. -/
theorem nameFault?_eq_some_iff {options : Options} {name : Text} (hne : name ≠ [])
    {fault : NameFault} :
    nameFault? options name = some fault ↔
      Text.slash ∈ name ∧ fault = .slash name ∨
      Text.slash ∉ name ∧ options.forbidUnderscore = true ∧ Text.underscore ∈ name ∧
        fault = .underscore name := by
  rw [nameFault?, if_neg hne]
  by_cases hslash : Text.slash ∈ name
  · rw [if_pos hslash, Option.some.injEq, eq_comm]
    simp only [hslash, true_and, not_true, false_and, or_false]
  · rw [if_neg hslash]
    by_cases hstrict : options.forbidUnderscore = true ∧ Text.underscore ∈ name
    · rw [if_pos hstrict, Option.some.injEq, eq_comm]
      simp only [hslash, hstrict.1, hstrict.2, false_and, not_false_iff, true_and, false_or]
    · rw [if_neg hstrict]
      constructor
      · rintro ⟨⟩
      · rintro (⟨hmem, -⟩ | ⟨-, hforbidden, hmem, -⟩)
        · exact absurd hmem hslash
        · exact absurd ⟨hforbidden, hmem⟩ hstrict

/-- An `end` stumbles if there is no scope left for it to close. -/
theorem stumbles_iff_leave {options : Options} {before : List Command} {c : Command}
    (hverb : c.verb = .leave) (e : Error) :
    Stumbles options before c e ↔
      leaveCount before = scopeCount before ∧ e = .script ⟨c.line, .endWithoutScope⟩ := by
  constructor
  · intro h
    cases h with
    | leave h hcount => exact ⟨hcount, rfl⟩
    | slash hname hmem | underscore hname hslash hstrict hmem =>
        rw [Command.name?, hverb] at hname
        cases hname
  · rintro ⟨hcount, rfl⟩
    exact .leave hverb hcount

/-- A command that brings a name stumbles over that name, if it does. -/
theorem stumbles_iff_refused {options : Options} {before : List Command} {c : Command}
    (hverb : c.verb ≠ .leave) (hname : c.name? ≠ some []) (e : Error) :
    Stumbles options before c e ↔ Refused options c.name? e := by
  constructor
  · intro h
    cases h with
    | leave h hcount => exact absurd h hverb
    | @slash name hsome hmem =>
        have hne : name ≠ [] := List.ne_nil_of_mem hmem
        exact ⟨name, _, hsome, (nameFault?_eq_some_iff hne).mpr (.inl ⟨hmem, rfl⟩), rfl⟩
    | @underscore name hsome hslash hstrict hmem =>
        have hne : name ≠ [] := List.ne_nil_of_mem hmem
        exact ⟨name, _, hsome,
          (nameFault?_eq_some_iff hne).mpr (.inr ⟨hslash, hstrict, hmem, rfl⟩), rfl⟩
  · rintro ⟨name, fault, hsome, hfault, rfl⟩
    have hne : name ≠ [] := by
      rintro rfl
      exact hname hsome
    rcases (nameFault?_eq_some_iff hne).mp hfault with ⟨hmem, rfl⟩ | ⟨hslash, hstrict, hmem, rfl⟩
    · exact .slash hsome hmem
    · exact .underscore hsome hslash hstrict hmem

namespace Outline

variable {o o' : Outline} {options : Options} {ground : Option Path} {command : Command}

/-- Entering fails on an outline just if the name is refused. -/
theorem enter_error_iff {name : Option Text} {e : Error} :
    o.enter options ground name = .error e ↔ Refused options name e := by
  rw [← checkName_error_iff, enter]
  cases checkName options name with
  | error other => constructor <;> rintro ⟨⟩ <;> rfl
  | ok u => constructor <;> rintro ⟨⟩

/-- A step puts a spot onto an outline, or takes one off, or leaves as many. -/
theorem step_length {line? : Option Text} (h : o.step options ground command = .ok (line?, o')) :
    o'.spots.length + leaveCount [command] = o.spots.length + scopeCount [command] := by
  have hsteps := step_cases h
  generalize hverb : command.verb = verb at hsteps
  cases hsteps with
  | scope henter => simp [leaveCount, scopeCount, hverb, Verb.keyword]
  | leave hspots => simp [leaveCount, scopeCount, hverb, Verb.keyword, hspots]
  | label henter => simp [leaveCount, scopeCount, hverb, Verb.keyword]
  | uid | reset | current => simp [leaveCount, scopeCount, hverb, Verb.keyword]

/-- On an outline of the scopes that are left open by some commands, the next command fails if and
    only if it stumbles after them. -/
theorem step_error_iff {before : List Command}
    (hlength : o.spots.length + leaveCount before = scopeCount before)
    (hname : command.name? ≠ some []) (e : Error) :
    o.step options ground command = .error e ↔ Stumbles options before command e := by
  rw [step]
  -- an `end` fails on a closed outline, which is where the counts are equal; all else fails by its
  -- name
  cases hverb : command.verb with
  | scope name | label name =>
      have hne : command.verb ≠ .leave := by simp [hverb]
      have hsome : command.name? = name := by rw [Command.name?, hverb]
      rw [stumbles_iff_refused hne hname, hsome, ← @enter_error_iff o options ground]
      simp only [Except.map]
      cases o.enter options ground name <;> simp
  | leave =>
      rw [stumbles_iff_leave hverb]
      cases hspots : o.spots with
      | nil =>
          rw [hspots] at hlength
          have hcount : leaveCount before = scopeCount before := by simpa using hlength
          simp only [Except.error.injEq, hcount, true_and]
          exact eq_comm
      | cons spot spots =>
          rw [hspots, List.length_cons] at hlength
          constructor
          · rintro ⟨⟩
          · rintro ⟨hcount, -⟩
            omega
  | uid counter | reset counter | current =>
      have hne : command.verb ≠ .leave := by simp [hverb]
      have hsome : command.name? = none := by rw [Command.name?, hverb]
      rw [stumbles_iff_refused hne hname, hsome]
      constructor
      · rintro ⟨⟩
      · rintro ⟨name, fault, h, -⟩
        cases h

end Outline

/-! ## Commands of a text -/

/-- A name that is read is not empty. -/
theorem Asks.name_ne_nil {line : Text} {c : Command} (h : Asks line (some c.verb)) :
    c.name? ≠ some [] := by
  cases h with
  | command hspells =>
      intro hname
      have hmem : [] ∈ c.verb.words := by
        rcases Command.name?_eq_some hname with hverb | hverb
        · simp [hverb, Verb.words, Verb.argument]
        · simp [hverb, Verb.words, Verb.argument]
      exact (hspells.word_of_mem [] hmem).1 rfl

/-- A command has the number of the line that asked for it. -/
theorem exists_of_mem_commandsFrom {number : Nat} {asked : List (Option Verb)} {c : Command}
    (h : c ∈ commandsFrom number asked) :
    ∃ i, asked[i]? = some (some c.verb) ∧ c.line = number + i := by
  obtain ⟨⟨verb?, line⟩, hmem, hcommand⟩ := List.mem_filterMap.mp h
  obtain ⟨hle, hasked⟩ := List.mk_mem_zipIdx_iff_le_and_getElem?_sub.mp hmem
  cases verb? with
  | none => cases hcommand
  | some verb =>
      cases hcommand
      exact ⟨line - number, hasked, (Nat.add_sub_cancel' hle).symm⟩

section Texts

variable {text : Text}

theorem parse_of_malformed {fault : Fault} (h : Malformed text fault) :
    parse text = .error fault := by
  obtain ⟨before, line, after, hlines, hbefore, hnumber, hoffends⟩ := h
  rw [parse_eq, hlines, parseLines_offends hbefore hoffends, Nat.add_comm, ← hnumber]

/-- A text is malformed, or read as what its lines ask for. -/
theorem malformed_or_asks (text : Text) :
    (∃ fault, Malformed text fault) ∨
      ∃ asked, List.Forall₂ Asks text.lines asked ∧ parse text = .ok (commandsFrom 1 asked) := by
  rcases forall_asks_or_offends text.lines with
    ⟨asked, hall⟩ | ⟨before, line, after, defect, hlines, hbefore, hoffends⟩
  · exact .inr ⟨asked, hall, parseLines_asks hall 1⟩
  · exact .inl ⟨⟨before.length + 1, defect⟩, before, line, after, hlines, hbefore, rfl, hoffends⟩

/-- A command of a script stands on a line of the text that asks for it. -/
theorem line_of_parse {commands : List Command} (h : parse text = .ok commands) {c : Command}
    (hc : c ∈ commands) :
    ∃ i line, text.lines[i]? = some line ∧ c.line = i + 1 ∧ Asks line (some c.verb) := by
  rcases malformed_or_asks text with ⟨fault, hmalformed⟩ | ⟨asked, hall, hparse⟩
  · cases h.symm.trans (parse_of_malformed hmalformed)
  · cases h.symm.trans hparse
    obtain ⟨i, hasked, hline⟩ := exists_of_mem_commandsFrom hc
    obtain ⟨hi, hverb⟩ := List.getElem?_eq_some_iff.mp hasked
    have hi' : i < text.lines.length := hall.length_eq ▸ hi
    refine ⟨i, text.lines[i], List.getElem?_eq_getElem hi', hline.trans (Nat.add_comm 1 i), ?_⟩
    have hasks := hall.get hi' hi
    rwa [List.get_eq_getElem, List.get_eq_getElem, hverb] at hasks

/-- No command that was read names nothing. -/
theorem name_ne_nil_of_parse {commands : List Command} (h : parse text = .ok commands) :
    ∀ c ∈ commands, c.name? ≠ some [] := by
  intro c hc
  obtain ⟨i, line, -, -, hasks⟩ := line_of_parse h hc
  exact hasks.name_ne_nil

end Texts

/-! ## Runs -/

namespace Run

variable {r : Runner} {found : World} (hfresh : r.Fresh found)
include hfresh

/-- In a fresh environment all commands are anchored. -/
theorem attempt_stands_fresh {o : Outline} {s : RunState} (h : Stands r found o s)
    (command : Command) :
    match o.step (found.optionsOf r.environment) none command with
    | .error e => (attempt command s).outcome = ⟨some e, s.goTo command.line⟩
    | .ok (line?, o') => ∃ t, (attempt command s).outcome = ⟨none, t⟩ ∧ Stands r found o' t ∧
        t.printed = line?.toList ++ s.printed ∧ t.runner.line = command.line := by
  have hground : (found.view r.environment).Active none := hfresh.inactive
  exact attempt_stands hfresh.toIdle hground h fun _ hne => absurd rfl hne

/-- Commands that pass are executed, and leave open what they open and do not close. -/
theorem executeAll_passes {commands : List Command}
    (hpasses : Passes (found.optionsOf r.environment) commands)
    (hnames : ∀ c ∈ commands, c.name? ≠ some []) :
    ∃ o t, (executeAll commands).outcome { world := found, runner := r } = ⟨none, t⟩ ∧
      Stands r found o t ∧ o.spots.length + leaveCount commands = scopeCount commands := by
  induction commands using List.reverseRecOn with
  | nil => exact ⟨_, _, rfl, .start hfresh.toIdle [], rfl⟩
  | append_singleton before c ih =>
      obtain ⟨hbefore, hlast⟩ := passes_concat_iff.mp hpasses
      obtain ⟨o, t, hexecuted, hstands, hlength⟩ :=
        ih hbefore fun d hd => hnames d (List.mem_append_left [c] hd)
      have hname : c.name? ≠ some [] := hnames c (by simp)
      have hattempt := attempt_stands_fresh hfresh hstands c
      cases hstep : o.step (found.optionsOf r.environment) none c with
      | error e => exact absurd ((Outline.step_error_iff hlength hname e).mp hstep) (hlast e)
      | ok result =>
          rw [hstep] at hattempt
          obtain ⟨u, houtcome, hu, -, -⟩ := hattempt
          refine ⟨_, u, (executeAll_concat hexecuted c).trans houtcome, hu, ?_⟩
          have hstepped := Outline.step_length hstep
          rw [leaveCount, scopeCount, List.countP_append, List.countP_append]
          rw [leaveCount, scopeCount] at hstepped hlength
          omega

/-- A run gets through commands that pass. -/
theorem run_of_passes {commands : List Command}
    (hpasses : Passes (found.optionsOf r.environment) commands)
    (hnames : ∀ c ∈ commands, c.name? ≠ some []) :
    ((run commands).outcome { world := found, runner := r }).error? = none := by
  obtain ⟨o, t, hexecuted, hstands, -⟩ := executeAll_passes hfresh hpasses hnames
  obtain ⟨u, hfinish, -⟩ := finish_stands hfresh.toIdle hstands
  have herror : ((executeAll commands).outcome { world := found, runner := r }).error? = none :=
    congrArg Outcome.error? hexecuted
  have happend := outcome_append herror []
  rw [List.append_nil] at happend
  rw [happend, hexecuted, run, outcome, hfinish]

/-- A run stops at the first command that stumbles, with what the commands before it came to. -/
theorem run_of_stumbles {before after : List Command} {c : Command} {e : Error}
    (hpasses : Passes (found.optionsOf r.environment) before)
    (hstumbles : Stumbles (found.optionsOf r.environment) before c e)
    (hnames : ∀ d ∈ before ++ c :: after, d.name? ≠ some []) :
    let start : RunState := { world := found, runner := r }
    let reached := (executeAll before).outcome start
    reached.error? = none ∧
      (run (before ++ c :: after)).outcome start = ⟨some e, reached.state.goTo c.line⟩ ∧
      reached.state.runner.depth + leaveCount before = scopeCount before := by
  intro start reached
  obtain ⟨o, t, hexecuted, hstands, hlength⟩ :=
    executeAll_passes hfresh hpasses fun d hd => hnames d (List.mem_append_left _ hd)
  have herror : reached.error? = none := congrArg Outcome.error? hexecuted
  have hstate : reached.state = t := congrArg Outcome.state hexecuted
  have hattempt := attempt_stands_fresh hfresh hstands c
  rw [(Outline.step_error_iff hlength (hnames c (by simp)) e).mpr hstumbles] at hattempt
  refine ⟨herror, ?_, ?_⟩
  · rw [outcome_append herror, outcome_cons, hstate, hattempt]
  · rw [hstate, hstands.depth]
    exact hlength

/-- Counters are printed and set back, and the active scope is named, in every run without
    failure. -/
theorem attempt_of_counter {commands : List Command} {a : Attempt}
    (ha : a ∈ attempts commands { world := found, runner := r })
    (hverb : a.command.verb.keyword = .uid ∨ a.command.verb.keyword = .reset ∨
      a.command.verb.keyword = .current) : a.outcome.error? = none := by
  have hground : (found.view r.environment).Active none := hfresh.inactive
  obtain ⟨o, t, hstands, -, heq⟩ := attempt_of_attempts hfresh.toIdle hground
    (I := fun _ => True) (fun _ _ => trivial) (.start hfresh.toIdle []) trivial ha
  have hattempt := attempt_stands_fresh hfresh hstands a.command
  rw [← heq, Outline.step] at hattempt
  cases hcommand : a.command.verb with
  | scope name | leave | label name => simp [hcommand, Verb.keyword] at hverb
  | uid counter | reset counter | current =>
      rw [hcommand] at hattempt
      obtain ⟨u, houtcome, -⟩ := hattempt
      exact congrArg Outcome.error? houtcome

end Run

/-! ## Scripts -/

/-- The first command of a script that stumbles, the commands before it, and its error. -/
structure FirstStumble (options : Options) (commands before : List Command) (c : Command)
    (e : Error) : Prop where
  parted : ∃ after, commands = before ++ c :: after
  passes : Passes options before
  stumbles : Stumbles options before c e

/-- A run from a state stopped at a command, and left what the commands before came to. -/
structure Outcome.HaltsAt (ran : Outcome) (start : RunState) (before : List Command) (c : Command)
    (e : Error) : Prop where
  executed : ((Run.executeAll before).outcome start).error? = none
  error : ran.error? = some e
  kind : e.kind = if c.verb = .leave then .script else .validation
  line : ran.state.runner.line = c.line
  depth : ran.state.runner.depth + leaveCount before = scopeCount before
  output : ran.state.output = ((Run.executeAll before).outcome start).state.output
  state : ran.state = ((Run.executeAll before).outcome start).state.goTo c.line

section Scripts

variable {r : Runner} {found : World} {text : Text}

/-- Nothing is executed of a text that is malformed. -/
theorem runText_of_malformed {fault : Fault} (h : Malformed text fault) (s : RunState) :
    (Run.runText text).outcome s = ⟨some (.script fault), s⟩ := by
  rw [Run.outcome, Run.runText, parse_of_malformed h]
  rfl

theorem runText_of_parse {commands : List Command} (h : parse text = .ok commands)
    (s : RunState) : (Run.runText text).outcome s = (Run.run commands).outcome s := by
  rw [Run.runText, h]

/-- The run of a script that stumbles halts where it stumbles first. -/
theorem run_haltsAt (hfresh : r.Fresh found) {commands before : List Command} {c : Command}
    {e : Error} (hparse : parse text = .ok commands)
    (h : FirstStumble (found.optionsOf r.environment) commands before c e) :
    (r.run text found).HaltsAt { world := found, runner := r } before c e := by
  obtain ⟨⟨after, rfl⟩, hpasses, hstumbles⟩ := h
  obtain ⟨hexecuted, hran, hdepth⟩ :=
    Run.run_of_stumbles hfresh hpasses hstumbles (name_ne_nil_of_parse hparse)
  rw [← runText_of_parse hparse] at hran
  constructor
  case executed => exact hexecuted
  case error => exact congrArg Outcome.error? hran
  case kind => exact hstumbles.kind_eq
  case line => exact congrArg (·.state.runner.line) hran
  case depth =>
    rw [Runner.run, hran]
    exact hdepth
  case output => exact congrArg (·.state.output) hran
  case state => exact congrArg Outcome.state hran

/-- A script halts at a malformed line, or at a command that stumbles, or nowhere. -/
theorem halting_cases (options : Options) (text : Text) :
    (∃ fault, Malformed text fault) ∨ ∃ commands, parse text = .ok commands ∧
      (Passes options commands ∨ ∃ before c e, FirstStumble options commands before c e) := by
  rcases malformed_or_asks text with hmalformed | ⟨asked, -, hparse⟩
  · exact .inl hmalformed
  · refine .inr ⟨_, hparse, ?_⟩
    rcases passes_or_stumbles options (commandsFrom 1 asked) with
      hpasses | ⟨before, c, after, e, hparted, hpasses, hstumbles⟩
    · exact .inl hpasses
    · exact .inr ⟨before, c, e, ⟨after, hparted⟩, hpasses, hstumbles⟩

end Scripts

theorem optionsOf_freshWorld (options : Options) (log : Log) (metrics : Metrics) :
    (freshWorld options log metrics).optionsOf scriptRunner.environment = options :=
  Std.ExtTreeMap.getD_insert_self

end Script

/-! ## Script files -/

open CommandLine Script

/-- A script file was given up at a line: the exit status says so, and a single message that names
    the script and the line. -/
structure Progress.GivenUp (done : Progress) (settings : Settings) (name : Text) (line : Nat) :
    Prop where
  exit : (done.conclude settings).exit = 2
  message : ∃ complaint reason,
    done.diagnostics.filter Diagnostic.isMessage = [.complaint complaint] ∧
      complaint.text = ("labelkit: " : Text) ++ (name ++ (": line " : Text) ++ Text.ofNat line ++
        (": " : Text) ++ reason) ++ [Text.newline]

/-- A script file got through. -/
structure Progress.GotThrough (done : Progress) (settings : Settings) : Prop where
  exit : (done.conclude settings).exit = 0
  silent : done.diagnostics.filter Diagnostic.isMessage = []

section Files

variable (settings : Settings) (name : Text) {ran : Outcome}

/-- A run that failed is reported at the line of the fault, or at that of the runner. -/
theorem Script.Outcome.givenUp {e : Error} (h : ran.error? = some e) :
    (ran.progress name).GivenUp settings name (e.line?.getD ran.state.runner.line) where
  exit := by
    rw [progress, Progress.conclude, h]
    rfl
  message := by
    refine ⟨.failed name ran.state.runner.line e, e.reason, ?_, Complaint.text_failed name _ e⟩
    rw [messages_progress, complaints, h]
    rfl

theorem Script.Outcome.gotThrough (h : ran.error? = none) :
    (ran.progress name).GotThrough settings where
  exit := by
    rw [progress, Progress.conclude, h]
    rfl
  silent := by
    rw [messages_progress, complaints, h]
    rfl

end Files

/-- Where a script halts in a fresh environment, and with what. If a line is malformed, the first
    such line is the fault, and nothing was executed. Otherwise the commands stand on the lines that
    ask for them, and the run gets through if none of them stumbles. If one does, the first one is
    where the run halts. In both cases a script file is given up with one message about that line.
    One of these cases applies to every text; printing or setting back a counter, or naming the
    active scope, never fails. -/
theorem script_halts (text : Text) :
    (∀ options log metrics,
      let start : RunState := { world := freshWorld options log metrics, runner := scriptRunner }
      let ran := scriptRunner.run text start.world
      (∀ fault, Malformed text fault → ran = ⟨some (.script fault), start⟩) ∧
      ∀ commands, parse text = .ok commands →
        (∀ c ∈ commands, ∃ i line, text.lines[i]? = some line ∧ c.line = i + 1 ∧
          Asks line (some c.verb)) ∧
        (Passes options commands → ran.error? = none) ∧
        (∀ before c e, FirstStumble options commands before c e →
          ran.HaltsAt start before c e) ∧
        ∀ a ∈ Run.attempts commands start,
          a.command.verb.keyword = .uid ∨ a.command.verb.keyword = .reset ∨
            a.command.verb.keyword = .current → a.outcome.error? = none) ∧
    (∀ settings metrics name,
      let done := runSource settings metrics name (.ok text)
      (∀ fault, Malformed text fault → done.GivenUp settings name fault.line) ∧
      ∀ commands, parse text = .ok commands →
        (Passes settings.labelOptions commands → done.GotThrough settings) ∧
        ∀ before c e, FirstStumble settings.labelOptions commands before c e →
          done.GivenUp settings name c.line) ∧
    ∀ options, (∃ fault, Malformed text fault) ∨ ∃ commands, parse text = .ok commands ∧
      (Passes options commands ∨ ∃ before c e, FirstStumble options commands before c e) := by
  refine ⟨fun options log metrics => ⟨?unread, ?read⟩,
    fun settings metrics name => ⟨?fileUnread, ?fileRead⟩, fun options =>
      halting_cases options text⟩
  case unread =>
    intro fault h
    exact runText_of_malformed h _
  case read =>
    intro commands hparse
    have hfresh := freshWorld_fresh options log metrics
    have hoptions := optionsOf_freshWorld options log metrics
    refine ⟨fun c hc => line_of_parse hparse hc, fun hpasses => ?_, fun before c e h => ?_,
      fun a ha hverb => Run.attempt_of_counter hfresh ha hverb⟩
    · have herror := Run.run_of_passes hfresh (hoptions ▸ hpasses) (name_ne_nil_of_parse hparse)
      rwa [← runText_of_parse hparse] at herror
    · exact run_haltsAt hfresh hparse (hoptions ▸ h)
  case fileUnread =>
    intro fault h
    exact Outcome.givenUp settings name (congrArg Outcome.error? (runText_of_malformed h _))
  case fileRead =>
    -- the world of a script file is fresh as well, whatever was counted before
    intro commands hparse
    have hfresh := freshWorld_fresh settings.labelOptions { threshold := settings.logLevel } metrics
    have hoptions :=
      optionsOf_freshWorld settings.labelOptions { threshold := settings.logLevel } metrics
    refine ⟨fun hpasses => ?_, fun before c e h => ?_⟩
    · have herror := Run.run_of_passes hfresh (hoptions ▸ hpasses) (name_ne_nil_of_parse hparse)
      rw [← runText_of_parse hparse] at herror
      exact Outcome.gotThrough settings name herror
    · have hhalts := run_haltsAt hfresh hparse (hoptions ▸ h)
      have hgiven := Outcome.givenUp settings name hhalts.error
      rwa [hhalts.line, h.stumbles.line_eq] at hgiven

end ScopedLabels
