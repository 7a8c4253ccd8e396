import ScopedLabels.Proofs.Brackets
import ScopedLabels.Proofs.Resumption

/-!
# Closing — the end of a script stands for the `end` commands that are missing

What a script leaves open is closed at its end. That is done by other code than an `end` is, and it
logs a warning, but for every scope it comes to the same: both release the scope and then destroy
it (`closeScopes_noted`). So a script that leaves scopes open, followed by another on the same
runner, is the single script that has the missing `end` commands in between
(`run_closing_eq_leaves`).

The two are not at the same lines meanwhile, the second script begins with nothing printed, and the
warning stays in the log for good. `Noted` relates worlds, and runs, that differ in this way. No
operation reads the log, so the relation is one that runs keep.
-/

namespace ScopedLabels

/-! ## One more record in the log -/

/-- The second log is the first with some records more, on top of those of an earlier time. -/
structure Log.Noted (extra earlier : List (Sink × Record)) (one two : Log) : Prop where
  threshold : two.threshold = one.threshold
  sink : two.sink = one.sink
  written : ∃ later, one.written = later ++ earlier ∧ two.written = later ++ (extra ++ earlier)

/-- The second world is the first with some records more in its log. -/
def World.Noted (extra earlier : List (Sink × Record)) (w v : World) : Prop :=
  ∃ log, v = { w with log } ∧ w.log.Noted extra earlier log

/-- The record that a log takes in when one is written, if it passes the threshold. -/
def Log.admitted (log : Log) (level : Level) (notice : Notice) : List (Sink × Record) :=
  if Log.admits log.threshold level then [(log.sink, ⟨level, notice⟩)] else []

variable {extra earlier : List (Sink × Record)}

/-- Writing to a log puts what is admitted on top. -/
theorem Log.write_eq (log : Log) (level : Level) (notice : Notice) :
    log.write level notice =
      { log with written := log.admitted level notice ++ log.written } := by
  rw [write, admitted]
  split <;> rfl

/-- A record is written to both logs or to neither, since they have one threshold. -/
theorem Log.Noted.write {one two : Log} (h : one.Noted extra earlier two) (level : Level)
    (notice : Notice) :
    (one.write level notice).Noted extra earlier (two.write level notice) := by
  obtain ⟨later, hone, htwo⟩ := h.written
  have hadmitted : two.admitted level notice = one.admitted level notice := by
    rw [admitted, h.threshold, h.sink, admitted]
  rw [write_eq, write_eq, hadmitted]
  refine ⟨h.threshold, h.sink, one.admitted level notice ++ later, ?_, ?_⟩
  · rw [List.append_assoc, ← hone]
  · rw [List.append_assoc, ← htwo]

namespace World.Noted

variable {w v : World}

/-- Reporting keeps the worlds apart by the same records. -/
theorem report (h : w.Noted extra earlier v) (level : Level) (notice : Notice) :
    (w.report level notice).Noted extra earlier (v.report level notice) := by
  obtain ⟨log, rfl, hlog⟩ := h
  exact ⟨_, rfl, hlog.write level notice⟩

theorem count (h : w.Noted extra earlier v) (metric : Metric) :
    (w.count metric).Noted extra earlier (v.count metric) := by
  obtain ⟨log, rfl, hlog⟩ := h
  exact ⟨log, rfl, hlog⟩

/-- A fallback is reported on both sides or on neither. -/
theorem fallBack (h : w.Noted extra earlier v) (environment : Environment) :
    (w.fallBack environment).Noted extra earlier (v.fallBack environment) := by
  have hoptions : v.optionsOf environment = w.optionsOf environment := by
    obtain ⟨log, rfl, -⟩ := h
    rfl
  rw [World.fallBack, World.fallBack, hoptions]
  split
  · exact (h.report _ _).count _
  · exact h.count _

/-- No operation on scopes reads the log. -/
theorem parallel (extra earlier : List (Sink × Record)) :
    Parallel (World.Noted extra earlier) (fun _ => True) fun _ => True where
  scope? h _ := by
    obtain ⟨log, rfl, -⟩ := h
    rfl
  home _ _ _ := trivial
  stack h _ := by
    obtain ⟨log, rfl, -⟩ := h
    rfl
  active _ _ _ := trivial
  registry h _ := by
    obtain ⟨log, rfl, -⟩ := h
    rfl
  modifyRegistry f h _ := by
    obtain ⟨log, rfl, hlog⟩ := h
    exact ⟨log, rfl, hlog⟩
  push h _ _ := by
    obtain ⟨log, rfl, hlog⟩ := h
    exact ⟨log, rfl, hlog⟩
  dropTop h _ := by
    obtain ⟨log, rfl, hlog⟩ := h
    exact ⟨log, rfl, hlog⟩
  eraseAll id h _ := by
    obtain ⟨log, rfl, hlog⟩ := h
    exact ⟨log, rfl, hlog⟩
  addScope h _ _ := by
    obtain ⟨log, rfl, hlog⟩ := h
    exact ⟨log, rfl, hlog⟩
  dropScope h _ := by
    obtain ⟨log, rfl, hlog⟩ := h
    exact ⟨log, rfl, hlog⟩
  putScope h _ _ := by
    obtain ⟨log, rfl, hlog⟩ := h
    exact ⟨log, rfl, hlog⟩
  report h _ := h.report _ _
  count metric h := h.count metric
  fallBack h _ := h.fallBack _

/-- A new scope is described alike, since names are checked without the log. -/
theorem alike (origin : Origin) :
    origin.Alike (World.Noted extra earlier) fun _ => True := by
  intro w v h
  obtain ⟨log, rfl, -⟩ := h
  refine ⟨?_, fun _ _ => trivial⟩
  cases origin <;> rfl

end World.Noted

namespace Script

/-! ## Runs with one more record -/

/-- Two runs of one runner, the second with some records more in its log. It has not printed what
    was printed before, and may have come from another line unless the two are aligned. -/
structure RunState.Noted (extra earlier : List (Sink × Record)) (before : List Text)
    (aligned : Prop) (s t : RunState) : Prop where
  world : s.world.Noted extra earlier t.world
  runner : ∃ line, t.runner = { s.runner with line }
  line : aligned → t.runner.line = s.runner.line
  printed : s.printed = t.printed ++ before

namespace RunState.Noted

variable {before : List Text} {aligned : Prop} {s t : RunState}

theorem runner_eq (h : RunState.Noted extra earlier before aligned s t) (haligned : aligned) :
    t.runner = s.runner := by
  obtain ⟨line, hrunner⟩ := h.runner
  have hline : line = s.runner.line := by
    rw [← h.line haligned, hrunner]
  rw [hrunner, hline]

/-- Two runs that differ by what is noted act alike, and what they print is added to both. -/
theorem coupled (extra earlier : List (Sink × Record)) (before : List Text) (aligned : Prop) :
    Coupled (RunState.Noted extra earlier before aligned) (World.Noted extra earlier)
      (fun _ => True) fun _ => True where
  parallel := World.Noted.parallel extra earlier
  worlds h := h.world
  name h := by
    obtain ⟨line, hrunner⟩ := h.runner
    rw [hrunner]
  environment h := by
    obtain ⟨line, hrunner⟩ := h.runner
    rw [hrunner]
  depth h := by
    obtain ⟨line, hrunner⟩ := h.runner
    rw [hrunner]
  home _ := trivial
  opened _ _ := trivial
  act h hworld := { h with world := hworld }
  print line h := { h with printed := congrArg (line :: ·) h.printed }
  goTo line h := by
    obtain ⟨old, hrunner⟩ := h.runner
    refine ⟨h.world, ⟨line, ?_⟩, fun _ => rfl, h.printed⟩
    rw [goTo, goTo, hrunner]
  setDepth depth h := by
    obtain ⟨line, hrunner⟩ := h.runner
    refine ⟨h.world, ⟨line, ?_⟩, h.line, h.printed⟩
    rw [hrunner]

/-- No command reads what is noted. -/
theorem command_alike (command : Command) :
    command.Alike (World.Noted extra earlier) fun _ => True where
  scope _ _ _ _ := World.Noted.alike _
  label _ _ _ _ :=
    (World.Noted.parallel _ _).momentaryLabel_twinned trivial (World.Noted.alike _)

theorem outcome (h : RunState.Noted extra earlier before aligned s t) (commands : List Command) :
    ((Run.run commands).outcome t).error? = ((Run.run commands).outcome s).error? ∧
      RunState.Noted extra earlier before aligned ((Run.run commands).outcome s).state
        ((Run.run commands).outcome t).state := by
  refine Run.outcome_of_twinned ((coupled _ _ before aligned).run_twinned ?_) h
  intro command _
  exact command_alike command

/-- What the first printed stands in front of what both print. -/
theorem output (h : RunState.Noted extra earlier before aligned s t) :
    s.output = Text.unlines before.reverse ++ t.output := by
  rw [RunState.output, h.printed, List.reverse_append, RunState.output]
  exact List.flatMap_append

end RunState.Noted

namespace Run

/-! ## Closing by commands, and at the end -/

/-- Where a runner is does not matter if it goes on to a command. -/
theorem outcome_goTo {commands : List Command} (hne : commands ≠ []) (s : RunState) (line : Nat) :
    (run commands).outcome (s.goTo line) = (run commands).outcome s := by
  cases commands with
  | nil => exact absurd rfl hne
  | cons command rest => rw [outcome_cons, outcome_cons]; rfl

/-- Executing commands keeps up the bracket. -/
theorem executeAll_stays {found : List Value} (commands : List Command) :
    Keeps (Stays found) (executeAll commands) := by
  induction commands with
  | nil => exact .pure ()
  | cons command rest ih =>
      refine .bind (.modify fun s hs => ?_) fun _ => .bind (execute_stays command) fun _ => ih
      exact ⟨rfl, rfl, ⟨hs.active, hs.standing⟩, .refl _⟩

/-- As many `end` commands as there are open scopes do what closing them does. -/
theorem closeScopes_noted {found : List Value} {ends : List Command} {before : List Text}
    {s t : RunState} (hends : ∀ c ∈ ends, c.verb = .leave)
    (hbrackets : s.runner.Brackets s.world found) (hdepth : ends.length = s.runner.depth)
    (h : RunState.Noted extra earlier before False s t) :
    ∃ u v, executeAll ends s = .ok () u ∧ closeScopes ends.length t = .ok () v ∧
      RunState.Noted extra earlier before False u v := by
  induction ends generalizing s t with
  | nil => exact ⟨s, t, rfl, rfl, h⟩
  | cons c rest ih =>
      have hverb : c.verb = .leave := hends c List.mem_cons_self
      have hgone : RunState.Noted extra earlier before False (s.goTo c.line) t := by
        obtain ⟨line, hrunner⟩ := h.runner
        refine ⟨h.world, ⟨line, ?_⟩, False.elim, h.printed⟩
        rw [RunState.goTo, hrunner]
      have hbrackets' : (s.goTo c.line).runner.Brackets (s.goTo c.line).world found :=
        ⟨hbrackets.active, hbrackets.standing⟩
      -- the brackets make the exit succeed, and the other side closes the same scope
      obtain ⟨s', hclose, hkept, hdepth'⟩ := closeScope_apply hbrackets' hdepth.symm
      have hmatched := (RunState.Noted.coupled extra earlier before False).closeScope_twinned
        rest.length _ _ hgone
      rw [hclose] at hmatched
      generalize htwo : closeScope rest.length t = two at hmatched
      cases hmatched with
      | @ok _ _ t' _ hnoted =>
          obtain ⟨u, v, hexecuted, hclosed, huv⟩ :=
            ih (fun d hd => hends d (List.mem_cons_of_mem c hd)) hkept.brackets hdepth'.symm hnoted
          have hexecute : execute c (s.goTo c.line) = .ok () s' := by
            have hsucc : (s.goTo c.line).runner.depth = rest.length + 1 := hdepth.symm
            simp only [execute, bind_apply, get_apply, hverb, hsucc, hclose]
          refine ⟨u, v, ?_, ?_, huv⟩
          · rw [executeAll_cons, hexecute]
            exact hexecuted
          · rw [List.length_cons, closeScopes, bind_apply, htwo]
            exact hclosed

/-- The warning that is logged at the end of a script, if scopes are left open and warnings are
    logged. -/
def closingWarning (s : RunState) : List (Sink × Record) :=
  if 0 < s.runner.depth ∧ Log.admits s.world.log.threshold .warning then
    [(s.world.log.sink, ⟨.warning, .leftOpen s.runner.depth⟩)]
  else []

/-- The end of a script comes to the `end` commands that are missing, but for its warning. -/
theorem finish_noted {found : List Value} {ends : List Command} {reached : RunState}
    (hends : ∀ c ∈ ends, c.verb = .leave)
    (hbrackets : reached.runner.Brackets reached.world found)
    (hcount : ends.length = reached.runner.depth) :
    ∃ u v, executeAll ends reached = .ok () u ∧ finish reached = .ok () v ∧
      RunState.Noted (closingWarning reached) reached.world.log.written [] False u v := by
  -- without open scopes there is no warning, and otherwise it is the one record more
  by_cases hdepth : reached.runner.depth = 0
  · have hnil : ends = [] := List.eq_nil_of_length_eq_zero (hcount.trans hdepth)
    have hnone : closingWarning reached = [] := by simp [closingWarning, hdepth]
    subst hnil
    rw [hnone]
    refine ⟨reached, reached, rfl, ?_, ⟨⟨_, rfl, rfl, rfl, [], rfl, rfl⟩,
      ⟨reached.runner.line, rfl⟩, False.elim, (List.append_nil _).symm⟩⟩
    simp only [finish, bind_apply, get_apply, if_pos hdepth, pure_apply]
  · let warned : RunState :=
      { reached with world := reached.world.report .warning (.leftOpen reached.runner.depth) }
    have hwritten : reached.world.log.admitted .warning (.leftOpen reached.runner.depth) =
        closingWarning reached := by
      simp [Log.admitted, closingWarning, Nat.pos_of_ne_zero hdepth]
    have hwarned : RunState.Noted (closingWarning reached) reached.world.log.written [] False
        reached warned := by
      refine ⟨⟨_, rfl, ?_⟩, ⟨reached.runner.line, rfl⟩, False.elim, (List.append_nil _).symm⟩
      rw [Log.write_eq, hwritten]
      exact ⟨rfl, rfl, [], rfl, rfl⟩
    obtain ⟨u, v, hexecuted, hclosed, huv⟩ := closeScopes_noted hends hbrackets hcount hwarned
    refine ⟨u, v, hexecuted, ?_, huv⟩
    rw [hcount] at hclosed
    simp only [finish, bind_apply, get_apply, if_neg hdepth, act, modify_apply, unwind]
    exact hclosed

/-- A script that leaves scopes open, and another one after it on the same runner, come to the
    single script that closes these scopes by `end` commands in between. What is different is the
    line that the runner is at, if the second script is empty, and, if there was a scope to close,
    one warning in the log that tells how many there were. It was written at the end of the first
    script, and is there if warnings are. -/
theorem run_closing_eq_leaves {w : World} {r : Runner} (hdepth : r.depth = 0)
    {xs ends : List Command}
    (hxs : ((executeAll xs).outcome { world := w, runner := r }).error? = none)
    (hends : ∀ c ∈ ends, c.verb = .leave)
    (hcount : ends.length =
      ((executeAll xs).outcome { world := w, runner := r }).state.runner.depth)
    (ys : List Command) :
    let start : RunState := { world := w, runner := r }
    let reached := ((executeAll xs).outcome start).state
    let first := (run xs).outcome start
    let second := (run ys).outcome { world := first.state.world, runner := first.state.runner }
    let single := (run (xs ++ ends ++ ys)).outcome start
    first.error? = none ∧ second.error? = single.error? ∧
      first.state.output ++ second.state.output = single.state.output ∧
      second.state.world = { single.state.world with log := second.state.world.log } ∧
      single.state.world.log.Noted (closingWarning reached) reached.world.log.written
        second.state.world.log ∧
      (∃ line, second.state.runner = { single.state.runner with line }) ∧
      (ys ≠ [] → second.state.runner = single.state.runner) := by
  intro start reached first second single
  have hreached : executeAll xs start = .ok () reached := apply_of_outcome hxs
  have hbrackets : reached.runner.Brackets reached.world (w.activeValues r.environment) := by
    have hkept := executeAll_stays xs start (.start hdepth w)
    rw [after_ok hreached] at hkept
    exact hkept.brackets
  obtain ⟨u, v, hexecuted, hfinish, hnoted⟩ := finish_noted hends hbrackets hcount
  have hfirst : first = ⟨none, v⟩ := by
    have hrun : run xs start = .ok () v := by
      rw [← List.append_nil xs, run_append, hreached]
      exact hfinish
    show Run.outcome _ _ = _
    rw [outcome, hrun]
  have hsingle : single = (run ys).outcome u := by
    show Run.outcome _ _ = _
    rw [outcome, run_append, executeAll_append, hreached]
    simp only [hexecuted]
    rfl
  -- the second script is read off a state that is aligned, if it has a command
  have hsecond : ∃ t, second = (run ys).outcome t ∧
      RunState.Noted (closingWarning reached) reached.world.log.written u.printed (ys ≠ [])
        u t := by
    obtain ⟨hworld, ⟨line, hrunner⟩, -, -⟩ := hnoted
    have hbegins : second = (run ys).outcome { world := v.world, runner := v.runner } := by
      simp only [second, hfirst]
    by_cases hempty : ys = []
    · refine ⟨_, hbegins, hworld, ⟨line, hrunner⟩, fun hne => absurd hempty hne, rfl⟩
    · rw [← outcome_goTo hempty _ u.runner.line] at hbegins
      refine ⟨_, hbegins, hworld, ⟨u.runner.line, ?_⟩, fun _ => rfl, rfl⟩
      rw [RunState.goTo, hrunner]
  obtain ⟨t, hsecond, haligned⟩ := hsecond
  obtain ⟨herror, hends⟩ := haligned.outcome ys
  rw [← hsecond, ← hsingle] at herror hends
  have houtput : first.state.output = Text.unlines u.printed.reverse := by
    rw [hfirst, hnoted.printed, List.append_nil]
    rfl
  obtain ⟨log', hworld, hlog⟩ := hends.world
  refine ⟨congrArg Outcome.error? hfirst, herror, ?_, ?_, ?_, hends.runner, hends.runner_eq⟩
  · rw [houtput, hends.output]
  · rw [hworld]
  · rw [hworld]
    exact hlog

/-- Below a scope that was active before, a script opens two scopes and leaves them open. The next
    script prints a label and fails. The single script prints the same three labels and fails at the
    same command, without the warning about the two scopes. -/
theorem run_closing_eq_leaves_two :
    let r : Runner := { name := "r", environment := .default }
    let xs : List Command :=
      [⟨.scope (some "b"), 1⟩, ⟨.label none, 2⟩, ⟨.scope none, 3⟩, ⟨.label none, 4⟩]
    let ends : List Command := [⟨.leave, 5⟩, ⟨.leave, 6⟩]
    let ys : List Command := [⟨.label none, 7⟩, ⟨.leave, 8⟩]
    let first := (run xs).outcome { world := occupiedWorld, runner := r }
    let second := (run ys).outcome { world := first.state.world, runner := first.state.runner }
    let single := (run (xs ++ ends ++ ys)).outcome { world := occupiedWorld, runner := r }
    second.error? = some (.script ⟨8, .endWithoutScope⟩) ∧
      first.state.output ++ second.state.output = Text.unlines ["a/b/1", "a/b/2/1", "a/1"] ∧
      single.state.world.log.written = [] ∧
      second.state.world.log.written = [(.standardError, ⟨.warning, .leftOpen 2⟩)] := by
  intro r xs ends ys first second single
  have hxs : ((executeAll xs).outcome { world := occupiedWorld, runner := r }).error? = none := by
    decide +kernel
  have hends : ∀ c ∈ ends, c.verb = .leave := by decide
  have hcount : ends.length =
      ((executeAll xs).outcome { world := occupiedWorld, runner := r }).state.runner.depth := by
    decide +kernel
  have hfails : single.error? = some (.script ⟨8, .endWithoutScope⟩) := by decide +kernel
  have hprints : single.state.output = Text.unlines ["a/b/1", "a/b/2/1", "a/1"] := by
    decide +kernel
  have hsilent : single.state.world.log.written = [] := by decide +kernel
  have hwarning : second.state.world.log.written =
      [(.standardError, ⟨.warning, .leftOpen 2⟩)] := by decide +kernel
  subst single second first
  obtain ⟨-, herror, houtput, -⟩ := run_closing_eq_leaves rfl hxs hends hcount ys
  exact ⟨herror.trans hfails, houtput.trans hprints, hsilent, hwarning⟩

end Run

end Script

end ScopedLabels
