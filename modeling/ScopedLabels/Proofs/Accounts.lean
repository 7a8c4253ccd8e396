import ScopedLabels.Proofs.Books
import ScopedLabels.Proofs.Frames

/-!
# Accounts — what a script comes to in the metrics

Every command books what it does, and whatever a script leaves open is closed when its runner is,
at the latest. So once the runner is closed, nothing is open, and there are as many exits as there
were entries, whether the script got through or failed. What is in the metrics can then be told
from the commands that were executed (`tallyOf`), and so can the warnings (`script_accounts`).
-/

namespace ScopedLabels.Script

/-! ## Counting commands -/

/-- The command did what it asks for. -/
def Attempt.succeeded (a : Attempt) : Bool :=
  a.outcome.error?.isNone

/-- The command opens a scope or prints a label. -/
def Command.enters (c : Command) : Bool :=
  c.verb.keyword = .scope ∨ c.verb.keyword = .label

/-- The command opens a scope, or prints a label, without a name. -/
def Command.nameless (c : Command) : Bool :=
  c.verb = .scope none ∨ c.verb = .label none

/-- How many of some commands opened a scope, or printed a label, without a name while their runner
    had nothing open. -/
def globalCount (executed : List Attempt) : Nat :=
  executed.countP fun a => a.command.nameless && a.before.runner.depth == 0

/-- What some commands that were executed come to in the metrics. What they leave open is closed
    later. -/
def tallyOf (executed : List Attempt) : Tally :=
  let entered : UInt64 := .ofNat (executed.countP (·.command.enters))
  { scopesEntered := entered
    scopesExited := entered
    labelsGenerated := .ofNat (executed.countP (·.command.verb.keyword = .label))
    globalFallbacks := .ofNat (globalCount executed) }

namespace Attempt

variable (a : Attempt)

/-- A command books an entry if it opened a scope or made a label, and got through. -/
theorem count_booked_entered :
    a.booked.count .scopesEntered = if a.command.enters && a.succeeded then 1 else 0 := by
  rw [booked, succeeded, Command.enters]
  cases a.outcome.error? <;> cases a.command.verb <;> cases a.fallsBack <;> rfl

/-- A command books a label if it made one. -/
theorem count_booked_labels :
    a.booked.count .labelsGenerated =
      if a.command.verb.keyword = .label && a.succeeded then 1 else 0 := by
  rw [booked, succeeded]
  cases a.outcome.error? <;> cases a.command.verb <;> cases a.fallsBack <;> rfl

/-- Where nothing was found, a command falls back if it is executed without a name while its runner
    has nothing open. -/
theorem fallsBack_of_brackets
    (h : a.before.runner.Brackets a.before.world []) :
    a.fallsBack = (a.command.nameless && a.before.runner.depth == 0 && a.succeeded) := by
  have hactive : (a.before.world.activeValues a.before.runner.environment).isEmpty =
      (a.before.runner.depth == 0) := by
    rw [h.active, List.append_nil, Runner.openValues]
    cases a.before.runner.depth <;> simp [List.range_succ]
  rw [fallsBack, succeeded, Command.nameless, hactive]
  rcases a.outcome.error? with - | e
  · rcases a.command.verb with (- | name) | - | (- | name) | counter | counter | - <;> simp
  · rw [Option.isNone_some, Bool.and_false]
    split <;> first | rfl | contradiction

end Attempt

/-- What each command books of an event adds up to how many commands book it. -/
theorem count_booked {attempts : List Attempt} {metric : Metric} {p : Attempt → Bool}
    (h : ∀ a ∈ attempts, a.booked.count metric = if p a && a.succeeded then 1 else 0) :
    (attempts.flatMap Attempt.booked).count metric =
      (attempts.filter Attempt.succeeded).countP p := by
  induction attempts with
  | nil => rfl
  | cons a rest ih =>
      rw [List.flatMap_cons, List.count_append, h a List.mem_cons_self,
        ih fun b hb => h b (List.mem_cons_of_mem a hb), List.countP_filter, List.countP_filter,
        List.countP_cons, Nat.add_comm]

/-! ## Accounts of a run -/

/-- The accounts of a run in an environment, by the commands that it got to, once its runner is
    closed. -/
structure Outcome.Accounts (ran : Outcome) (found : World) (environment : Environment)
    (tried : List Attempt) : Prop where
  /-- Metrics that were switched on and empty hold what the commands come to that were executed. -/
  counted : found.metrics = { enabled := true } →
    (ran.state.runner.close ran.state.world).state.world.metrics =
      { enabled := true, tally := tallyOf (tried.filter Attempt.succeeded) }
  /-- There was a warning for each fall back, if warnings are wanted and admitted. -/
  warned : (found.optionsOf environment).warnOnGlobalFallback = true →
    found.log.threshold.rank ≤ Level.warning.rank →
    (ran.state.runner.close ran.state.world).state.world.log.fallbackWarnings =
      found.log.fallbackWarnings + globalCount (tried.filter Attempt.succeeded)
  /-- Metrics that were switched off never move. -/
  uncounted : found.metrics.enabled = false →
    (∀ a ∈ tried, a.before.world.metrics = found.metrics ∧
      a.outcome.state.world.metrics = found.metrics) ∧
    ran.state.world.metrics = found.metrics ∧
    (ran.state.runner.close ran.state.world).state.world.metrics = found.metrics

namespace Run

variable {found : List Value} {s : RunState}

/-- A run goes on to each of its commands from a state in which its scopes are on top of what was
    found, and books have been kept up to there. -/
theorem books_before {commands : List Command} (hs : s.runner.Brackets s.world found) {a : Attempt}
    (ha : a ∈ attempts commands s) :
    ∃ t events, t.runner.Brackets t.world found ∧ RunState.Books events s t ∧
      a = attempt a.command t := by
  let P (t : RunState) : Prop :=
    t.runner.Brackets t.world found ∧ ∃ events, RunState.Books events s t
  have hstep : ∀ {command : Command} {t u : RunState}, P t →
      (attempt command t).outcome = ⟨none, u⟩ → P u := by
    rintro command t u ⟨ht, events, hevents⟩ houtcome
    have hkept := attempt_kept command ht
    have hbooks := attempt_books command ht
    rw [houtcome] at hkept hbooks
    exact ⟨hkept.brackets, _, hevents.trans hbooks⟩
  obtain ⟨t, ⟨ht, events, hevents⟩, heq⟩ := attempts_invariant hstep ⟨hs, _, .refl s⟩ ha
  exact ⟨t, events, ht, hevents, heq⟩

/-- While counting is switched off, no command counts anything. -/
theorem attempts_uncounted {commands : List Command} (hs : s.runner.Brackets s.world found)
    (hdisabled : s.world.metrics.enabled = false) {a : Attempt} (ha : a ∈ attempts commands s) :
    a.before.world.metrics = s.world.metrics ∧
      a.outcome.state.world.metrics = s.world.metrics := by
  obtain ⟨t, events, ht, hevents, heq⟩ := books_before hs ha
  have hbooks := hevents.trans (attempt_books a.command ht)
  rw [← heq] at hbooks
  have hbefore : a.before.world.metrics = t.world.metrics := by
    rw [heq]
    rfl
  rw [hbefore, hevents.world.metrics, hbooks.world.metrics,
    Metrics.foldl_disabled _ _ hdisabled, Metrics.foldl_disabled _ _ hdisabled]
  exact ⟨rfl, rfl⟩

/-- A run that begins where nothing is active falls back at the commands without a name that it
    executes while it has nothing open. -/
theorem count_fallbacks {commands : List Command} (hs : s.runner.Brackets s.world []) :
    ((attempts commands s).flatMap Attempt.booked).count .globalFallbacks =
      globalCount ((attempts commands s).filter Attempt.succeeded) := by
  refine count_booked fun a ha => ?_
  obtain ⟨t, -, ht, -, heq⟩ := books_before hs ha
  have hbrackets : a.before.runner.Brackets a.before.world [] := by
    rw [heq]
    exact ⟨ht.active, ht.standing⟩
  rw [a.count_booked_fallbacks, a.fallsBack_of_brackets hbrackets]

/-- A run that begins with nothing open and nothing active has its accounts in order. -/
theorem run_accounts (commands : List Command) (hs : s.runner.Brackets s.world [])
    (hdepth : s.runner.depth = 0) :
    ((run commands).outcome s).Accounts s.world s.runner.environment (attempts commands s) := by
  let ran := (run commands).outcome s
  let left := (ran.state.runner.close ran.state.world).state
  let executed := (attempts commands s).filter Attempt.succeeded
  obtain ⟨hend, exits, hclosed⟩ := closed_books commands hs
  obtain ⟨events, hevents⟩ : ∃ events, events = (attempts commands s).flatMap Attempt.booked ++
    List.replicate exits .scopesExited := ⟨_, rfl⟩
  have hleft : RunState.Books events s left := hevents ▸ hclosed
  -- what the commands booked is told by their verbs, except for the exits, which balance the
  -- entries
  have hentered : events.count .scopesEntered = executed.countP (·.command.enters) := by
    rw [hevents, List.count_append, List.count_replicate]
    exact count_booked fun a _ => a.count_booked_entered
  have hexited : events.count .scopesExited = events.count .scopesEntered := by
    have hbalance := hleft.depth
    rwa [hend, hdepth, Nat.zero_add, Nat.zero_add] at hbalance
  have hlabels : events.count .labelsGenerated =
      executed.countP (·.command.verb.keyword = .label) := by
    rw [hevents, List.count_append, List.count_replicate]
    exact count_booked fun a _ => a.count_booked_labels
  have hfallbacks : events.count .globalFallbacks = globalCount executed := by
    rw [hevents, List.count_append, List.count_replicate]
    exact count_fallbacks hs
  constructor
  case counted =>
    intro hmetrics
    have hfolded : left.world.metrics = events.foldl Metrics.count { enabled := true } := by
      rw [← hmetrics]
      exact hleft.world.metrics
    have htally : left.world.metrics.tally = tallyOf executed := by
      refine Tally.ext_get fun m => ?_
      rw [hfolded, Metrics.get_foldl _ _ rfl]
      cases m with
      | scopesEntered => rw [hentered]; exact UInt64.zero_add _
      | scopesExited => rw [hexited, hentered]; exact UInt64.zero_add _
      | labelsGenerated => rw [hlabels]; exact UInt64.zero_add _
      | globalFallbacks => rw [hfallbacks]; exact UInt64.zero_add _
    have henabled : left.world.metrics.enabled = true := by rw [hfolded, Metrics.enabled_foldl]
    rw [← htally, ← henabled]
  case warned =>
    intro hwanted hthreshold
    rw [← hfallbacks]
    exact hleft.world.warned ⟨hwanted, by simpa [Log.admits] using hthreshold⟩
  case uncounted =>
    intro hdisabled
    obtain ⟨_, hran⟩ := run_books commands hs
    refine ⟨fun a ha => attempts_uncounted hs hdisabled ha, ?_, ?_⟩
    · exact hran.world.metrics.trans (Metrics.foldl_disabled _ _ hdisabled)
    · exact hleft.world.metrics.trans (Metrics.foldl_disabled _ _ hdisabled)

end Run

/-- The accounts of a script in a fresh environment are in order once its runner is closed, whether
    it got through or failed at a line or a command. What was entered was left again, and is what
    the commands that were executed come to: an entry and an exit for each scope and each label, the
    labels, and the fall backs, which are those without a name while the runner had nothing open.
    So it is for a list of commands, for a text that is read, and for one that is malformed, of
    which nothing is executed. -/
theorem script_accounts {r : Runner} {found : World} (hfresh : r.Fresh found) :
    let start : RunState := { world := found, runner := r }
    (∀ commands, ((Run.run commands).outcome start).Accounts found r.environment
      (Run.attempts commands start)) ∧
    ∀ text,
      (∀ commands, parse text = .ok commands →
        (r.run text found).Accounts found r.environment (Run.attempts commands start)) ∧
      ∀ fault, parse text = .error fault → (r.run text found).Accounts found r.environment [] := by
  intro start
  have hstart : start.runner.Brackets start.world [] := by
    rw [← hfresh.inactive]
    exact .start hfresh.depth found
  have hrun (commands : List Command) := Run.run_accounts commands hstart hfresh.depth
  refine ⟨hrun, fun text => ⟨fun commands hparse => ?_, fun fault hparse => ?_⟩⟩
  · have hran : r.run text found = (Run.run commands).outcome start := by
      rw [Runner.run, Run.runText, hparse]
    rw [hran]
    exact hrun commands
  · -- the runner is left as one that was given no command
    have hnone := hrun []
    have hfinish : (Run.run []).outcome start = ⟨none, start⟩ := by
      have hdepth : start.runner.depth = 0 := hfresh.depth
      simp only [Run.outcome, Run.run, Run.finish, bind_apply, get_apply, if_pos hdepth,
        pure_apply]
    have hran : r.run text found = ⟨some (.script fault), start⟩ := by
      rw [Runner.run, Run.runText, hparse]
      rfl
    rw [hfinish] at hnone
    rw [hran]
    exact ⟨hnone.counted, hnone.warned, hnone.uncounted⟩

/-- Of these seven commands the last one fails. Two of the others fall back: the first, and the
    label outside every scope. -/
theorem script_accounts_failed :
    let commands : List Command := [⟨.scope none, 1⟩, ⟨.label none, 2⟩, ⟨.label (some "x"), 3⟩,
      ⟨.leave, 4⟩, ⟨.label none, 5⟩, ⟨.scope (some "a"), 6⟩, ⟨.scope (some "b/c"), 7⟩]
    let log : Log := { threshold := .info, sink := .capture }
    let found := freshWorld { warnOnGlobalFallback := true } log { enabled := true }
    let ran := (Run.run commands).outcome { world := found, runner := scriptRunner }
    let left := (ran.state.runner.close ran.state.world).state.world
    scriptRunner.Fresh found ∧ ran.error? = some (.invalidName (.slash "b/c")) ∧
      ran.state.runner.depth = 1 ∧
      left.metrics = { enabled := true, tally := ⟨5, 5, 3, 2⟩ } ∧
      left.log.fallbackWarnings = 2 := by
  intro commands log found ran left
  let tried := Run.attempts commands { world := found, runner := scriptRunner }
  have hfresh : scriptRunner.Fresh found := freshWorld_fresh _ _ _
  have hmetrics : found.metrics = { enabled := true } := rfl
  have hempty : found.log.fallbackWarnings = 0 := rfl
  have hwanted : (found.optionsOf scriptRunner.environment).warnOnGlobalFallback = true := by
    decide +kernel
  have hthreshold : found.log.threshold.rank ≤ Level.warning.rank := by decide +kernel
  have htally : tallyOf (tried.filter Attempt.succeeded) = ⟨5, 5, 3, 2⟩ := by decide +kernel
  have hglobal : globalCount (tried.filter Attempt.succeeded) = 2 := by decide +kernel
  have herror : ran.error? = some (.invalidName (.slash "b/c")) := by decide +kernel
  have hdepth : ran.state.runner.depth = 1 := by decide +kernel
  have haccounts := (script_accounts hfresh).1 commands
  subst left ran
  refine ⟨hfresh, herror, hdepth, ?_, ?_⟩
  · rw [haccounts.counted hmetrics, htally]
  · rw [haccounts.warned hwanted hthreshold, hglobal, hempty]

end ScopedLabels.Script
