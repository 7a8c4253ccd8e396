import ScopedLabels.Proofs.Brackets
import ScopedLabels.Proofs.Resumption

/-!
# Books — which events a command counts

The metrics are a book of events. `World.Books events` says that between two worlds exactly these
events were counted, and that each fall back among them was reported, if the world warns of it. Each
command books what it does (`Attempt.booked`): opening a scope is an entry, an `end` is an exit, a
label is an entry, a label and an exit, and either may be a fall back, which is when it comes without
a name while no scope is active (`Attempt.fallsBack`). A command that fails books nothing
(`attempt_books`).

Entries and exits are booked by different code. What ties them together is the depth of the runner:
it is the number of entries less the number of exits, from the first command on (`RunState.Books`).
-/

namespace ScopedLabels

/-! ## Counting events -/

namespace Metrics

variable (metrics : Metrics) (events : List Metric)

theorem enabled_foldl : (events.foldl count metrics).enabled = metrics.enabled := by
  induction events generalizing metrics with
  | nil => rfl
  | cons event rest ih => rw [List.foldl_cons, ih, enabled_count]

/-- While counting is switched on, a counter has as many more as there were events of it. -/
theorem get_foldl (h : metrics.enabled = true) (m : Metric) :
    (events.foldl count metrics).tally.get m =
      metrics.tally.get m + UInt64.ofNat (events.count m) := by
  induction events generalizing metrics with
  | nil => rw [List.foldl_nil, List.count_nil]; exact (UInt64.add_zero _).symm
  | cons event rest ih =>
      have henabled : (metrics.count event).enabled = true := (enabled_count _ _).trans h
      rw [List.foldl_cons, ih _ henabled, get_count _ _ _ h, List.count_cons]
      by_cases hm : m = event
      · subst hm
        rw [if_pos rfl, if_pos (beq_self_eq_true m), UInt64.ofNat_add, UInt64.add_assoc,
          UInt64.add_comm 1]
        rfl
      · rw [if_neg hm, if_neg fun heq => hm (eq_of_beq heq).symm, Nat.add_zero]

/-- While counting is switched off, nothing is counted. -/
theorem foldl_disabled (h : metrics.enabled = false) : events.foldl count metrics = metrics := by
  induction events with
  | nil => rfl
  | cons event rest ih => rw [List.foldl_cons, count_disabled _ _ h, ih]

end Metrics

/-! ## Warnings -/

/-- What is reported of a fall back to global numbering. -/
def Record.fallback : Record :=
  ⟨.warning, .globalFallback⟩

namespace Log

/-- How often a fall back was reported, to whatever sink. -/
def fallbackWarnings (log : Log) : Nat :=
  log.written.countP fun entry => entry.2 = .fallback

/-- Only a report of falling back adds to these reports. -/
theorem fallbackWarnings_write (log : Log) {level : Level} {notice : Notice}
    (hrecord : (⟨level, notice⟩ : Record) ≠ .fallback) :
    (log.write level notice).fallbackWarnings = log.fallbackWarnings := by
  rw [write]
  split
  · exact List.countP_cons_of_neg (by simpa using hrecord)
  · rfl

/-- A log that was gone on with: it drops the same records as before, and whatever it took in since
    then went to the sink that it still has. -/
structure Continues (old log : Log) : Prop where
  threshold : log.threshold = old.threshold
  sink : log.sink = old.sink
  written : ∃ later, log.written = later ++ old.written ∧ ∀ entry ∈ later, entry.1 = old.sink

namespace Continues

variable {old log next : Log}

theorem refl (log : Log) : Continues log log where
  threshold := rfl
  sink := rfl
  written := ⟨[], rfl, fun _ hmem => absurd hmem List.not_mem_nil⟩

/-- What is gone on with twice took in what came first, and on top of it what came then. -/
theorem trans (h : Continues old log) (h' : Continues log next) : Continues old next where
  threshold := h'.threshold.trans h.threshold
  sink := h'.sink.trans h.sink
  written := by
    obtain ⟨first, hfirst, hfirstSink⟩ := h.written
    obtain ⟨second, hsecond, hsecondSink⟩ := h'.written
    refine ⟨second ++ first, ?_, ?_⟩
    · rw [hsecond, hfirst, List.append_assoc]
    · intro entry hmem
      rcases List.mem_append.mp hmem with hmem | hmem
      · rw [hsecondSink entry hmem, h.sink]
      · exact hfirstSink entry hmem

/-- Writing a record goes on with a log, whether the record is dropped or not. -/
theorem write (log : Log) (level : Level) (notice : Notice) :
    Continues log (log.write level notice) := by
  rw [Log.write]
  split
  · refine ⟨rfl, rfl, [(log.sink, ⟨level, notice⟩)], rfl, ?_⟩
    intro entry hmem
    rw [List.mem_singleton.mp hmem]
  · exact refl log

end Continues

end Log

namespace World

/-- The fall back, if there is one, of a scope of that name, or of none, that is to be entered. -/
def fallbackOf (w : World) (environment : Environment) (name : Option Text) : List Metric :=
  if name = none ∧ w.activeValues environment = [] then [.globalFallbacks] else []

/-- The world writes it to its log when an environment falls back. -/
structure Warns (w : World) (environment : Environment) : Prop where
  wanted : (w.optionsOf environment).warnOnGlobalFallback = true
  admitted : Log.admits w.log.threshold .warning = true

/-! ## Books of worlds -/

/-- From one world to the other, these events were counted, and the fall backs among them were
    reported. What decides about both is the same. -/
structure Books (environment : Environment) (events : List Metric) (w v : World) : Prop where
  options : v.options = w.options
  log : w.log.Continues v.log
  metrics : v.metrics = events.foldl Metrics.count w.metrics
  warned : w.Warns environment →
    v.log.fallbackWarnings = w.log.fallbackWarnings + events.count .globalFallbacks

namespace Books

variable {environment : Environment} {w v u : World} {events more : List Metric}

/-- A world that warns still does so after what is booked. -/
theorem warns (h : Books environment events w v) (hwarns : w.Warns environment) :
    v.Warns environment where
  wanted := by
    rw [optionsOf, h.options]
    exact hwarns.wanted
  admitted := by rw [h.log.threshold, hwarns.admitted]

theorem trans (h : Books environment events w v) (h' : Books environment more v u) :
    Books environment (events ++ more) w u where
  options := h'.options.trans h.options
  log := h.log.trans h'.log
  metrics := by rw [h'.metrics, h.metrics, List.foldl_append]
  warned hwarns := by
    rw [h'.warned (h.warns hwarns), h.warned hwarns, List.count_append, Nat.add_assoc]

/-- Nothing is booked where options, log and metrics stay the same. -/
theorem of_eq (hoptions : v.options = w.options) (hlog : v.log = w.log)
    (hmetrics : v.metrics = w.metrics) : Books environment [] w v where
  options := hoptions
  log := by
    rw [hlog]
    exact .refl w.log
  metrics := hmetrics
  warned _ := by rw [hlog, List.count_nil, Nat.add_zero]

theorem refl (environment : Environment) (w : World) : Books environment [] w w :=
  .of_eq rfl rfl rfl

instance (environment : Environment) : IsPreorder World (Books environment []) where
  refl := refl environment
  trans _ _ _ := trans

/-- Another record is written, and nothing is counted. -/
theorem report {level : Level} {notice : Notice}
    (hrecord : (⟨level, notice⟩ : Record) ≠ .fallback) :
    Books environment [] w (w.report level notice) where
  options := rfl
  log := .write w.log level notice
  metrics := rfl
  warned _ := w.log.fallbackWarnings_write hrecord

theorem count {metric : Metric} (hmetric : metric ≠ .globalFallbacks) :
    Books environment [metric] w (w.count metric) where
  options := rfl
  log := .refl w.log
  metrics := rfl
  warned _ := by
    rw [List.count_cons_of_ne hmetric, List.count_nil, Nat.add_zero]
    rfl

/-- A fall back is booked and, if it is wanted, reported. -/
theorem fallBack (environment : Environment) (w : World) :
    Books environment [.globalFallbacks] w (w.fallBack environment) where
  options := (w.fallBack_sameScopes environment).options
  log := by
    rw [World.fallBack]
    split
    · exact .write w.log .warning .globalFallback
    · exact .refl w.log
  metrics := by
    rw [World.fallBack]
    split <;> rfl
  warned hwarns := by
    rw [World.fallBack, if_pos hwarns.wanted, List.count_singleton_self]
    show (w.log.write .warning .globalFallback).fallbackWarnings = _
    rw [Log.write, if_pos hwarns.admitted]
    exact List.countP_cons_of_pos rfl

/-- Entering a scope is booked as an entry. -/
theorem activate (w : World) (id : ScopeId) (scope : Scope) (parents : Path) (basename : Text) :
    Books environment [.scopesEntered] w (w.activate id scope parents basename) := by
  have hplaced : Books environment [] w
      (((w.putScope id (settled scope parents basename)).modifyStack scope.environment.contexts
        (·.push Scope.contextKey (.scope id))).modifyRegistry scope.environment.counters
          (·.zero (Path.text (parents ++ [basename])))) := .of_eq rfl rfl rfl
  exact (hplaced.trans (count (by decide))).trans (report (by simp [Record.fallback]))

/-- Leaving a scope is booked as an exit. -/
theorem deactivate (w : World) (id : ScopeId) (scope : Scope) :
    Books environment [.scopesExited] w (w.deactivate id scope) := by
  have hplaced : Books environment [] w
      ((w.putScope id { scope with entries := scope.entries - 1 }).modifyStack
        scope.environment.contexts (·.dropTop Scope.contextKey)) := .of_eq rfl rfl rfl
  exact (hplaced.trans (count (by decide))).trans (report (by simp [Record.fallback]))

/-- Making a label is booked as an entry, a label and an exit. -/
theorem labeled (w : World) (scope : Scope) (parents : Path) (basename : Text) :
    Books environment [.scopesEntered, .labelsGenerated, .scopesExited] w
      (w.labeled scope parents basename) := by
  let entered := w.activate .transient scope parents basename
  let counted := entered.count .labelsGenerated
  let left := counted.deactivate .transient (settled scope parents basename)
  have hentered : Books environment [.scopesEntered] w entered := activate w _ scope _ _
  have hcounted : Books environment [.labelsGenerated] entered counted := count (by decide)
  have hleft : Books environment [.scopesExited] counted left := deactivate counted _ _
  have hdropped : Books environment [] left (w.labeled scope parents basename) :=
    .of_eq rfl rfl rfl
  exact ((hentered.trans hcounted).trans hleft).trans hdropped

/-- Settling a new scope books a fall back if the scope is nameless and no scope is active. -/
theorem settle {id : ScopeId} {name : Option Text} {parents : Path} {basename : Text}
    (h : Scope.Settles { environment, place := .unresolved name }
      (w.addScope id { environment, place := .unresolved name }) parents basename v) :
    Books environment (w.fallbackOf environment name) w v := by
  let added := w.addScope id { environment, place := .unresolved name }
  have hadded : Books environment [] w added := .of_eq rfl rfl rfl
  have hsettled : Books environment (w.fallbackOf environment name) added v := by
    rw [fallbackOf]
    cases h with
    | again hplace => cases hplace
    | named hplace hcurrent habove hpath =>
        cases hplace
        exact .refl _ _
    | numbered hplace hcurrent habove hpath =>
        have hactive : w.activeValues environment ≠ [] := by
          intro hnone
          have hcurrent : w.current environment = .ok (some _) := hcurrent
          rw [World.current_eq, hnone] at hcurrent
          cases hcurrent
        rw [if_neg fun h => hactive h.2]
        exact .of_eq rfl rfl rfl
    | alone hplace hcurrent =>
        cases hplace
        exact .refl _ _
    | global hplace hcurrent =>
        have hnone : w.activeValues environment = [] := by
          have hcurrent : w.current environment = .ok none := hcurrent
          rw [World.current_eq] at hcurrent
          split at hcurrent
          · assumption
          · cases hcurrent
          · cases hcurrent
        cases hplace
        rw [if_pos ⟨rfl, hnone⟩]
        exact (fallBack environment _).trans (.of_eq rfl rfl rfl)
  exact hadded.trans hsettled

end Books

end World

namespace Script

/-! ## Books of runs -/

/-- From one state to the other, these events were booked, and the runner got as much deeper as
    there were more entries than exits. -/
structure RunState.Books (events : List Metric) (s t : RunState) : Prop where
  world : World.Books s.runner.environment events s.world t.world
  environment : t.runner.environment = s.runner.environment
  depth : t.runner.depth + events.count .scopesExited =
    s.runner.depth + events.count .scopesEntered

namespace RunState.Books

variable {s t u : RunState} {events more : List Metric}

theorem refl (s : RunState) : Books [] s s :=
  ⟨.refl _ _, rfl, rfl⟩

theorem trans (h : Books events s t) (h' : Books more t u) : Books (events ++ more) s u where
  world := h.world.trans (h.environment ▸ h'.world)
  environment := h'.environment.trans h.environment
  depth := by
    have hfirst := h.depth
    have hsecond := h'.depth
    rw [List.count_append, List.count_append]
    omega

instance : IsPreorder RunState (Books []) where
  refl := refl
  trans _ _ _ := trans

end RunState.Books

/-! ## What a command books -/

/-- The command fell back to global numbering: it opened a nameless scope, or printed a nameless
    label, while no scope was active. -/
def Attempt.fallsBack (a : Attempt) : Bool :=
  match a.command.verb, a.outcome.error? with
  | .scope none, none | .label none, none =>
    (a.before.world.activeValues a.before.runner.environment).isEmpty
  | _, _ => false

/-- A command that fails does not fall back. -/
theorem Attempt.fallsBack_of_error {a : Attempt} {e : Error} (h : a.outcome.error? = some e) :
    a.fallsBack = false := by
  rw [fallsBack, h]
  split <;> first | rfl | contradiction

/-- Whether a command that succeeded with a name, or with none, fell back. -/
theorem Attempt.fallsBack_of_ok {a : Attempt} {name : Option Text}
    (hverb : a.command.verb = .scope name ∨ a.command.verb = .label name)
    (hok : a.outcome.error? = none) :
    a.fallsBack =
      decide (name = none ∧ a.before.world.activeValues a.before.runner.environment = []) := by
  rw [fallsBack, hok]
  rcases hverb with hverb | hverb <;> rw [hverb] <;> cases name <;>
    cases a.before.world.activeValues a.before.runner.environment <;> rfl

/-- What a command books. -/
def Attempt.booked (a : Attempt) : List Metric :=
  match a.command.verb, a.outcome.error? with
  | .scope _, none =>
    (if a.fallsBack then [.globalFallbacks] else []) ++ [.scopesEntered]
  | .label _, none =>
    (if a.fallsBack then [.globalFallbacks] else []) ++
      [.scopesEntered, .labelsGenerated, .scopesExited]
  | .leave, none => [.scopesExited]
  | _, _ => []

/-- A command that fails books nothing. -/
theorem Attempt.booked_of_error {a : Attempt} {e : Error} (h : a.outcome.error? = some e) :
    a.booked = [] := by
  rw [booked, h]
  split <;> first | rfl | contradiction

/-- What a command that opens a scope, or prints a label, books when it succeeds. -/
theorem Attempt.booked_of_ok {a : Attempt} (hok : a.outcome.error? = none) (name : Option Text) :
    (a.command.verb = .scope name → a.booked =
      a.before.world.fallbackOf a.before.runner.environment name ++ [.scopesEntered]) ∧
    (a.command.verb = .label name → a.booked =
      a.before.world.fallbackOf a.before.runner.environment name ++
        [.scopesEntered, .labelsGenerated, .scopesExited]) := by
  constructor
  · intro hverb
    simp only [booked, hverb, hok, fallsBack_of_ok (.inl hverb) hok, World.fallbackOf,
      decide_eq_true_eq]
  · intro hverb
    simp only [booked, hverb, hok, fallsBack_of_ok (.inr hverb) hok, World.fallbackOf,
      decide_eq_true_eq]

/-- What falls back is booked as a fall back, and nothing else is. -/
theorem Attempt.count_booked_fallbacks (a : Attempt) :
    a.booked.count .globalFallbacks = if a.fallsBack then 1 else 0 := by
  cases herror : a.outcome.error? with
  | some e => rw [booked_of_error herror, fallsBack_of_error herror]; rfl
  | none =>
      rw [booked, herror]
      cases hverb : a.command.verb with
      | scope name | label name => cases a.fallsBack <;> rfl
      | leave | uid counter | reset counter | current => rw [fallsBack, hverb]; rfl

/-- Some commands have booked as many fall backs as there are commands among them that fell back,
    whatever exits were booked after them. -/
theorem count_fallbacks_booked (tried : List Attempt) (exits : Nat) :
    (tried.flatMap Attempt.booked ++ List.replicate exits Metric.scopesExited).count
        .globalFallbacks = tried.countP Attempt.fallsBack := by
  rw [List.count_append, List.count_replicate]
  induction tried with
  | nil => rfl
  | cons a rest ih =>
      rw [List.flatMap_cons, List.count_append, a.count_booked_fallbacks, List.countP_cons,
        Nat.add_assoc, ih, Nat.add_comm]

namespace Run

variable {found : List Value} {s : RunState}

theorem act_books {α : Type} {action : Action α}
    (haction : ∀ environment, Keeps (World.Books environment []) action) :
    Keeps (RunState.Books []) (act action) := by
  intro s
  have hworld := haction s.runner.environment s.world
  rw [after_act]
  exact ⟨hworld, rfl, rfl⟩

theorem print_books (line : Text) : Keeps (RunState.Books []) (print line) :=
  .modify fun _ => ⟨.refl _ _, rfl, rfl⟩

/-- Closing the scope that was opened last is an exit. -/
theorem closeScope_books {depth : Nat} (hs : s.runner.Brackets s.world found)
    (hdepth : s.runner.depth = depth + 1) :
    ∃ t, closeScope depth s = .ok () t ∧ RunState.Books [.scopesExited] s t ∧
      t.runner.Brackets t.world found ∧ t.runner.depth = depth := by
  obtain ⟨t, hclose, hkept, htdepth⟩ := closeScope_apply hs hdepth
  refine ⟨t, hclose, ?_, hkept.brackets, htdepth⟩
  have hrunner : s.runner = { s.runner with depth := depth + 1 } := by rw [← hdepth]
  rw [hrunner] at hs
  obtain ⟨scope, hscope, henvironment, hentries, hactive⟩ := hs.innermost
  have hclosed := ScopeId.close_apply hscope hentries (henvironment ▸ hactive)
  -- the state is the one that the brackets lead to
  have hstate : t.world = (s.world.deactivate (.opened s.runner.name depth) scope).dropScope
      (.opened s.runner.name depth) := by
    have hsteps : closeScope depth s =
        (do act (do (ScopeId.opened s.runner.name depth).release
                    (ScopeId.opened s.runner.name depth).destroy)
            modifyRunner fun r => { r with depth } : Run Unit) s := rfl
    rw [hsteps, bind_apply] at hclose
    simp only [act] at hclose
    rw [hclosed] at hclose
    cases hclose
    rfl
  refine ⟨?_, hkept.environment, ?_⟩
  · rw [hstate]
    exact (World.Books.deactivate _ _ _).trans (.of_eq rfl rfl rfl)
  · rw [htdepth, hdepth]
    rfl

/-- Closing all open scopes is an exit for each of them. -/
theorem closeScopes_books {depth : Nat} (hs : s.runner.Brackets s.world found)
    (hdepth : s.runner.depth = depth) :
    ∃ t, closeScopes depth s = .ok () t ∧
      RunState.Books (List.replicate depth .scopesExited) s t ∧ t.runner.depth = 0 := by
  induction depth generalizing s with
  | zero => exact ⟨s, rfl, .refl s, hdepth⟩
  | succ depth ih =>
      obtain ⟨t, hclose, ht, hbrackets, htdepth⟩ := closeScope_books hs hdepth
      obtain ⟨u, hrest, hu, hudepth⟩ := ih hbrackets htdepth
      refine ⟨u, ?_, ht.trans hu, hudepth⟩
      rw [closeScopes, bind_apply, hclose]
      exact hrest

/-- A scope that is opened is an entry, and perhaps a fall back. -/
theorem openScope_books (name : Option Text) (s : RunState) :
    (∃ e, openScope name s = .error e s) ∨ ∃ t, openScope name s = .ok () t ∧
      RunState.Books (s.world.fallbackOf s.runner.environment name ++ [.scopesEntered]) s t := by
  rcases openScope_cases name s with
    hfailed | ⟨scope, parents, basename, v, hmade, -, hsettles, hopened⟩
  · exact .inl hfailed
  · have hscope := Origin.scope_ofName? hmade
    subst hscope
    have hsettled := World.Books.settle hsettles
    refine .inr ⟨_, hopened, hsettled.trans (.activate v _ _ _ _), rfl, ?_⟩
    -- a fall back is neither an entry nor an exit
    rw [World.fallbackOf]
    split <;> simp

/-- A label is an entry, a label and an exit, and perhaps a fall back. -/
theorem label_books (name : Option Text) (s : RunState) :
    (∃ e, (do print (← act (s.runner.environment.momentaryLabel name)).text : Run Unit) s =
        .error e s) ∨
      ∃ t, (do print (← act (s.runner.environment.momentaryLabel name)).text : Run Unit) s =
        .ok () t ∧
      RunState.Books (s.world.fallbackOf s.runner.environment name ++
        [.scopesEntered, .labelsGenerated, .scopesExited]) s t := by
  rcases label_cases name s with
    hfailed | ⟨scope, parents, basename, v, hmade, -, hsettles, hprinted⟩
  · exact .inl hfailed
  · have hscope := Origin.scope_ofName? hmade
    subst hscope
    have hsettled := World.Books.settle hsettles
    refine .inr ⟨_, hprinted, hsettled.trans (.labeled v _ _ _), rfl, ?_⟩
    rw [World.fallbackOf]
    split <;> simp

/-- An `end` is an exit. -/
theorem leave_books {command : Command} (hverb : command.verb = .leave)
    (hs : s.runner.Brackets s.world found) :
    (∃ e, execute command s = .error e s) ∨
      ∃ t, execute command s = .ok () t ∧ RunState.Books [.scopesExited] s t := by
  rw [execute, bind_apply, get_apply]
  simp only [hverb]
  cases hdepth : s.runner.depth with
  | zero => exact .inl ⟨_, rfl⟩
  | succ depth =>
      obtain ⟨t, hclosed, hbooks, -⟩ := closeScope_books hs hdepth
      exact .inr ⟨t, hclosed, hbooks⟩

/-- Counters and the active scope are read without anything being booked. -/
theorem execute_books {command : Command} (hverb : command.verb.keyword = .uid ∨
    command.verb.keyword = .reset ∨ command.verb.keyword = .current) :
    Keeps (RunState.Books []) (execute command) := by
  refine .bind .get fun s => ?_
  simp only
  cases hcommand : command.verb with
  | scope name | leave | label name => simp [hcommand, Verb.keyword] at hverb
  | uid counter =>
      exact .bind (act_books fun _ w => .of_eq rfl rfl rfl) fun value => print_books _
  | reset counter => exact act_books fun _ => .modify fun w => .of_eq rfl rfl rfl
  | current =>
      refine .bind (act_books fun _ => .bind .get fun w => .ofExcept _) fun id? => ?_
      cases id? with
      | none => exact print_books _
      | some id =>
          refine .bind (act_books fun _ => .bind (.bind .get fun w => ?_) fun scope => .ofExcept _)
            fun path => print_books _
          cases w.scope? id with
          | none => exact .throw _
          | some scope => exact .pure scope

/-- A command that succeeds books what it does, and one that fails books nothing. -/
theorem attempt_books (command : Command) (hs : s.runner.Brackets s.world found) :
    RunState.Books (attempt command s).booked s (attempt command s).outcome.state := by
  let t := s.goTo command.line
  let a := attempt command s
  -- going on to the line books nothing, so all is booked from there
  have hgone : RunState.Books [] s t := ⟨.refl _ _, rfl, rfl⟩
  have ht : t.runner.Brackets t.world found := ⟨hs.active, hs.standing⟩
  suffices hbooks : RunState.Books a.booked t a.outcome.state from hgone.trans hbooks
  cases herror : a.outcome.error? with
  | some e =>
      rw [Attempt.booked_of_error herror, attempt_error herror]
      exact .refl t
  | none =>
      have hexecuted : execute command t = .ok () a.outcome.state := apply_of_outcome herror
      cases hverb : command.verb with
      | scope name =>
          rw [execute_scope hverb] at hexecuted
          rw [(Attempt.booked_of_ok herror name).1 hverb]
          rcases openScope_books name t with ⟨e, hfailed⟩ | ⟨u, hopened, hbooks⟩
          · cases hfailed.symm.trans hexecuted
          · cases hopened.symm.trans hexecuted
            exact hbooks
      | label name =>
          rw [execute_label hverb] at hexecuted
          rw [(Attempt.booked_of_ok herror name).2 hverb]
          rcases label_books name t with ⟨e, hfailed⟩ | ⟨u, hprinted, hbooks⟩
          · cases hfailed.symm.trans hexecuted
          · cases hprinted.symm.trans hexecuted
            exact hbooks
      | leave =>
          have hbooked : a.booked = [.scopesExited] := by
            simp only [Attempt.booked, herror, show a.command.verb = _ from hverb]
          rw [hbooked]
          rcases leave_books hverb ht with ⟨e, hfailed⟩ | ⟨u, hclosed, hbooks⟩
          · cases hfailed.symm.trans hexecuted
          · cases hclosed.symm.trans hexecuted
            exact hbooks
      | uid counter | reset counter | current =>
          have hbooked : a.booked = [] := by
            simp only [Attempt.booked, show a.command.verb = _ from hverb]
          have hbooks := @execute_books command (by simp [hverb, Verb.keyword]) t
          rw [after_ok hexecuted] at hbooks
          rw [hbooked]
          exact hbooks

/-- Closing a runner is an exit for each scope that it has open. -/
theorem close_books (hs : s.runner.Brackets s.world found) :
    RunState.Books (List.replicate s.runner.depth .scopesExited) s
      (s.runner.close s.world).state := by
  let t : RunState := { world := s.world, runner := s.runner }
  have ht : t.runner.Brackets t.world found := hs
  obtain ⟨u, hclosed, hbooks, -⟩ := closeScopes_books ht rfl
  have hunwound : (unwind.outcome t).state = u := by
    rw [state_outcome]
    exact after_ok hclosed
  have hstart : RunState.Books [] s t := ⟨.refl _ _, rfl, rfl⟩
  show RunState.Books _ s (unwind.outcome t).state
  rw [hunwound]
  exact hstart.trans hbooks

/-- The end of a script books the exits of the scopes that it closes. -/
theorem finish_books (hs : s.runner.Brackets s.world found) :
    RunState.Books (List.replicate s.runner.depth .scopesExited) s (finish.outcome s).state := by
  rw [state_outcome]
  by_cases hdepth : s.runner.depth = 0
  · have hfinish : finish s = .ok () s := by
      simp only [finish, bind_apply, get_apply, if_pos hdepth, pure_apply]
    rw [after_ok hfinish, hdepth]
    exact .refl s
  · let warned : RunState :=
      { s with world := s.world.report .warning (.leftOpen s.runner.depth) }
    have hwarned : RunState.Books [] s warned :=
      ⟨.report (by simp [Record.fallback]), rfl, rfl⟩
    have hbrackets : warned.runner.Brackets warned.world found := ⟨hs.active, hs.standing⟩
    obtain ⟨u, hclosed, hbooks, -⟩ := closeScopes_books hbrackets rfl
    have hfinish : finish s = .ok () u := by
      simp only [finish, bind_apply, get_apply, if_neg hdepth, act, modify_apply]
      exact hclosed
    rw [after_ok hfinish]
    exact hwarned.trans hbooks

/-- A run has booked what its commands did, and the exits of what it closed at its end. -/
theorem run_books (commands : List Command) (hs : s.runner.Brackets s.world found) :
    ∃ exits, RunState.Books
      ((attempts commands s).flatMap Attempt.booked ++ List.replicate exits .scopesExited) s
      ((run commands).outcome s).state := by
  induction commands generalizing s with
  | nil => exact ⟨s.runner.depth, finish_books hs⟩
  | cons command rest ih =>
      have hfirst := attempt_books command hs
      have hkept := attempt_kept command hs
      rw [outcome_cons, attempts, List.flatMap_cons]
      cases houtcome : (attempt command s).outcome with
      | mk error? t =>
          rw [houtcome] at hfirst hkept
          cases error? with
          | none =>
              obtain ⟨exits, hrest⟩ := ih hkept.brackets
              refine ⟨exits, ?_⟩
              rw [List.append_assoc]
              exact hfirst.trans hrest
          | some e =>
              -- a run that fails closes nothing
              refine ⟨0, ?_⟩
              rw [List.flatMap_nil, List.append_nil, List.replicate_zero, List.append_nil]
              exact hfirst

/-- A run whose runner is closed has nothing open, and has booked what its commands did, and
    exits. -/
theorem closed_books (commands : List Command) (hs : s.runner.Brackets s.world found) :
    let ran := (run commands).outcome s
    let left := (ran.state.runner.close ran.state.world).state
    left.runner.depth = 0 ∧ ∃ exits, RunState.Books
      ((attempts commands s).flatMap Attempt.booked ++ List.replicate exits .scopesExited) s
      left := by
  intro ran left
  have hbrackets : ran.state.runner.Brackets ran.state.world found :=
    (run_kept commands hs).1.brackets
  obtain ⟨exits, hran⟩ := run_books commands hs
  refine ⟨(close_kept hbrackets).2.2, exits + ran.state.runner.depth, ?_⟩
  rw [← List.replicate_append_replicate, ← List.append_assoc]
  exact hran.trans (close_books hbrackets)

end Run

end Script

end ScopedLabels
