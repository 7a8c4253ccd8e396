import ScopedLabels.Proofs.Attempts
import ScopedLabels.Proofs.Footprints
import ScopedLabels.Proofs.Histories
import ScopedLabels.Proofs.Visits
import ScopedLabels.Session.Step

/-!
# Tracing — which operations draw numbers and which set counters back

Numbers are drawn when a caller asks for one, and when a nameless scope is entered for the first
time; counters are set back when a caller asks for it, and whenever a scope is entered. What
happened to the counters can therefore be read off what a caller knows of an operation: the state
before it and the answer to it. `World.entryEvents` does so for an entry, `Attempt.events` for a
command of a script and `Request.events` for a request, and an operation that failed has no events
at all.

For each of them the events trace the world after from the world before. So the history of a session
tells its world, and that is what the counters are (`counters_traced`).
-/

namespace ScopedLabels

/-! ## Entries -/

namespace World

/-- The counter that numbers the nameless scopes of an environment: that of the innermost active
    scope, in the registry of that scope, or the global one if no scope is active. -/
def numbering? (w : World) (environment : Environment) : Option (Text × Text) :=
  match w.current environment with
  | .ok none => some (environment.counters, "global")
  | .ok (some parent) => do
    let above ← w.scope? parent
    return (above.environment.counters, (← above.path?).text)
  | .error _ => none

/-- What the entry of a scope of an environment does to the counters, by the place where the scope
    stood before and the path that it has once entered. A nameless scope draws its last segment when
    it is placed, and every entry sets the counter of the path back. -/
def entryEvents (w : World) (environment : Environment) (place : Place) (path : Path) : History :=
  (if place = .unresolved none then
    (w.numbering? environment).toList.map fun (registry, name) =>
      CounterEvent.draw registry name (path.getLastD [])
  else []) ++ [.zero environment.counters path.text]

/-- What drawing a number of a scope does to the counters, by the number that was shown. -/
def drawEvents (w : World) (id : ScopeId) (shown : Text) : History :=
  ((w.scope? id).bind fun scope => scope.path?.map fun path =>
    CounterEvent.draw scope.environment.counters path.text shown).toList

end World

/-- A scope that has a path shows it. -/
theorem Scope.path?_of_path {scope : Scope} {path : Path} (h : scope.path = .ok path) :
    scope.path? = some path := by
  rw [Scope.path] at h
  rw [Scope.path?]
  cases hplace : scope.place with
  | unresolved name =>
      rw [hplace] at h
      cases h
  | resolved parents basename =>
      rw [hplace] at h
      cases h
      rfl

section Entries

variable {scope : Scope} {w v : World} {parents : Path} {basename : Text}

/-- Activating a scope where it settles sets its counter back. -/
theorem World.activate_traces (id : ScopeId) :
    v.Traces [.zero scope.environment.counters (Path.text (parents ++ [basename]))]
      (v.activate id scope parents basename) :=
  .single trivial rfl

/-- Entering a scope is traced by the events of the entry. -/
theorem Scope.Settles.traces (h : scope.Settles w parents basename v) (id : ScopeId) :
    w.Traces (w.entryEvents scope.environment scope.place (parents ++ [basename]))
      (v.activate id scope parents basename) := by
  refine World.Traces.trans ?_ (World.activate_traces id)
  -- only the last two ways to settle draw, and they draw where the entry says
  cases h with
  | again hplace =>
      rw [hplace]
      exact rfl
  | named hplace hcurrent habove hpath =>
      rw [hplace]
      exact rfl
  | alone hplace hcurrent =>
      rw [hplace]
      exact rfl
  | numbered hplace hcurrent habove hpath =>
      rw [if_pos hplace, World.numbering?, hcurrent]
      simp only [habove, Option.bind_eq_bind, Option.bind_some, path?_of_path hpath,
        Option.pure_def, Option.toList_some, List.map_cons, List.map_nil, List.getLastD_concat]
      exact .single rfl rfl
  | global hplace hcurrent =>
      rw [if_pos hplace, World.numbering?, hcurrent]
      simp only [Option.toList_some, List.map_cons, List.map_nil, List.getLastD_concat]
      refine .single rfl ?_
      -- the fallback to global numbering leaves the counters alone
      show ((w.fallBack scope.environment).drawn _ _).registries = _
      rw [World.fallBack]
      split <;> rfl

/-- The events of the entry of a scope that was just made can be read off the world in which it was
    not alive yet. -/
theorem Scope.Settles.traces_new {id : ScopeId} {name : Option Text}
    (hplace : scope.place = .unresolved name)
    (h : scope.Settles (w.addScope id scope) parents basename v) :
    w.Traces (w.entryEvents scope.environment (.unresolved name) (parents ++ [basename]))
      (v.activate id scope parents basename) := by
  have hunresolved : scope.resolved = false := by
    rw [resolved, path?, hplace]
    rfl
  obtain ⟨u, hsettles, rfl⟩ := h.of_addScope hunresolved
  have htraces := hsettles.traces id
  rw [hplace] at htraces
  exact htraces.leave rfl

end Entries

/-- The innermost active scope after an entry is the one that was entered. -/
theorem World.current_activate (v : World) (id : ScopeId) (scope : Scope) (parents : Path)
    (basename : Text) :
    (v.activate id scope parents basename).current scope.environment = .ok (some id) := by
  rw [current_eq, activeValues_activate]

/-! ## Computations that were traced -/

section Traced

variable {σ α β : Type} {world : σ → World} {s : σ}

/-- If a computation succeeds, the events that are read off what it led to trace the world from the
    one before. If it fails, it leaves the counters alone. -/
def Traced (world : σ → World) (s : σ) (events : α → σ → History) :
    EStateM.Result Error σ α → Prop
  | .ok a t => (world s).Traces (events a t) (world t)
  | .error _ t => (world t).registries = (world s).registries

/-- What leaves the counters alone is traced by no events. -/
theorem Traced.silent {x : EStateM Error σ α} {events : α → σ → History}
    (hx : (world (after x s)).registries = (world s).registries)
    (hevents : ∀ a t, events a t = []) : Traced world s events (x s) := by
  rw [after] at hx
  cases hresult : x s with
  | ok a t =>
      rw [hresult] at hx
      show (world s).Traces (events a t) (world t)
      rw [hevents]
      exact hx
  | error e t =>
      rw [hresult] at hx
      exact hx

/-- What is done with the result afterwards, and leaves the counters alone, does not matter. -/
theorem Traced.bind {x : EStateM Error σ α} {f : α → EStateM Error σ β}
    {events : α → σ → History} {events' : β → σ → History} (hx : Traced world s events (x s))
    (hf : ∀ a t, ∃ b u, f a t = .ok b u ∧ (world u).registries = (world t).registries ∧
      events' b u = events a t) : Traced world s events' ((x >>= f) s) := by
  rw [bind_apply]
  cases hresult : x s with
  | ok a t =>
      rw [hresult] at hx
      obtain ⟨b, u, hb, hregistries, hevents⟩ := hf a t
      simp only [hb]
      show (world s).Traces (events' b u) (world u)
      rw [hevents]
      exact World.Traces.leave hx hregistries
  | error e t =>
      rw [hresult] at hx
      exact hx

/-- A traced computation on the world, where the events are read off its result. -/
abbrev Action.Traced (w : World) (events : α → History) : EStateM.Result Error World α → Prop :=
  ScopedLabels.Traced (fun v : World => v) w fun a _ => events a

/-- What traces an action on the world traces it within a session. -/
theorem Session.act_traced {action : Action α} {events : α → History} {s : Session}
    (h : Action.Traced s.world events (action s.world)) :
    ScopedLabels.Traced Session.world s (fun a _ => events a) (act action s) := by
  rw [act]
  cases hresult : action s.world with
  | ok a w => rwa [hresult] at h
  | error e w => rwa [hresult] at h

end Traced

/-! ## Numbers and labels -/

/-- Drawing a number of a scope is one draw from the counter of its path. -/
theorem ScopeId.nextNumber_traced (id : ScopeId) (w : World) :
    Action.Traced w (fun n => w.drawEvents id (Text.ofCount n)) (id.nextNumber w) := by
  rw [nextNumber, bind_apply, fetch_apply]
  cases hscope : w.scope? id with
  | none => exact rfl
  | some scope =>
      simp only [bind_apply, ofExcept_apply, Scope.fullName]
      cases hpath : scope.path with
      | error e => exact rfl
      | ok path =>
          show w.Traces (w.drawEvents id _) (w.drawn scope.environment.counters path.text)
          rw [World.drawEvents, hscope, Option.bind_some, Scope.path?_of_path hpath]
          exact .single rfl rfl

/-- A segment is the digits of a number that is drawn. -/
theorem ScopeId.nextSegment_traced (id : ScopeId) (w : World) :
    Action.Traced w (fun segment => w.drawEvents id segment) (id.nextSegment w) :=
  (id.nextNumber_traced w).bind fun n v => ⟨Text.ofCount n, v, rfl, rfl, rfl⟩

/-- A label below a scope draws its last segment if it is given none. -/
theorem ScopeId.labelBelow_traced (id : ScopeId) (name : Option Text) (w : World) :
    Action.Traced w
      (fun label => if name = none then w.drawEvents id (label.parts.getLastD []) else [])
      (id.labelBelow name w) := by
  cases name with
  | some name =>
      have hkeeps : Keeps (World.Agree .counters) (id.labelBelow (some name)) :=
        id.labelBelow_keeps nofun
      exact .silent (hkeeps w) fun _ _ => rfl
  | none =>
      rw [labelBelow, bind_apply, path_apply]
      cases hscope : w.scope? id with
      | none => exact rfl
      | some scope =>
          simp only
          cases hpath : scope.path with
          | error e => exact rfl
          | ok path =>
              simp only [reduceIte]
              refine (id.nextSegment_traced w).bind fun segment v => ?_
              refine ⟨⟨path ++ [segment]⟩, v.count .labelsGenerated, rfl, rfl, ?_⟩
              show w.drawEvents id ((path ++ [segment]).getLastD []) = _
              rw [List.getLastD_concat]

/-- A label below the innermost active scope is traced by the entry that made it. -/
theorem Environment.momentaryLabel_traced (environment : Environment) (name : Option Text)
    (w : World) :
    Action.Traced w (fun label => w.entryEvents environment (.unresolved name) label.parts)
      (environment.momentaryLabel name w) := by
  rcases environment.momentaryLabel_cases name w with
    ⟨e, hfailed⟩ | ⟨scope, parents, basename, v, hmade, hfree, hsettles, hlabel⟩
  · rw [hfailed]
    exact rfl
  · cases Origin.scope_ofName? hmade
    rw [hlabel]
    exact (hsettles.traces_new rfl).leave rfl

/-! ## Commands of scripts -/

namespace Script

/-- What a command did to the counters. -/
def Attempt.events (a : Attempt) : History :=
  let environment := a.before.runner.environment
  match a.outcome.error?, a.command.verb with
  | some _, _ => []
  | none, .scope name | none, .label name =>
    a.before.world.entryEvents environment (.unresolved name) (a.visited?.getD [])
  | none, .uid counter =>
    [.draw environment.counters (counter.getD defaultName) (a.outcome.state.printed.headD [])]
  | none, .reset counter => [.zero environment.counters (counter.getD defaultName)]
  | none, .leave | none, .current => []

namespace Run

/-- Opening a scope is traced by its entry. -/
theorem openScope_traced (name : Option Text) (s : RunState) :
    Traced RunState.world s
      (fun _ t => s.world.entryEvents s.runner.environment (.unresolved name)
        (t.activePath?.getD []))
      (openScope name s) := by
  rcases openScope_cases name s with
    ⟨e, hfailed⟩ | ⟨scope, parents, basename, v, hmade, hfree, hsettles, hopened⟩
  · rw [hfailed]
    exact rfl
  · have hnew := Origin.scope_ofName? hmade
    rw [hopened]
    show World.Traces _ (World.entryEvents _ _ _ (Option.getD (RunState.activePath? _) [])) _
    -- after the entry the new scope is the innermost one, which is how its path is read off
    have hcurrent :=
      v.current_activate (.opened s.runner.name s.runner.depth) scope parents basename
    have hentered := hsettles.scope?_activate (ScopeId.scope?_addScope_self _ s.world scope)
    have henvironment : scope.environment = s.runner.environment := by rw [hnew]
    have hplace : scope.place = .unresolved name := by rw [hnew]
    have htraces := hsettles.traces_new hplace
    rw [henvironment] at hcurrent htraces
    rw [RunState.activePath?]
    simp only [hcurrent, hentered, Option.bind_some]
    exact htraces

/-- A command that prints a label is traced by the entry that made it. -/
theorem label_traced (name : Option Text) (s : RunState) :
    Traced RunState.world s
      (fun _ _ => s.world.entryEvents s.runner.environment (.unresolved name)
        ((s.labelPath? name).getD []))
      ((do print (← act (s.runner.environment.labelFor (.fresh name))).text : Run Unit) s) := by
  have hlabel : s.runner.environment.labelFor (.fresh name) s.world =
      s.runner.environment.momentaryLabel name s.world := rfl
  have hmade := s.runner.environment.momentaryLabel_traced name s.world
  rw [bind_apply, act, RunState.labelPath?, hlabel]
  cases hresult : s.runner.environment.momentaryLabel name s.world with
  | ok label v =>
      rw [hresult] at hmade
      exact hmade
  | error e v =>
      rw [hresult] at hmade
      exact hmade

/-- A command that succeeds is traced by its events, and one that fails leaves the counters
    alone. -/
theorem execute_traced (command : Command) (s : RunState) :
    Traced RunState.world s (fun _ t => Attempt.events ⟨command, s, ⟨none, t⟩⟩)
      (execute command s) := by
  rw [execute, bind_apply, get_apply]
  cases hverb : command.verb with
  | scope name =>
      simp only [Attempt.events, Attempt.visited?, hverb]
      exact openScope_traced name s
  | label name =>
      simp only [Attempt.events, Attempt.visited?, hverb]
      exact label_traced name s
  | uid counter =>
      simp only [Attempt.events, hverb]
      exact .single rfl rfl
  | reset counter =>
      simp only [Attempt.events, hverb]
      exact .single trivial rfl
  | leave =>
      simp only [Attempt.events, hverb]
      cases hdepth : s.runner.depth with
      | zero => exact rfl
      | succ depth =>
          have hclosed : RunState.Agree .counters s (after (closeScope depth) s) :=
            closeScope_keeps (by decide) (by decide) depth s
          exact .silent hclosed fun _ _ => rfl
  | current =>
      simp only [Attempt.events, hverb]
      exact .silent (current_keeps (a := .counters) s.runner.environment s) fun _ _ => rfl

/-- A command that a run got to is traced by its events. If it failed, there are none. -/
theorem attempt_traces (command : Command) (s : RunState) :
    s.world.Traces (attempt command s).events (attempt command s).outcome.state.world := by
  have hexecuted := execute_traced command (s.goTo command.line)
  rw [attempt, outcome]
  cases hresult : execute command (s.goTo command.line) with
  | ok u t =>
      rw [hresult] at hexecuted
      exact hexecuted
  | error e t =>
      rw [hresult] at hexecuted
      exact hexecuted

/-- A command of a run that failed left the counters alone. -/
theorem attempts_silent {commands : List Command} {s : RunState} {a : Attempt}
    (hmem : a ∈ attempts commands s) (hfailed : a.outcome.error? ≠ none) :
    a.outcome.state.world.registries = a.before.world.registries := by
  induction commands generalizing s with
  | nil => exact absurd hmem List.not_mem_nil
  | cons command rest ih =>
      rw [attempts] at hmem
      rcases List.mem_cons.mp hmem with rfl | hmem
      · have htraces := attempt_traces command s
        cases herror : (attempt command s).outcome.error? with
        | none => exact absurd herror hfailed
        | some e =>
            rw [Attempt.events, herror] at htraces
            exact htraces
      · split at hmem
        · exact ih hmem
        · exact absurd hmem List.not_mem_nil

/-- A run is traced by the events of the commands that it got to. What is left open at its end is
    closed without drawing anything. -/
theorem run_traces (commands : List Command) (s : RunState) :
    s.world.Traces ((attempts commands s).flatMap Attempt.events)
      ((run commands).outcome s).state.world := by
  induction commands generalizing s with
  | nil =>
      have hfinish : RunState.Agree .counters s (after finish s) :=
        finish_keeps (by decide) (by decide) s
      rw [state_outcome]
      exact hfinish
  | cons command rest ih =>
      have hfirst := attempt_traces command s
      rw [outcome_cons, attempts, List.flatMap_cons]
      cases houtcome : (attempt command s).outcome with
      | mk error? t =>
          rw [houtcome] at hfirst
          cases error? with
          | none => exact hfirst.trans (ih t)
          | some e =>
              rw [List.flatMap_nil, List.append_nil]
              exact hfirst

end Run

end Script

/-! ## Requests -/

namespace Session

/-- What the entry of a scope that the caller holds did to the counters, by the scope as it was
    seen afterwards. -/
def entryEvents (s : Session) (name : Text) (entered : Scope) : History :=
  match s.world.scope? (.held name) with
  | some scope =>
    s.world.entryEvents scope.environment scope.place (entered.path?.getD [])
  | none => []

/-- What the commands of a script did to the counters. -/
def scriptEvents (s : Session) (name script : Text) : History :=
  match s.runners.get? name, Script.parse script with
  | some runner, .ok commands =>
    (Script.Run.attempts commands { world := s.world, runner }).flatMap Script.Attempt.events
  | _, _ => []

/-- What an automatic label did to the counters, by the label. One that was given as a label did
    nothing. -/
def labelEvents (s : Session) (label : Label) : NameSource → Location → History
  | .fresh name, .current environment =>
    match s.environments.get? environment with
    | some environment => s.world.entryEvents environment (.unresolved name) label.parts
    | none => []
  | .fresh none, .below scope => s.world.drawEvents (.held scope) (label.parts.getLastD [])
  | .fresh (some _), .below _ | .label _, _ => []

/-- What a request did to the counters, by the answer to it. -/
def Request.events (s : Session) : Request → Answer → History
  | .makeLabel name location _, .label label => s.labelEvents label name location
  | .enterScope name, .scope entered | .newGuard _ name, .scope entered =>
    s.entryEvents name entered
  | .nextNumber scope, .count n => s.world.drawEvents (.held scope) (Text.ofCount n)
  | .nextSegment scope, .text segment => s.world.drawEvents (.held scope) segment
  | .runScript name script _, _ => s.scriptEvents name script
  | .drawCount registry counter, .count n => [.draw registry counter (Text.ofCount n)]
  | .zeroCount registry counter, _ => [.zero registry counter]
  | .clearCounts registry, _ => [.clear registry]
  | .resetEnvironment name, _ =>
    (s.environments.get? name).toList.map fun environment => .clear environment.counters
  | _, _ => []

/-- A label that draws nothing has no events. -/
theorem labelEvents_of_silent {name : NameSource} {location : Location}
    (h : Aspect.counters ∉ touchedByLabel name location) (s : Session) (label : Label) :
    s.labelEvents label name location = [] := by
  cases name with
  | label source => cases location <;> rfl
  | fresh name =>
      cases location with
      | current environment => exact absurd List.mem_cons_self h
      | below scope =>
          cases name with
          | none => exact absurd List.mem_cons_self h
          | some name => rfl

/-- A request that does not touch the counters has no events, whatever its answer. -/
theorem Request.events_of_silent {request : Request} (h : Aspect.counters ∉ request.touched)
    (s : Session) (answer : Answer) : request.events s answer = [] := by
  cases request with
  | makeLabel name location save =>
      cases answer with
      | label label => exact s.labelEvents_of_silent h label
      | _ => rfl
  | _ => first | rfl | exact absurd (by simp [Request.touched]) h

theorem scopeOf_apply {name : Text} {scope : Scope} {s : Session}
    (hscope : s.world.scope? (.held name) = some scope) : scopeOf name s = .ok scope s := by
  simp only [scopeOf, act, ScopeId.fetch_apply, hscope]

/-- Is it the entry of a scope that the caller holds? -/
def Request.Enters (name : Text) : Request → Prop
  | .enterScope scope | .newGuard _ scope => scope = name
  | _ => False

/-- Entering a scope that the caller holds, and showing it. -/
theorem enterScope_cases (name : Text) (s : Session) :
    (∃ e, (ScopeId.held name).enter s.world = .error e s.world ∧
        perform (.enterScope name) s = .error e s) ∨
      ∃ scope parents basename v, s.world.scope? (.held name) = some scope ∧
        scope.Settles s.world parents basename v ∧
        perform (.enterScope name) s = .ok (.scope (World.settled scope parents basename))
          { s with world := v.activate (.held name) scope parents basename } := by
  rcases (ScopeId.held name).enter_cases s.world with
    ⟨e, hfailed⟩ | ⟨scope, parents, basename, v, hscope, hsettles, hentered⟩
  · refine .inl ⟨e, hfailed, ?_⟩
    simp only [perform, bind_apply, act, hfailed]
  · refine .inr ⟨scope, parents, basename, v, hscope, hsettles, ?_⟩
    let t : Session := { s with world := v.activate (.held name) scope parents basename }
    have hshown : scopeOf name t = .ok (World.settled scope parents basename) t :=
      scopeOf_apply (hsettles.scope?_activate hscope)
    simp only [perform, bind_apply, act, hentered]
    rw [hshown]
    rfl

/-- A request to enter a scope fails with the session as it was, or enters the scope and shows
    it. -/
theorem perform_enters {request : Request} {name : Text} (h : request.Enters name) (s : Session) :
    (∃ e, perform request s = .error e s) ∨
      ∃ scope parents basename v t, s.world.scope? (.held name) = some scope ∧
        scope.Settles s.world parents basename v ∧
        perform request s = .ok (.scope (World.settled scope parents basename)) t ∧
        t.world = v.activate (.held name) scope parents basename := by
  cases request with
  | enterScope scope =>
      cases h
      rcases enterScope_cases name s with
        ⟨e, -, hfailed⟩ | ⟨scope, parents, basename, v, hscope, hsettles, hentered⟩
      · exact .inl ⟨e, hfailed⟩
      · exact .inr ⟨scope, parents, basename, v, _, hscope, hsettles, hentered, rfl⟩
  | newGuard guard scope =>
      cases h
      rw [perform, newGuard, bind_apply, get_apply]
      -- a guard needs a free name, and then enters as a request to enter does
      simp only [requireFree]
      split
      · exact .inl ⟨_, rfl⟩
      · simp only [bind_apply, pure_apply, act]
        rcases (ScopeId.held name).enter_cases s.world with
          ⟨e, hfailed⟩ | ⟨scope, parents, basename, v, hscope, hsettles, hentered⟩
        · refine .inl ⟨e, ?_⟩
          simp only [hfailed]
        · let t : Session :=
            { s with
              world := v.activate (.held name) scope parents basename
              guards := s.guards.insert guard name }
          have hshown : scopeOf name t = .ok (World.settled scope parents basename) t :=
            scopeOf_apply (hsettles.scope?_activate hscope)
          refine .inr ⟨scope, parents, basename, v, t, hscope, hsettles, ?_, rfl⟩
          simp only [hentered, modify_apply]
          rw [hshown]
  | _ => cases h

/-- What was done to the counters can be read off the answer to a request. -/
abbrev Recorded (request : Request) (s : Session) : EStateM.Result Error Session Answer → Prop :=
  Traced Session.world s fun answer _ => request.events s answer

/-- A request to enter a scope is traced by the entry. -/
theorem recorded_of_enters {request : Request} {name : Text} (h : request.Enters name)
    (s : Session) : Recorded request s (perform request s) := by
  rcases perform_enters h s with
    ⟨e, hfailed⟩ | ⟨scope, parents, basename, v, t, hscope, hsettles, hentered, hworld⟩
  · rw [hfailed]
    exact rfl
  · have hevents : request.events s (.scope (World.settled scope parents basename)) =
        s.entryEvents name (World.settled scope parents basename) := by
      cases request with
      | enterScope | newGuard =>
          cases h
          rfl
      | _ => cases h
    rw [hentered]
    show s.world.Traces (request.events s _) t.world
    rw [hevents, hworld, entryEvents, hscope]
    exact hsettles.traces (.held name)

/-- Resetting an environment clears its registry, and there are no other events. -/
theorem resetEnvironment_recorded (name : Text) (s : Session) :
    Recorded (.resetEnvironment name) s (perform (.resetEnvironment name) s) := by
  rw [perform, bind_apply, environmentOf, bind_apply, get_apply]
  simp only [held_apply]
  cases henvironment : s.environments.get? name with
  | none => exact rfl
  | some environment =>
      show s.world.Traces (Request.events s (.resetEnvironment name) .nothing) _
      rw [Request.events, henvironment]
      exact .single trivial rfl

/-- A script is traced by its commands, and one that cannot be read by nothing. -/
theorem runScript_recorded (name script : Text) (watch : Option Text) (s : Session) :
    Recorded (.runScript name script watch) s (perform (.runScript name script watch) s) := by
  rw [perform, runScript, bind_apply, runnerOf, bind_apply, get_apply]
  simp only [held_apply]
  cases hrunner : s.runners.get? name with
  | none => exact rfl
  | some runner =>
      show s.world.Traces (s.scriptEvents name script) (runner.run script s.world).state.world
      rw [scriptEvents, hrunner, Script.Runner.run, Script.Run.runText]
      cases Script.parse script with
      | error fault => exact rfl
      | ok commands => exact Script.Run.run_traces commands { world := s.world, runner }

/-- A label that is made somewhere is traced by the entry or the draw that made it. -/
theorem labelAt_traced (name : Option Text) (location : Location) (s : Session) :
    Traced Session.world s (fun label _ => s.labelEvents label (.fresh name) location)
      (labelAt (.fresh name) location s) := by
  cases location with
  | current environment =>
      rw [labelAt, bind_apply, environmentOf, bind_apply, get_apply]
      simp only [held_apply, labelEvents]
      cases s.environments.get? environment with
      | none => exact rfl
      | some environment => exact act_traced (environment.momentaryLabel_traced name s.world)
  | below scope =>
      have hmade := act_traced ((ScopeId.held scope).labelBelow_traced name s.world)
      cases name <;> exact hmade

/-- Keeping a label that was made leaves the counters alone. -/
theorem makeLabel_recorded (name : Option Text) (location : Location) (save : Option Text)
    (s : Session) :
    Recorded (.makeLabel (.fresh name) location save) s
      (perform (.makeLabel (.fresh name) location save) s) := by
  rw [perform, makeLabel]
  simp only [nameOf, pure_bind]
  refine (labelAt_traced name location s).bind fun label t => ?_
  refine ⟨.label label, _, rfl, ?_, rfl⟩
  cases save <;> rfl

/-- A request that is answered is traced by its events, and one that fails leaves the counters
    alone. -/
theorem perform_recorded (request : Request) (s : Session) :
    Recorded request s (perform request s) := by
  by_cases hsilent : Aspect.counters ∉ request.touched
  · refine .silent ?_ fun answer t => request.events_of_silent hsilent s answer
    exact (perform_keeps request hsilent s).1
  · -- what is left are the requests that touch the counters
    cases request with
    | makeLabel name location save =>
        cases name with
        | label source => exact absurd (List.not_mem_nil) hsilent
        | fresh name => exact makeLabel_recorded name location save s
    | enterScope name =>
        have henters : Request.Enters name (.enterScope name) := rfl
        exact recorded_of_enters henters s
    | newGuard name scope =>
        have henters : Request.Enters scope (.newGuard name scope) := rfl
        exact recorded_of_enters henters s
    | runScript name script watch => exact runScript_recorded name script watch s
    | resetEnvironment name => exact resetEnvironment_recorded name s
    | nextSegment name =>
        exact (act_traced ((ScopeId.held name).nextSegment_traced s.world)).bind
          fun segment t => ⟨.text segment, t, rfl, rfl, rfl⟩
    | nextNumber name =>
        exact (act_traced ((ScopeId.held name).nextNumber_traced s.world)).bind
          fun n t => ⟨.count n, t, rfl, rfl, rfl⟩
    | drawCount registry counter => exact .single rfl rfl
    | zeroCount registry counter => exact .single trivial rfl
    | clearCounts registry => exact .single trivial rfl
    | _ => exact absurd (by simp [Request.touched]) hsilent

/-! ## Sessions -/

/-- What a request did to the counters, as it can be told from the reply. A request that failed did
    nothing. -/
def counterEvents (s : Session) (request : Request) : History :=
  match (s.step request).1.result with
  | .ok answer => request.events s.drained answer
  | .error _ => []

/-- What some requests did to the counters, one after the other. -/
def history (s : Session) : List Request → History
  | [] => []
  | request :: rest => s.counterEvents request ++ (s.step request).2.history rest

/-- A request is traced by the events that are told from its reply. -/
theorem step_traces (s : Session) (request : Request) :
    s.world.Traces (s.counterEvents request) (s.step request).2.world := by
  have hrecorded := perform_recorded request s.drained
  rw [counterEvents, step]
  cases hresult : perform request s.drained with
  | ok answer t =>
      rw [hresult] at hrecorded
      exact World.Traces.congr hrecorded rfl
  | error e t =>
      rw [hresult] at hrecorded
      exact hrecorded

/-- A session is traced by its history. -/
theorem steps_traces (s : Session) (requests : List Request) :
    s.world.Traces (s.history requests) (s.steps requests).2.world := by
  induction requests generalizing s with
  | nil => exact rfl
  | cons request rest ih => exact (s.step_traces request).trans (ih (s.step request).2)

/-- Whatever requests were made so far: every counter stands at the number of draws from it since it
    was last set back, modulo 2^64, and every draw showed the number that it made it. A registry
    holds as many names as were drawn from or set back since it was cleared. A request that fails
    leaves all counters as they are, and so does a command of a script. -/
theorem counters_traced (requests : List Request) :
    let s := (Session.steps {} requests).2
    let events := Session.history {} requests
    (∀ registry name,
      (s.world.registry registry).get name = UInt64.ofNat (events.drawn registry name)) ∧
    (∀ before registry name shown rest,
      events = before ++ CounterEvent.draw registry name shown :: rest →
        shown = Text.ofCount (UInt64.ofNat (before.drawn registry name + 1))) ∧
    (∀ registry, (s.world.registry registry).size = (events.names registry).toFinset.card) ∧
    (∀ request e, (s.step request).1.result = .error e →
      (s.step request).2.world.registries = s.world.registries) ∧
    ∀ runner commands, ∀ a ∈ Script.Run.attempts commands { world := s.world, runner },
      a.outcome.error? ≠ none → a.outcome.state.world.registries = a.before.world.registries := by
  intro s events
  -- the counters start at zero with no events, and every step is traced
  have htells : events.Tells s.world :=
    (History.Tells.start rfl).traces (steps_traces {} requests)
  refine ⟨htells.value, htells.numbered, ?sizes, ?requests, ?commands⟩
  case sizes =>
    intro registry
    exact Counters.size_eq (htells.held registry)
  case requests =>
    intro request e hfailed
    have htraces := s.step_traces request
    rw [counterEvents, hfailed] at htraces
    exact htraces
  case commands =>
    intro runner commands a hmem hfailed
    exact Script.Run.attempts_silent hmem hfailed

/-- A nameless label below a scope draws from the scope and sets its own counter back. -/
example :
    Session.history {} [.newScope "a" (.basename defaultName "a"), .enterScope "a",
      .makeLabel (.fresh none) (.current defaultName) none, .nextNumber "a"] =
    [.zero defaultName "a", .draw defaultName "a" "1", .zero defaultName "a/1",
      .draw defaultName "a" "2"] := by
  decide +kernel

end Session

end ScopedLabels
