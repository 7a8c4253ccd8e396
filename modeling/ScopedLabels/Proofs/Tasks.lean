import ScopedLabels.Proofs.Changes
import ScopedLabels.Proofs.Twins
import ScopedLabels.Session.Step

/-!
# Tasks — an environment and the objects that go with it

A `Task` is an environment of a session together with the objects that are used with it: scopes,
guards, runners, leases and saved labels. `Task.Concerns` says which requests are about a task:
those that name only its environment, the registry and the stack of that, and its objects. A task is
`Coherent` in a session if its objects belong together, which its requests keep up.

Two sessions are `Abreast` if a task finds the same in both and neither has changed anything that
belongs to others. Carrying out a request that concerns the task keeps them so, and gives the same
answer in both (`perform_twinned`).
-/

namespace ScopedLabels

/-! ## What a roster keeps under one key -/

namespace Roster

variable {κ ν : Type} [DecidableEq κ]

/-- The values under a key, newest first. -/
def under (roster : Roster κ ν) (key : κ) : List ν :=
  roster.entries.filterMap fun entry => if entry.1 = key then some entry.2 else none

/-- What is kept under a key are the values of its entries. -/
theorem mem_under {roster : Roster κ ν} {key : κ} {value : ν} :
    value ∈ roster.under key ↔ (key, value) ∈ roster.entries := by
  rw [under, List.mem_filterMap]
  constructor
  · rintro ⟨⟨k, v⟩, hmem, hentry⟩
    obtain ⟨rfl, heq⟩ := Option.ite_none_right_eq_some.mp hentry
    cases heq
    exact hmem
  · intro hmem
    exact ⟨(key, value), hmem, if_pos rfl⟩

/-- A lookup finds the newest. -/
theorem get?_eq_head?_under (roster : Roster κ ν) (key : κ) :
    roster.get? key = (roster.under key).head? := by
  obtain ⟨entries⟩ := roster
  rw [get?, under]
  induction entries with
  | nil => rfl
  | cons entry rest ih =>
      by_cases hkey : entry.1 = key
      · simp [hkey]
      · simpa [hkey] using ih

theorem mem_of_get? {roster : Roster κ ν} {key : κ} {value : ν} (h : roster.get? key = some value) :
    (key, value) ∈ roster.entries := by
  rw [get?_eq_head?_under] at h
  exact mem_under.mp (List.mem_of_head? h)

/-- What is kept under a key decides what a lookup of it finds. -/
theorem get?_congr {r r' : Roster κ ν} {key : κ} (h : r'.under key = r.under key) :
    r'.get? key = r.get? key := by
  rw [get?_eq_head?_under, h, get?_eq_head?_under]

/-- What holds of all that was found, and of a value that is added, holds of all that is found. -/
theorem found_insert {interest : κ → Prop} {P : κ → ν → Prop} {roster : Roster κ ν}
    (h : ∀ key value, interest key → roster.get? key = some value → P key value)
    {new : κ} {added : ν} (hnew : P new added) :
    ∀ key value, interest key → (roster.insert new added).get? key = some value → P key value := by
  intro key value hkey hfound
  rw [get?_insert] at hfound
  by_cases heq : new = key
  · rw [if_pos heq] at hfound
    have hvalue : added = value := Option.some.inj hfound
    rw [← heq, ← hvalue]
    exact hnew
  · rw [if_neg heq] at hfound
    exact h key value hkey hfound

/-- What holds of all that was found holds of what is left when a key is erased. -/
theorem found_erase {interest : κ → Prop} {P : κ → ν → Prop} {roster : Roster κ ν}
    (h : ∀ key value, interest key → roster.get? key = some value → P key value) (gone : κ) :
    ∀ key value, interest key → (roster.erase gone).get? key = some value → P key value := by
  intro key value hkey hfound
  rw [get?_erase] at hfound
  by_cases heq : gone = key
  · rw [if_pos heq] at hfound
    exact absurd hfound.symm (Option.some_ne_none value)
  · rw [if_neg heq] at hfound
    exact h key value hkey hfound

/-- What holds of all that was found, and of what one key is set to, holds of all that is found. -/
theorem found_set {interest : κ → Prop} {P : κ → ν → Prop} {roster : Roster κ ν}
    (h : ∀ key value, interest key → roster.get? key = some value → P key value)
    {changed : κ} {put : ν} (hput : P changed put) :
    ∀ key value, interest key → (roster.modify changed fun _ => put).get? key = some value →
      P key value := by
  intro key value hkey hfound
  rw [get?_modify] at hfound
  by_cases heq : changed = key
  · rw [if_pos heq] at hfound
    obtain ⟨old, -, hvalue⟩ := Option.map_eq_some_iff.mp hfound
    rw [← heq, ← hvalue]
    exact hput
  · rw [if_neg heq] at hfound
    exact h key value hkey hfound

theorem under_insert (roster : Roster κ ν) (key other : κ) (value : ν) :
    (roster.insert key value).under other =
      if key = other then value :: roster.under other else roster.under other := by
  by_cases hkey : key = other <;> simp [under, insert, hkey]

/-- Nothing is left under a key that was erased. -/
theorem under_erase (roster : Roster κ ν) (key other : κ) :
    (roster.erase key).under other = if key = other then [] else roster.under other := by
  obtain ⟨entries⟩ := roster
  rw [erase, under, under]
  induction entries with
  | nil => simp
  | cons entry rest ih =>
      by_cases hkey : entry.1 = key
      · by_cases hother : key = other <;> simp_all
      · by_cases hother : key = other
        · subst hother
          simp_all
        · by_cases hentry : entry.1 = other <;> simp_all

/-- A change of a key is made to each value under it. -/
theorem under_modify (roster : Roster κ ν) (key other : κ) (f : ν → ν) :
    (roster.modify key f).under other =
      if key = other then (roster.under other).map f else roster.under other := by
  obtain ⟨entries⟩ := roster
  rw [modify, under, under]
  induction entries with
  | nil => simp
  | cons entry rest ih =>
      by_cases hkey : entry.1 = key
      · by_cases hother : key = other <;> simp_all
      · by_cases hother : key = other
        · subst hother
          simp_all
        · by_cases hentry : entry.1 = other <;> simp_all

/-- A change under one key, which depends only on what is there. -/
structure Local (key : κ) (f : Roster κ ν → Roster κ ν) : Prop where
  alike : ∀ {r r' : Roster κ ν} {other : κ}, r'.under other = r.under other →
    (f r').under other = (f r).under other
  elsewhere : ∀ (r : Roster κ ν) {other : κ}, other ≠ key → (f r).under other = r.under other

namespace Local

/-- Inserting is a change under one key. -/
theorem insert (key : κ) (value : ν) : Local key fun r : Roster κ ν => r.insert key value := by
  constructor
  case alike =>
    intro r r' other h
    rw [under_insert, under_insert, h]
  case elsewhere =>
    intro r other hne
    rw [under_insert, if_neg (Ne.symm hne)]

/-- Erasing is a change under one key. -/
theorem erase (key : κ) : Local key fun r : Roster κ ν => r.erase key := by
  constructor
  case alike =>
    intro r r' other h
    rw [under_erase, under_erase, h]
  case elsewhere =>
    intro r other hne
    rw [under_erase, if_neg (Ne.symm hne)]

/-- Changing what is kept under a key is a change under that key. -/
theorem modify (key : κ) (f : ν → ν) : Local key fun r : Roster κ ν => r.modify key f := by
  constructor
  case alike =>
    intro r r' other h
    rw [under_modify, under_modify, h]
  case elsewhere =>
    intro r other hne
    rw [under_modify, if_neg (Ne.symm hne)]

/-- Two changes under a key, one after the other, are a change under it. -/
theorem comp {key : κ} {f g : Roster κ ν → Roster κ ν} (hf : Local key f) (hg : Local key g) :
    Local key fun r => g (f r) := by
  constructor
  case alike =>
    intro r r' other h
    exact hg.alike (hf.alike h)
  case elsewhere =>
    intro r other hne
    calc (g (f r)).under other
        = (f r).under other := hg.elsewhere (f r) hne
      _ = r.under other := hf.elsewhere r hne

/-- A change leaves two rosters alike under all keys under which they were. -/
theorem alike_among {interest : κ → Prop} {key : κ} {f : Roster κ ν → Roster κ ν}
    (hf : Local key f) {r r' : Roster κ ν}
    (h : ∀ other, interest other → r'.under other = r.under other) :
    ∀ other, interest other → (f r').under other = (f r).under other := by
  intro other hother
  exact hf.alike (h other hother)

/-- A change leaves a roster as it was under all keys that are called otherwise. -/
theorem elsewhere_called {γ : Type} (called : κ → γ) {key : κ} {f : Roster κ ν → Roster κ ν}
    (hf : Local key f) (r : Roster κ ν) :
    ∀ other, called other ≠ called key → (f r).under other = r.under other := by
  intro other hother
  have hne : other ≠ key := fun heq => hother (congrArg called heq)
  exact hf.elsewhere r hne

end Local

end Roster

namespace Session

/-- An object of the caller: its kind and its name. -/
inductive Handle
  | scope (name : Text)
  | guard (name : Text)
  | runner (name : Text)
  | lease (name : Text)
  | label (name : Text)
deriving DecidableEq

/-- What a caller keeps in a session, apart from scopes. -/
structure Objects where
  environments : Roster Text Environment
  guards : Roster Text Text
  leases : Roster Text Lease
  runners : Roster Text Script.Runner
  labels : Roster Text Label

/-- What the caller keeps. -/
def objects (s : Session) : Objects :=
  ⟨s.environments, s.guards, s.leases, s.runners, s.labels⟩

/-- The same world with other objects. -/
def withObjects (s : Session) (o : Objects) : Session :=
  { s with
    environments := o.environments, guards := o.guards, leases := o.leases, runners := o.runners
    labels := o.labels }

namespace Objects

/-! ## The same objects -/

/-- The same objects are kept under some handles, and the environments are the same. -/
structure Agree (handles : Handle → Prop) (o p : Objects) : Prop where
  environments : p.environments = o.environments
  guards : ∀ name, handles (.guard name) → p.guards.under name = o.guards.under name
  leases : ∀ name, handles (.lease name) → p.leases.under name = o.leases.under name
  runners : ∀ name, handles (.runner name) → p.runners.under name = o.runners.under name
  labels : ∀ name, handles (.label name) → p.labels.under name = o.labels.under name

namespace Agree

variable {handles fewer : Handle → Prop} {o p q : Objects}

theorem refl (handles : Handle → Prop) (o : Objects) : Agree handles o o :=
  ⟨rfl, fun _ _ => rfl, fun _ _ => rfl, fun _ _ => rfl, fun _ _ => rfl⟩

theorem symm (h : Agree handles o p) : Agree handles p o where
  environments := h.environments.symm
  guards name hname := (h.guards name hname).symm
  leases name hname := (h.leases name hname).symm
  runners name hname := (h.runners name hname).symm
  labels name hname := (h.labels name hname).symm

theorem trans (h : Agree handles o p) (h' : Agree handles p q) : Agree handles o q where
  environments := h'.environments.trans h.environments
  guards name hname := (h'.guards name hname).trans (h.guards name hname)
  leases name hname := (h'.leases name hname).trans (h.leases name hname)
  runners name hname := (h'.runners name hname).trans (h.runners name hname)
  labels name hname := (h'.labels name hname).trans (h.labels name hname)

theorem mono (hfewer : ∀ handle, fewer handle → handles handle) (h : Agree handles o p) :
    Agree fewer o p where
  environments := h.environments
  guards name hname := h.guards name (hfewer _ hname)
  leases name hname := h.leases name (hfewer _ hname)
  runners name hname := h.runners name (hfewer _ hname)
  labels name hname := h.labels name (hfewer _ hname)

end Agree

/-- A change of the object under one handle, which depends only on what is there. -/
structure Local (handle : Handle) (f : Objects → Objects) : Prop where
  alike : ∀ {handles : Handle → Prop} {o p : Objects}, Agree handles o p → Agree handles (f o) (f p)
  elsewhere : ∀ o, Agree (· ≠ handle) o (f o)

namespace Local

variable {name : Text}

/-- A change of the guards under one name is a change under the handle of that guard. -/
theorem guards {f : Roster Text Text → Roster Text Text} (hf : Roster.Local name f) :
    Local (.guard name) fun o => { o with guards := f o.guards } := by
  constructor
  case alike =>
    intro handles o p h
    exact { h with guards := hf.alike_among h.guards }
  case elsewhere =>
    intro o
    have hsame := hf.elsewhere_called Handle.guard o.guards
    exact { Agree.refl (· ≠ .guard name) o with guards := hsame }

/-- A change of the leases under one name is a change under the handle of that lease. -/
theorem leases {f : Roster Text Lease → Roster Text Lease} (hf : Roster.Local name f) :
    Local (.lease name) fun o => { o with leases := f o.leases } := by
  constructor
  case alike =>
    intro handles o p h
    exact { h with leases := hf.alike_among h.leases }
  case elsewhere =>
    intro o
    have hsame := hf.elsewhere_called Handle.lease o.leases
    exact { Agree.refl (· ≠ .lease name) o with leases := hsame }

/-- A change of the runners under one name is a change under the handle of that runner. -/
theorem runners {f : Roster Text Script.Runner → Roster Text Script.Runner}
    (hf : Roster.Local name f) :
    Local (.runner name) fun o => { o with runners := f o.runners } := by
  constructor
  case alike =>
    intro handles o p h
    exact { h with runners := hf.alike_among h.runners }
  case elsewhere =>
    intro o
    have hsame := hf.elsewhere_called Handle.runner o.runners
    exact { Agree.refl (· ≠ .runner name) o with runners := hsame }

/-- A change of the saved labels under one name is a change under the handle of that label. -/
theorem labels {f : Roster Text Label → Roster Text Label} (hf : Roster.Local name f) :
    Local (.label name) fun o => { o with labels := f o.labels } := by
  constructor
  case alike =>
    intro handles o p h
    exact { h with labels := hf.alike_among h.labels }
  case elsewhere =>
    intro o
    have hsame := hf.elsewhere_called Handle.label o.labels
    exact { Agree.refl (· ≠ .label name) o with labels := hsame }

end Local

end Objects

/-! ## Tasks -/

/-- An environment, and the objects that are used with it. -/
structure Task where
  environment : Environment
  holds : Handle → Prop

namespace Task

/-- The part of the world that a task works in. -/
def region (A : Task) : Region where
  registries := (· = A.environment.counters)
  contexts := (· = A.environment.contexts)
  options := (· = A.environment.name)
  scopes
    | .held name => A.holds (.scope name)
    | .opened runner _ => A.holds (.runner runner)
    | .transient => False

/-- A task works in its own environment. -/
theorem holds_region (A : Task) : A.region.Holds A.environment :=
  ⟨rfl, rfl, rfl⟩

/-- A task works in no other environment. -/
theorem environment_of_holds {A : Task} {environment : Environment}
    (h : A.region.Holds environment) : environment = A.environment := by
  obtain ⟨name, counters, contexts⟩ := environment
  have hname : name = A.environment.name := h.options
  have hcounters : counters = A.environment.counters := h.registry
  have hcontexts : contexts = A.environment.contexts := h.stack
  rw [hname, hcounters, hcontexts]

/-- The objects of a task belong together: its guards keep its scopes entered, no other guard does,
    its runners run in its environment, and its leases are on its stack. -/
structure Coherent (A : Task) (o : Objects) : Prop where
  environment : o.environments.get? A.environment.name = some A.environment
  guards : ∀ name scope, (name, scope) ∈ o.guards.entries →
    (A.holds (.guard name) ↔ A.holds (.scope scope))
  leases : ∀ name lease, A.holds (.lease name) → o.leases.get? name = some lease →
    lease.stack = A.environment.contexts
  runners : ∀ name runner, A.holds (.runner name) → o.runners.get? name = some runner →
    runner.name = name ∧ runner.environment = A.environment

namespace Coherent

variable {A : Task} {o : Objects}

/-- A guard of the task may keep a scope of the task entered. -/
theorem insertGuard (h : A.Coherent o) {name scope : Text} (hname : A.holds (.guard name))
    (hscope : A.holds (.scope scope)) :
    A.Coherent { o with guards := o.guards.insert name scope } := by
  have hguards : ∀ other kept, (other, kept) ∈ (o.guards.insert name scope).entries →
      (A.holds (.guard other) ↔ A.holds (.scope kept)) := by
    intro other kept hmem
    rcases List.mem_cons.mp hmem with heq | hold
    · -- the guard that is new, and the scope that it keeps
      obtain ⟨rfl, rfl⟩ := Prod.mk.inj heq
      exact iff_of_true hname hscope
    · exact h.guards other kept hold
  exact { h with guards := hguards }

/-- Guards that are gone keep nothing entered. -/
theorem eraseGuard (h : A.Coherent o) (name : Text) :
    A.Coherent { o with guards := o.guards.erase name } := by
  have hguards : ∀ other kept, (other, kept) ∈ (o.guards.erase name).entries →
      (A.holds (.guard other) ↔ A.holds (.scope kept)) := by
    intro other kept hmem
    obtain ⟨hold, -⟩ := List.mem_filter.mp hmem
    exact h.guards other kept hold
  exact { h with guards := hguards }

/-- A lease on the stack of the task may be added, whatever it is called. -/
theorem insertLease (h : A.Coherent o) (name : Text) {lease : Lease}
    (hlease : lease.stack = A.environment.contexts) :
    A.Coherent { o with leases := o.leases.insert name lease } :=
  { h with leases := Roster.found_insert h.leases hlease }

/-- A lease may be given up. -/
theorem eraseLease (h : A.Coherent o) (name : Text) :
    A.Coherent { o with leases := o.leases.erase name } :=
  { h with leases := Roster.found_erase h.leases name }

/-- A runner that knows its name and runs in the environment of the task may be added. -/
theorem insertRunner (h : A.Coherent o) {name : Text} {runner : Script.Runner}
    (hname : runner.name = name) (henvironment : runner.environment = A.environment) :
    A.Coherent { o with runners := o.runners.insert name runner } := by
  have hrunners := Roster.found_insert h.runners ⟨hname, henvironment⟩
  exact { h with runners := hrunners }

/-- A runner may be replaced by what it has become, if that still knows its name and runs in the
    environment of the task. -/
theorem setRunner (h : A.Coherent o) {name : Text} {runner : Script.Runner}
    (hname : runner.name = name) (henvironment : runner.environment = A.environment) :
    A.Coherent { o with runners := o.runners.modify name fun _ => runner } := by
  have hrunners := Roster.found_set h.runners ⟨hname, henvironment⟩
  exact { h with runners := hrunners }

/-- A runner may be dropped. -/
theorem eraseRunner (h : A.Coherent o) (name : Text) :
    A.Coherent { o with runners := o.runners.erase name } :=
  { h with runners := Roster.found_erase h.runners name }

end Coherent

/-- The worlds of two sessions, in a task's region. -/
def twins (A : Task) (first second : Session) : Twins :=
  ⟨A.region, first.world, second.world⟩

/-- Two sessions, reached from two others, in which the same has happened: they are the same to the
    task, its objects belong together, and all others are as they were. -/
structure Abreast (A : Task) (first second s t : Session) : Prop where
  worlds : (A.twins first second).Abreast s.world t.world
  objects : Objects.Agree A.holds s.objects t.objects
  coherent : A.Coherent s.objects
  coherent' : A.Coherent t.objects
  others : Objects.Agree (¬ A.holds ·) first.objects s.objects
  others' : Objects.Agree (¬ A.holds ·) second.objects t.objects

/-- What a task is named with is its own. -/
def HoldsLabel (A : Task) : LabelSource → Prop
  | .literal _ => True
  | .saved name => A.holds (.label name)

/-- What a label or a scope is called after is the task's. -/
def HoldsName (A : Task) : NameSource → Prop
  | .fresh _ => True
  | .label source => A.HoldsLabel source

/-- The place that a label is made at is the task's. -/
def HoldsLocation (A : Task) : Location → Prop
  | .current environment => environment = A.environment.name
  | .below scope => A.holds (.scope scope)

/-- What a scope is made from is the task's. -/
def HoldsSource (A : Task) : ScopeSource → Prop
  | .basename environment _ | .unnamed environment | .global environment =>
    environment = A.environment.name
  | .label environment source => environment = A.environment.name ∧ A.HoldsLabel source
  | .existing scope => A.holds (.scope scope)

/-- A request that is about a task: everything it names is the task's. Requests about the log and
    the metrics, which are everyone's, and those that make environments are about no task. -/
def Concerns (A : Task) : Request → Prop
  | .options name _ | .resetEnvironment name | .current name => name = A.environment.name
  | .makeLabel name location save =>
    A.HoldsName name ∧ A.HoldsLocation location ∧ ∀ key ∈ save, A.holds (.label key)
  | .newScope name source => A.holds (.scope name) ∧ A.HoldsSource source
  | .inspectScope name | .enterScope name | .exitScope name | .scopeName name | .nextSegment name
  | .nextNumber name | .checkScope name | .dropScope name => A.holds (.scope name)
  | .sameScope name other => A.holds (.scope name) ∧ A.holds (.scope other)
  | .newGuard name scope => A.holds (.guard name) ∧ A.holds (.scope scope)
  | .dropGuard name => A.holds (.guard name)
  | .newRunner name environment => A.holds (.runner name) ∧ environment = A.environment.name
  | .runScript name _ watch | .closeRunner name watch | .inspectRunner name watch
  | .dropRunner name watch => A.holds (.runner name) ∧ ∀ key ∈ watch, key = A.environment.name
  | .drawCount registry _ | .readCount registry _ | .zeroCount registry _ | .clearCounts registry
  | .countersHeld registry => registry = A.environment.counters
  | .push stack _ _ | .pop stack _ | .top stack _ | .popAs _ stack _ | .topAs _ stack _
  | .listing stack _ | .stackSize stack _ | .isEmpty stack _ | .clearStack stack
  | .removeData stack _ _ | .removeScope stack _ _ => stack = A.environment.contexts
  | .newLease name stack _ _ => A.holds (.lease name) ∧ stack = A.environment.contexts
  | .dropLease name => A.holds (.lease name)
  | _ => False

/-! ## Procedures of a task -/

section Procedures

variable {A : Task} {first second : Session}

omit first second in
theorem scopes_held {name : Text} (hname : A.holds (.scope name)) :
    A.region.scopes (.held name) :=
  hname

omit first second in
/-- Operations on the scopes of the task, in its environment, keep the worlds abreast. -/
theorem parallel (A : Task) {first second : Session} :
    Parallel (A.twins first second).Abreast A.region.Holds A.region.scopes :=
  (A.twins first second).parallel

namespace Abreast

variable {s t : Session}

/-- No other guard keeps a scope of the task entered. -/
theorem guarded_any (h : A.Abreast first second s t) {scope : Text}
    (hscope : A.holds (.scope scope)) :
    t.guards.entries.any (fun entry => entry.2 == scope) =
      s.guards.entries.any (fun entry => entry.2 == scope) := by
  have hstep : ∀ {o p : Objects}, A.Coherent o → Objects.Agree A.holds o p →
      o.guards.entries.any (fun entry => entry.2 == scope) = true →
      p.guards.entries.any (fun entry => entry.2 == scope) = true := by
    intro o p hcoherent hagree hany
    obtain ⟨⟨name, other⟩, hentry, heq⟩ := List.any_eq_true.mp hany
    have hother : other = scope := eq_of_beq heq
    rw [hother] at hentry
    have hname := (hcoherent.guards name scope hentry).mpr hscope
    -- the guard is one of the task, so the other side has it as well
    have hkept : scope ∈ p.guards.under name := by
      rw [hagree.guards name hname]
      exact Roster.mem_under.mpr hentry
    exact List.any_eq_true.mpr
      ⟨(name, scope), Roster.mem_under.mp hkept, beq_self_eq_true scope⟩
  rw [Bool.eq_iff_iff]
  exact ⟨hstep h.coherent' h.objects.symm, hstep h.coherent h.objects⟩

/-- Something of the task was changed on both sides: the worlds, and the object under a handle. -/
theorem change {s' t' : Session} {handle : Handle} {f : Objects → Objects}
    (h : A.Abreast first second s t) (hlocal : Objects.Local handle f) (hhandle : A.holds handle)
    (hcoherent : ∀ o, A.Coherent o → A.Coherent (f o))
    (hworlds : (A.twins first second).Abreast s'.world t'.world)
    (hs : s'.objects = f s.objects) (ht : t'.objects = f t.objects) :
    A.Abreast first second s' t' := by
  -- what does not belong to the task is under another handle
  have hothers : ∀ o, Objects.Agree (¬ A.holds ·) o (f o) := by
    intro o
    refine (hlocal.elsewhere o).mono ?_
    rintro other hother rfl
    exact hother hhandle
  refine ⟨hworlds, ?_, ?_, ?_, ?_, ?_⟩
  · rw [hs, ht]
    exact hlocal.alike h.objects
  · rw [hs]
    exact hcoherent _ h.coherent
  · rw [ht]
    exact hcoherent _ h.coherent'
  · rw [hs]
    exact h.others.trans (hothers _)
  · rw [ht]
    exact h.others'.trans (hothers _)

end Abreast

variable {α : Type}

/-- An action on worlds that is alike in two worlds is alike in two sessions. -/
theorem act_twinned {Q : α → Prop} {action : Action α}
    (haction : Twinned (A.twins first second).Abreast Q action) :
    Twinned (A.Abreast first second) Q (act action) := by
  intro s t h
  have hmatched := haction _ _ h.worlds
  simp only [act]
  generalize action s.world = left at hmatched
  generalize action t.world = right at hmatched
  cases hmatched with
  | ok hvalue hworlds =>
      exact .ok hvalue ⟨hworlds, h.objects, h.coherent, h.coherent', h.others, h.others'⟩
  | error hworlds =>
      exact .error ⟨hworlds, h.objects, h.coherent, h.coherent', h.others, h.others'⟩

theorem modifyWorld_twinned {f : World → World}
    (hf : ∀ w v, (A.twins first second).Abreast w v → (A.twins first second).Abreast (f w) (f v)) :
    Twinned (A.Abreast first second) (fun _ => True) (modifyWorld f) := by
  refine .modify ?_
  intro s t h
  have hworlds := hf s.world t.world h.worlds
  exact ⟨hworlds, h.objects, h.coherent, h.coherent', h.others, h.others'⟩

/-- An object of the task is found alike. -/
theorem held_twinned {ν : Type} {Q : ν → Prop} (find : Objects → Roster Text ν) {name : Text}
    (hfind : ∀ o p, Objects.Agree A.holds o p → (find p).get? name = (find o).get? name)
    (hfound : ∀ o value, A.Coherent o → (find o).get? name = some value → Q value) :
    Twinned (A.Abreast first second) Q (do held (find (← get).objects) name) := by
  refine .of_get fun s t h => ?_
  simp only [held, hfind _ _ h.objects]
  cases hvalue : (find s.objects).get? name with
  | none => exact .error h
  | some value => exact .ok (hfound _ value h.coherent hvalue) h

/-- The environment that is found under the name of the task's is the task's. -/
theorem environmentOf_twinned {name : Text} (hname : name = A.environment.name) :
    Twinned (A.Abreast first second) (· = A.environment) (environmentOf name) := by
  refine held_twinned (·.environments) (fun o p h => by rw [h.environments]) ?_
  intro o value hcoherent hvalue
  rw [hname, hcoherent.environment] at hvalue
  exact (Option.some.inj hvalue).symm

/-- A runner of the task is found alike, and it runs in the environment of the task. -/
theorem runnerOf_twinned {name : Text} (hname : A.holds (.runner name)) :
    Twinned (A.Abreast first second) (fun r => r.name = name ∧ r.environment = A.environment)
      (runnerOf name) := by
  refine held_twinned (·.runners) ?_ ?_
  · intro o p h
    exact Roster.get?_congr (h.runners name hname)
  · intro o runner hcoherent hfound
    exact hcoherent.runners name runner hname hfound

/-- A lease of the task is found alike, and it is on the stack of the task. -/
theorem leaseOf_twinned {name : Text} (hname : A.holds (.lease name)) :
    Twinned (A.Abreast first second) (fun lease => lease.stack = A.environment.contexts)
      (do held (← get).leases name) := by
  refine held_twinned (·.leases) ?_ ?_
  · intro o p h
    exact Roster.get?_congr (h.leases name hname)
  · intro o lease hcoherent hfound
    exact hcoherent.leases name lease hname hfound

/-- What a guard of the task keeps entered is a scope of the task. -/
theorem guardOf_twinned {name : Text} (hname : A.holds (.guard name)) :
    Twinned (A.Abreast first second) (fun scope => A.holds (.scope scope))
      (do held (← get).guards name) := by
  refine held_twinned (·.guards) ?_ ?_
  · intro o p h
    exact Roster.get?_congr (h.guards name hname)
  · intro o scope hcoherent hfound
    have hentry := Roster.mem_of_get? hfound
    exact (hcoherent.guards name scope hentry).mp hname

/-- Whether a handle of the task is free is seen alike. -/
theorem requireFree_twinned {ν : Type} (find : Objects → Roster Text ν) {name : Text}
    (hfind : ∀ o p, Objects.Agree A.holds o p → (find p).get? name = (find o).get? name) :
    Twinned (A.Abreast first second) (fun _ => True)
      (do requireFree (find (← get).objects) name) := by
  refine .of_get fun s t h => ?_
  have hsame : (find t.objects).contains name = (find s.objects).contains name :=
    congrArg Option.isSome (hfind _ _ h.objects)
  rw [requireFree, requireFree, hsame]
  split
  · exact .error h
  · exact .ok trivial h

theorem modifyObjects_twinned {handle : Handle} {f : Objects → Objects}
    (hlocal : Objects.Local handle f) (hhandle : A.holds handle)
    (hcoherent : ∀ o, A.Coherent o → A.Coherent (f o)) :
    Twinned (A.Abreast first second) (fun _ => True)
      (modify fun s => s.withObjects (f s.objects) : Procedure PUnit) := by
  refine .modify ?_
  intro s t h
  exact h.change hlocal hhandle hcoherent h.worlds rfl rfl

theorem scopeOf_twinned {name : Text} (hname : A.holds (.scope name)) :
    Twinned (A.Abreast first second) (fun _ => True) (scopeOf name) :=
  act_twinned ((A.parallel.fetch_twinned (scopes_held hname)).imp fun _ _ => trivial)

theorem labelOf_twinned {source : LabelSource} (hsource : A.HoldsLabel source) :
    Twinned (A.Abreast first second) (fun _ => True) (labelOf source) := by
  cases source with
  | literal label => exact .pure trivial
  | saved name =>
      refine held_twinned (·.labels) ?_ fun _ _ _ _ => trivial
      intro o p h
      exact Roster.get?_congr (h.labels name hsource)

theorem nameOf_twinned {name : NameSource} (hname : A.HoldsName name) :
    Twinned (A.Abreast first second) (fun _ => True) (nameOf name) := by
  cases name with
  | fresh name => exact .pure trivial
  | label source => exact (labelOf_twinned hname).bind fun _ _ => .pure trivial

/-- What a scope is made from is found alike, and it is in the region of the task. -/
theorem originOf_twinned {source : ScopeSource} (hsource : A.HoldsSource source) :
    Twinned (A.Abreast first second) (fun origin => origin.In A.region) (originOf source) := by
  have hheld : ∀ {environment : Environment}, environment = A.environment →
      A.region.Holds environment := by
    rintro _ rfl
    exact A.holds_region
  cases source with
  | basename environment name =>
      exact (environmentOf_twinned hsource).bind fun _ heq => .pure (hheld heq)
  | unnamed environment =>
      exact (environmentOf_twinned hsource).bind fun _ heq => .pure (hheld heq)
  | label environment source =>
      refine (environmentOf_twinned hsource.1).bind fun _ heq => ?_
      exact (labelOf_twinned hsource.2).bind fun _ _ => .pure (hheld heq)
  | global environment =>
      exact (environmentOf_twinned hsource).bind fun _ heq => .pure (hheld heq)
  | existing scope => exact .pure hsource

/-! ### Values as they are displayed -/

/-- The value is no scope, or one of the task. -/
def HoldsValue (A : Task) (value : Value) : Prop :=
  ∀ id, value = .scope id → A.region.scopes id

omit first second in
/-- A value is displayed alike in worlds that agree, if it is no foreign scope. -/
theorem shown_eq {w v : World} (h : A.region.Agree w v) {value : Value}
    (hvalue : A.HoldsValue value) :
    Shown.ofValue v value = Shown.ofValue w value := by
  cases value with
  | scope id => rw [Shown.ofValue, h.scope? id (hvalue id rfl), Shown.ofValue]
  | int n => rfl
  | bool b => rfl
  | text t => rfl
  | empty => rfl

/-- What goes on with the world may read what both worlds have in common. -/
theorem getWorld_twinned {β : Type} {Q : β → Prop} {f : World → Procedure β}
    (hf : ∀ w v, (A.twins first second).Abreast w v → f v = f w)
    (htwinned : ∀ w, Twinned (A.Abreast first second) Q (f w)) :
    Twinned (A.Abreast first second) Q (getWorld >>= f) := by
  intro s t h
  have happly : ∀ u : Session, (getWorld >>= f) u = f u.world u := fun _ => rfl
  rw [happly, happly, hf _ _ h.worlds]
  exact htwinned s.world s t h

theorem displayed_twinned {value : Value} (hvalue : A.HoldsValue value) :
    Twinned (A.Abreast first second) (fun _ => True) (displayed value) :=
  getWorld_twinned (fun w v h => by rw [shown_eq h.agree hvalue]) fun _ => .pure trivial

/-- Data of the task is displayed alike. -/
theorem displayedData_twinned {type : ValueType} {data : type.Carrier}
    (hdata : A.HoldsValue (.of type data)) :
    Twinned (A.Abreast first second) (fun _ => True) (displayedData type data) := by
  cases type with
  | int => exact .pure trivial
  | bool => exact .pure trivial
  | text => exact .pure trivial
  | scope =>
      exact (act_twinned (A.parallel.fetch_twinned (hdata _ rfl))).bind fun _ _ => .pure trivial

/-! ### Requests -/

/-- The options of the task's environment are set, and read, alike. -/
theorem changeOptions_twinned {name : Text} (hname : name = A.environment.name)
    (change : Option Options) :
    Twinned (A.Abreast first second) (fun _ => True) (changeOptions name change) := by
  refine (environmentOf_twinned hname).bind fun environment henvironment => ?_
  rw [henvironment]
  refine (modifyWorld_twinned fun w v h => ?_).bind fun _ _ => ?_
  · cases change with
    | none => exact h
    | some options => exact h.setOptions A.holds_region.options options
  · refine getWorld_twinned (fun w v h => ?_) fun w => .pure trivial
    rw [h.agree.options A.environment rfl]

/-- The innermost active scope of the task's environment is found alike. -/
theorem currentScope_twinned {name : Text} (hname : name = A.environment.name) :
    Twinned (A.Abreast first second) (fun _ => True) (currentScope name) := by
  refine (environmentOf_twinned hname).bind fun environment henvironment => ?_
  rw [henvironment]
  refine act_twinned ((A.parallel.current_twinned A.holds_region).bind fun id? hid => ?_)
  cases id? with
  | none => exact .pure trivial
  | some id => exact (A.parallel.fetch_twinned (hid id rfl)).bind fun _ _ => .pure trivial

/-- Resetting the task's environment empties its registry and its stack on both sides. -/
theorem resetEnvironment_twinned {name : Text} (hname : name = A.environment.name) :
    Twinned (A.Abreast first second) (fun _ => True) (perform (.resetEnvironment name)) := by
  refine (environmentOf_twinned hname).bind fun environment henvironment => ?_
  rw [henvironment]
  refine .bind (act_twinned (.modify fun w v h => ?_)) fun _ _ => .pure trivial
  exact (h.modifyRegistry rfl _).modifyStack rfl fun _ _ => .empty _

/-- A label that is made in the environment of the task, or below its scopes, is the same in both
    sessions, and is saved alike. -/
theorem makeLabel_twinned (hfresh : (A.twins first second).Fresh) {name : NameSource}
    {location : Location} {save : Option Text} (hname : A.HoldsName name)
    (hlocation : A.HoldsLocation location) (hsave : ∀ key ∈ save, A.holds (.label key)) :
    Twinned (A.Abreast first second) (fun _ => True) (makeLabel name location save) := by
  have hlabel : ∀ naming, Twinned (A.Abreast first second) (fun _ => True)
      (labelAt naming location) := by
    intro naming
    cases location with
    | current environment =>
        refine (environmentOf_twinned hlocation).bind fun environment henvironment => ?_
        rw [henvironment]
        exact act_twinned (Environment.labelFor_twinned hfresh A.holds_region naming)
    | below scope => exact act_twinned (ScopeId.labelFor_twinned hlocation naming)
  refine (nameOf_twinned hname).bind fun naming _ => (hlabel naming).bind fun label _ => ?_
  refine .bind (P := fun _ => True) ?_ fun _ _ => .pure trivial
  cases save with
  | none => exact .modify fun s t h => h
  | some key =>
      have hkept : Objects.Local (.label key)
          fun o => { o with labels := (o.labels.erase key).insert key label } :=
        .labels ((Roster.Local.erase key).comp (.insert key label))
      exact modifyObjects_twinned hkept (hsave key rfl)
        fun o ho => ⟨ho.environment, ho.guards, ho.leases, ho.runners⟩

theorem newScope_twinned {name : Text} {source : ScopeSource} (hname : A.holds (.scope name))
    (hsource : A.HoldsSource source) :
    Twinned (A.Abreast first second) (fun _ => True) (newScope name source) := by
  refine (originOf_twinned hsource).bind fun origin horigin => ?_
  refine (act_twinned
    (A.parallel.create_twinned (scopes_held hname) horigin.alike)).bind fun _ _ => ?_
  exact (scopeOf_twinned hname).bind fun _ _ => .pure trivial

/-- A scope of the task is dropped alike, and is kept alike if a guard keeps it entered. -/
theorem dropScope_twinned {name : Text} (hname : A.holds (.scope name)) :
    Twinned (A.Abreast first second) (fun _ => True) (dropScope name) := by
  refine .of_get fun s t h => ?_
  rw [h.guarded_any hname]
  refine (?_ : Twinned (A.Abreast first second) (fun _ => True) _) s t h
  split
  · exact .throw _
  · exact (act_twinned (A.parallel.destroy_twinned (scopes_held hname))).bind fun _ _ =>
      .pure trivial

/-- A guard of the task enters its scope alike. -/
theorem newGuard_twinned {name scope : Text} (hname : A.holds (.guard name))
    (hscope : A.holds (.scope scope)) :
    Twinned (A.Abreast first second) (fun _ => True) (newGuard name scope) := by
  refine (requireFree_twinned (·.guards) fun o p h =>
    Roster.get?_congr (h.guards name hname)).bind fun _ _ => ?_
  refine (act_twinned (A.parallel.enter_twinned (scopes_held hscope))).bind fun _ _ => ?_
  refine (modifyObjects_twinned (.guards (.insert name scope)) hname
    fun o ho => ho.insertGuard hname hscope).bind fun _ _ => ?_
  exact (scopeOf_twinned hscope).bind fun _ _ => .pure trivial

theorem dropGuard_twinned {name : Text} (hname : A.holds (.guard name)) :
    Twinned (A.Abreast first second) (fun _ => True) (dropGuard name) := by
  refine (guardOf_twinned hname).bind fun scope hscope => ?_
  refine (act_twinned (A.parallel.release_twinned (scopes_held hscope))).bind fun _ _ => ?_
  refine (modifyObjects_twinned (.guards (.erase name)) hname
    fun o ho => ho.eraseGuard name).bind fun _ _ => ?_
  exact (scopeOf_twinned hscope).bind fun _ _ => .pure trivial

/-- A runner of the task is made alike. -/
theorem newRunner_twinned {name environment : Text} (hname : A.holds (.runner name))
    (henvironment : environment = A.environment.name) :
    Twinned (A.Abreast first second) (fun _ => True) (newRunner name environment) := by
  refine (environmentOf_twinned henvironment).bind fun found hfound => ?_
  refine (requireFree_twinned (·.runners) fun o p h =>
    Roster.get?_congr (h.runners name hname)).bind fun _ _ => ?_
  refine .bind (P := fun _ => True) ?_ fun _ _ => .pure trivial
  exact modifyObjects_twinned (.runners (.insert name { name, environment := found })) hname
    fun o ho => ho.insertRunner rfl hfound

/-- A runner of the task works in the region of the task. -/
theorem serves {r : Script.Runner} (hname : A.holds (.runner r.name))
    (henvironment : r.environment = A.environment) : (A.twins first second).Serves r where
  environment := henvironment ▸ A.holds_region
  opened _ := hname

/-- What a run of a runner of the task leaves is taken over alike, and what is done after it depends
    only on how it ended, what it printed and where the runner is. -/
theorem adopt_twinned {Q : α → Prop} {r : Script.Runner} {run : Script.Run Unit}
    (hrun : Twinned (Script.Running (A.twins first second) r) (fun _ => True) run)
    (hname : A.holds (.runner r.name)) (henvironment : r.environment = A.environment)
    (rest : Script.Outcome → Procedure α)
    (hrest : ∀ o p, p.error? = o.error? → p.state.printed = o.state.printed →
      p.state.runner = o.state.runner → rest p = rest o)
    (htwinned : ∀ o, Twinned (A.Abreast first second) Q (rest o)) :
    Twinned (A.Abreast first second) Q (getWorld >>= fun w =>
      adopt r.name (run.outcome { world := w, runner := r }) >>= fun _ =>
      rest (run.outcome { world := w, runner := r })) := by
  intro s t h
  let left := run.outcome { world := s.world, runner := r }
  let right := run.outcome { world := t.world, runner := r }
  obtain ⟨herror, hstates⟩ := Script.Run.outcome_of_twinned hrun
    (s := { world := s.world, runner := r }) (t := { world := t.world, runner := r })
    ⟨h.worlds, rfl, rfl, rfl, rfl⟩
  have hrunner : right.state.runner = left.state.runner := hstates.runner
  have hadopted : A.Abreast first second
      { s with world := left.state.world
               runners := s.runners.modify r.name fun _ => left.state.runner }
      { t with world := right.state.world
               runners := t.runners.modify r.name fun _ => right.state.runner } := by
    rw [hrunner]
    exact h.change (.runners (.modify r.name fun _ => left.state.runner)) hname
      (fun o ho => ho.setRunner hstates.name (hstates.environment.trans henvironment))
      hstates.worlds rfl rfl
  have hright : rest right = rest left := hrest left right herror hstates.printed hrunner
  show Matched _ Q (rest left _) (rest right _)
  rw [hright]
  exact htwinned left _ _ hadopted

theorem inspectRunner_twinned {name : Text} (hname : A.holds (.runner name)) :
    Twinned (A.Abreast first second) (fun _ => True) (inspectRunner name) :=
  (runnerOf_twinned hname).bind fun _ _ => .pure trivial

/-- A script that a runner of the task runs prints the same and ends alike in both sessions. -/
theorem runScript_twinned (hfresh : (A.twins first second).Fresh) {name : Text}
    (hname : A.holds (.runner name)) (script : Text) :
    Twinned (A.Abreast first second) (fun _ => True) (runScript name script) := by
  refine (runnerOf_twinned hname).bind fun r ⟨heq, henvironment⟩ => ?_
  subst heq
  have hrun := Script.Run.runText_twinned (serves hname henvironment) hfresh script
  refine adopt_twinned hrun hname henvironment (fun outcome =>
    pure (Answer.ran outcome.error? outcome.state.output outcome.state.runner.line
      outcome.state.runner.depth)) ?_ fun _ => .pure trivial
  intro o p herror hprinted hrunner
  rw [herror, hrunner, Script.RunState.output, hprinted, Script.RunState.output]

/-- Closing a runner of the task takes off its scopes on both sides. -/
theorem closeRunner_twinned {name : Text} (hname : A.holds (.runner name)) :
    Twinned (A.Abreast first second) (fun _ => True) (closeRunner name) := by
  refine (runnerOf_twinned hname).bind fun r ⟨heq, henvironment⟩ => ?_
  subst heq
  have hserves : (A.twins first second).Serves r := serves hname henvironment
  have hrun := Script.Run.unwind_twinned hserves
  exact adopt_twinned hrun hname henvironment (fun _ => inspectRunner r.name)
    (fun _ _ _ _ _ => rfl) fun _ => inspectRunner_twinned hname

/-- A runner of the task that is dropped is closed first, on both sides. -/
theorem dropRunner_twinned {name : Text} (hname : A.holds (.runner name)) :
    Twinned (A.Abreast first second) (fun _ => True) (dropRunner name) := by
  refine (runnerOf_twinned hname).bind fun r ⟨heq, henvironment⟩ => ?_
  subst heq
  have hserves : (A.twins first second).Serves r := serves hname henvironment
  have hrun := Script.Run.unwind_twinned hserves
  refine adopt_twinned hrun hname henvironment (fun _ => do
    modify fun s : Session => { s with runners := s.runners.erase r.name }
    return Answer.nothing) (fun _ _ _ _ _ => rfl) fun _ => ?_
  refine .bind (P := fun _ => True) ?_ fun _ _ => .pure trivial
  exact modifyObjects_twinned (.runners (.erase r.name)) hname fun o ho => ho.eraseRunner r.name

/-- A lease of the task puts its value on the task's stack on both sides. -/
theorem newLease_twinned {name : Text} {lease : Lease} {value : Value}
    (hname : A.holds (.lease name)) (hlease : lease.stack = A.environment.contexts)
    (hvalue : A.HoldsValue value) :
    Twinned (A.Abreast first second) (fun _ => True) (newLease name lease value) := by
  refine (requireFree_twinned (·.leases) fun o p h =>
    Roster.get?_congr (h.leases name hname)).bind fun _ _ => ?_
  refine (act_twinned (Lease.start_twinned hlease hvalue)).bind fun _ _ => ?_
  refine .bind (P := fun _ => True) ?_ fun _ _ => .pure trivial
  exact modifyObjects_twinned (.leases (.insert name lease)) hname
    fun o ho => ho.insertLease name hlease

theorem dropLease_twinned {name : Text} (hname : A.holds (.lease name)) :
    Twinned (A.Abreast first second) (fun _ => True) (dropLease name) := by
  refine (leaseOf_twinned hname).bind fun lease hlease => ?_
  refine (act_twinned (Lease.finish_twinned hlease)).bind fun _ _ => ?_
  refine .bind (P := fun _ => True) ?_ fun _ _ => .pure trivial
  exact modifyObjects_twinned (.leases (.erase name)) hname fun o ho => ho.eraseLease name

theorem eraseAll_twinned {stack key : Text} (hstack : stack = A.environment.contexts)
    (type : ValueType) (data : type.Carrier) :
    Twinned (A.Abreast first second) (fun _ => True) (eraseAll stack key type data) := by
  refine .bind (P := fun _ => True) (act_twinned (takeFromStack_twinned hstack ?_))
    fun _ _ => .pure trivial
  intro c a rest hc h
  cases h
  exact ⟨trivial, hc.eraseAll type data⟩

/-- What is on the stack of the task is listed alike. -/
theorem listing_twinned {stack : Text} (hstack : stack = A.environment.contexts) (key : Text) :
    Twinned (A.Abreast first second) (fun _ => True) (perform (.listing stack key)) := by
  intro s t h
  have hsame : t.world.stack stack = s.world.stack stack := h.worlds.agree.stack stack hstack
  have hshown : ((t.world.stack stack).toList key).map (Shown.ofValue t.world) =
      ((s.world.stack stack).toList key).map (Shown.ofValue s.world) := by
    rw [hsame]
    refine List.map_congr_left fun value hvalue => shown_eq h.worlds.agree ?_
    rintro id rfl
    exact h.worlds.closed.contexts stack hstack key id (List.mem_reverse.mp hvalue)
  have happly : ∀ u : Session, perform (.listing stack key) u =
      .ok (.values (((u.world.stack stack).toList key).map (.ofValue u.world))) u := fun _ => rfl
  rw [happly, happly, hshown]
  exact .ok trivial h

/-- A request that concerns a task is carried out alike in two sessions that are the same to it. -/
theorem perform_twinned (hfresh : (A.twins first second).Fresh) {request : Request}
    (hconcerns : A.Concerns request) :
    Twinned (A.Abreast first second) (fun _ => True) (perform request) := by
  cases request
  case options name change => exact changeOptions_twinned hconcerns change
  case resetEnvironment name => exact resetEnvironment_twinned hconcerns
  case current name => exact currentScope_twinned hconcerns
  case makeLabel name location save =>
    exact makeLabel_twinned hfresh hconcerns.1 hconcerns.2.1 hconcerns.2.2
  -- scopes and guards: the one that is named is held by the task
  case newScope name source => exact newScope_twinned hconcerns.1 hconcerns.2
  case inspectScope name => exact (scopeOf_twinned hconcerns).bind fun _ _ => .pure trivial
  case enterScope name =>
    refine (act_twinned (A.parallel.enter_twinned (scopes_held hconcerns))).bind fun _ _ => ?_
    exact (scopeOf_twinned hconcerns).bind fun _ _ => .pure trivial
  case exitScope name =>
    refine (act_twinned (A.parallel.exit_twinned (scopes_held hconcerns))).bind fun _ _ => ?_
    exact (scopeOf_twinned hconcerns).bind fun _ _ => .pure trivial
  case scopeName name =>
    exact (act_twinned (A.parallel.path_twinned (scopes_held hconcerns))).bind fun _ _ =>
      .pure trivial
  case nextSegment name =>
    refine (act_twinned (A.parallel.nextSegment_twinned (scopes_held hconcerns))).bind ?_
    exact fun _ _ => .pure trivial
  case nextNumber name =>
    refine (act_twinned (A.parallel.nextNumber_twinned (scopes_held hconcerns))).bind ?_
    exact fun _ _ => .pure trivial
  case checkScope name =>
    exact (act_twinned (A.parallel.path_twinned (scopes_held hconcerns))).bind fun _ _ =>
      .pure trivial
  case sameScope name other =>
    refine (scopeOf_twinned hconcerns.1).bind fun _ _ => ?_
    exact (scopeOf_twinned hconcerns.2).bind fun _ _ => .pure trivial
  case dropScope name => exact dropScope_twinned hconcerns
  case newGuard name scope => exact newGuard_twinned hconcerns.1 hconcerns.2
  case dropGuard name => exact dropGuard_twinned hconcerns
  -- runners: a script works in the environment of its runner, which is that of the task
  case newRunner name environment => exact newRunner_twinned hconcerns.1 hconcerns.2
  case runScript name script watch => exact runScript_twinned hfresh hconcerns.1 script
  case closeRunner name watch => exact closeRunner_twinned hconcerns.1
  case inspectRunner name watch => exact inspectRunner_twinned hconcerns.1
  case dropRunner name watch => exact dropRunner_twinned hconcerns.1
  -- counters: the registry is in the region of the task
  case drawCount registry counter =>
    exact (act_twinned (draw_twinned hconcerns counter)).bind fun _ _ => .pure trivial
  case readCount registry counter =>
    exact getWorld_twinned (fun w v h => by rw [h.agree.registry registry hconcerns])
      fun _ => .pure trivial
  case zeroCount registry counter =>
    refine (modifyWorld_twinned fun w v h => ?_).bind fun _ _ => .pure trivial
    exact h.modifyRegistry hconcerns _
  case clearCounts registry =>
    refine (modifyWorld_twinned fun w v h => ?_).bind fun _ _ => .pure trivial
    exact h.modifyRegistry hconcerns _
  case countersHeld registry =>
    exact getWorld_twinned (fun w v h => by rw [h.agree.registry registry hconcerns])
      fun _ => .pure trivial
  -- context stacks: a scope on a stack of the task is held by the task, so it is shown alike
  case push stack key datum =>
    refine (modifyWorld_twinned fun w v h => ?_).bind fun _ _ => ?_
    · exact h.modifyStack hconcerns fun c hc =>
        hc.push fun id heq => absurd heq (datum_ne_scope datum id)
    · exact getWorld_twinned (fun w v h => by rw [h.agree.stack stack hconcerns])
        fun _ => .pure trivial
  case pop stack key =>
    have hpop : Twinned (A.twins first second).Abreast A.HoldsValue
        (Action.takeFromStack stack (·.pop key)) :=
      takeFromStack_twinned hconcerns fun c value rest hc h => hc.of_pop h
    exact (act_twinned hpop).bind fun value hvalue => displayed_twinned hvalue
  case top stack key =>
    have htop : Twinned (A.twins first second).Abreast A.HoldsValue
        (Action.readStack stack (·.top key)) :=
      readStack_twinned hconcerns fun c value hc h id heq =>
        hc key id (heq ▸ Contexts.mem_of_top h)
    exact (act_twinned htop).bind fun value hvalue => displayed_twinned hvalue
  case popAs type stack key =>
    have hpop : Twinned (A.twins first second).Abreast (fun data => A.HoldsValue (.of type data))
        (Action.takeFromStack stack (·.popAs type key)) :=
      takeFromStack_twinned hconcerns fun c data rest hc h => hc.of_popAs h
    exact (act_twinned hpop).bind fun data hdata => displayedData_twinned hdata
  case topAs type stack key =>
    have htop : Twinned (A.twins first second).Abreast (fun data => A.HoldsValue (.of type data))
        (Action.readStack stack (·.topAs type key)) :=
      readStack_twinned hconcerns fun c data hc h id heq =>
        hc key id (heq ▸ Contexts.mem_of_topAs h)
    exact (act_twinned htop).bind fun data hdata => displayedData_twinned hdata
  case listing stack key => exact listing_twinned hconcerns key
  case stackSize stack key =>
    exact getWorld_twinned (fun w v h => by rw [h.agree.stack stack hconcerns])
      fun _ => .pure trivial
  case isEmpty stack key =>
    exact getWorld_twinned (fun w v h => by rw [h.agree.stack stack hconcerns])
      fun _ => .pure trivial
  case clearStack stack =>
    refine (modifyWorld_twinned fun w v h => ?_).bind fun _ _ => .pure trivial
    exact h.modifyStack hconcerns fun _ _ => .empty _
  case removeData stack key datum => exact eraseAll_twinned hconcerns _ _
  case removeScope stack key scope => exact eraseAll_twinned hconcerns _ _
  case newLease name stack key datum =>
    refine newLease_twinned hconcerns.1 hconcerns.2 fun id heq => ?_
    exact absurd heq (datum_ne_scope datum id)
  case dropLease name => exact dropLease_twinned hconcerns
  -- the other requests concern no task
  all_goals exact hconcerns.elim

end Procedures

end Task

end Session

end ScopedLabels
