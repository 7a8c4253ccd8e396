import Mathlib.Algebra.Group.Nat.Defs
import Mathlib.Data.List.Nodup
import ScopedLabels.Proofs.Frames

/-!
# Uniqueness — no two scopes or labels of a script have one path

The number of a scope's nameless children is kept while the scope is open and is lost when it is
closed; and a scope that is entered again starts from zero. So labels are unique only if no scope is
entered again, which in turn is a matter of unique paths. The proof goes by induction along a run
in a fresh environment, with two invariants about the paths visited so far. `Explored` says what
they look like: their parents were visited before, and their last segments are names that the script
gave or are numerals. `Counted` says that those which are numbered below an open scope, or globally,
have numbers that were drawn already.

A path that is visited next is then new. Its name was not given below this parent before, or its
number was not drawn yet. It has no visited children either, since it would have been visited
before them, so it may count from zero when it is opened.
-/

namespace ScopedLabels.Script

/-! ## What is seen of commands, on frames -/

/-- What a command gave, visited and printed for a label. -/
structure Event where
  given? : Option (Path × Text) := none
  visited? : Option Path := none
  labelLine? : Option Text := none

namespace Frames

/-- The event of a command that succeeded. -/
def event (f : Frames) (command : Command) : Event :=
  match command.verb with
  | .scope name =>
    { given? := name.map (f.top?.getD [], ·), visited? := some (f.settle name).1 }
  | .label name =>
    { given? := name.map (f.top?.getD [], ·)
      visited? := some (f.settle name).1
      labelLine? := some (f.settle name).1.text }
  | _ => {}

/-- The events of a run. -/
def events (options : Options) : List Command → Frames → List Event
  | [], _ => []
  | command :: rest, f =>
    match f.step options command with
    | .error _ => [{}]
    | .ok (_, g) => f.event command :: events options rest g

end Frames

/-! ## Paths visited so far -/

/-- What the visited paths look like, by the names that were given. -/
structure Explored (f : Frames) (visited : List Path) (given : List (Path × Text)) : Prop where
  nested : f.Nested
  proper : ∀ path ∈ visited, path.Proper
  opened : ∀ frame ∈ f.stack, frame.path ∈ visited
  apart : Scope.globalPath ∉ visited
  closed : ∀ {parents : Path} {segment : Text}, parents ++ [segment] ∈ visited →
    parents = [] ∨ parents = Scope.globalPath ∨ parents ∈ visited
  named : ∀ {parents : Path} {segment : Text}, parents ++ [segment] ∈ visited →
    (parents, segment) ∈ given ∨ segment.isNumeral = true

/-- How far the visited paths are numbered, where numbers go on, after some number of draws. -/
structure Counted (f : Frames) (visited : List Path) (drawn : Nat) : Prop where
  children : ∀ frame ∈ f.stack, ∀ n, frame.path ++ [Text.ofCount n] ∈ visited →
    n.toNat ≤ frame.children.toNat
  global : ∀ n, Scope.globalPath ++ [Text.ofCount n] ∈ visited → n.toNat ≤ f.global.toNat
  few : ∀ frame ∈ f.stack, frame.children.toNat ≤ drawn
  fewGlobal : f.global.toNat ≤ drawn

/-- Counting up does not wrap around as long as few numbers were drawn. -/
theorem toNat_succ {n : UInt64} {drawn : Nat} (hfew : n.toNat ≤ drawn)
    (hroom : drawn + 1 < 2 ^ 64) : (n + 1).toNat = n.toNat + 1 := by
  rw [UInt64.toNat_add, UInt64.toNat_one]
  omega

/-- A name that may be given: new below its parent, no numeral, and not the place of global
    numbering. -/
structure NewName (given : List (Path × Text)) (parents : Path) (name : Text) : Prop where
  not_mem : (parents, name) ∉ given
  not_numeral : name.isNumeral = false
  not_global : parents = [] → name ≠ "global"

section Visiting

variable {f g : Frames} {visited : List Path} {given : List (Path × Text)} {drawn : Nat}

private theorem snoc_inj {p q : Path} {a b : Text} (h : p ++ [a] = q ++ [b]) : p = q ∧ a = b := by
  obtain ⟨hinit, hlast⟩ := List.append_inj' h rfl
  exact ⟨hinit, List.head_eq_of_cons_eq hlast⟩

/-- Below the place of global numbering, or below an open scope, no path is that place itself. -/
private theorem snoc_ne_globalPath {p : Path} (hne : p ≠ []) (a : Text) :
    p ++ [a] ≠ Scope.globalPath := by
  intro h
  exact hne (snoc_inj (q := []) h).1

namespace Explored

/-- What new names are given below was visited, unless no scope is open. -/
theorem top_visited (h : Explored f visited given) :
    f.top?.getD [] = [] ∨ f.top?.getD [] = Scope.globalPath ∨ f.top?.getD [] ∈ visited := by
  cases hstack : f.stack with
  | nil =>
      rw [Frames.top?_of_nil hstack]
      exact .inl rfl
  | cons frame rest =>
      rw [Frames.top?_of_cons hstack]
      exact .inr (.inr (h.opened frame (hstack ▸ List.mem_cons_self)))

/-- One more path is visited, by a name that is given or by a numeral. -/
theorem visit (h : Explored f visited given) (more : List (Path × Text)) {base : Path}
    {segment : Text} (hnested : g.Nested) (hproper : Path.Proper (base ++ [segment]))
    (hpaths : g.stack.map Frame.path = f.stack.map Frame.path)
    (hglobal : base ++ [segment] ≠ Scope.globalPath)
    (hbase : base = [] ∨ base = Scope.globalPath ∨ base ∈ visited)
    (hsegment : (base, segment) ∈ more ∨ segment.isNumeral = true) :
    Explored g ((base ++ [segment]) :: visited) (more ++ given) where
  nested := hnested
  proper := List.forall_mem_cons.mpr ⟨hproper, h.proper⟩
  opened frame hframe := by
    have hmem : frame.path ∈ f.stack.map Frame.path := hpaths ▸ List.mem_map_of_mem hframe
    obtain ⟨other, hother, heq⟩ := List.mem_map.mp hmem
    exact List.mem_cons_of_mem _ (heq ▸ h.opened other hother)
  apart hmem := by
    rcases List.mem_cons.mp hmem with heq | hold
    · exact hglobal heq.symm
    · exact h.apart hold
  closed {parents last} hmem := by
    have hparents : parents = [] ∨ parents = Scope.globalPath ∨ parents ∈ visited := by
      rcases List.mem_cons.mp hmem with heq | hold
      · rw [(snoc_inj heq).1]
        exact hbase
      · exact h.closed hold
    rcases hparents with hnil | hplace | hvisited
    · exact .inl hnil
    · exact .inr (.inl hplace)
    · exact .inr (.inr (List.mem_cons_of_mem _ hvisited))
  named {parents last} hmem := by
    rcases List.mem_cons.mp hmem with heq | hold
    · obtain ⟨rfl, rfl⟩ := snoc_inj heq
      rcases hsegment with hgiven | hnumeral
      · exact .inl (List.mem_append_left _ hgiven)
      · exact .inr hnumeral
    · rcases h.named hold with hgiven | hnumeral
      · exact .inl (List.mem_append_right _ hgiven)
      · exact .inr hnumeral

/-- A path that was not visited has no visited children either. -/
theorem no_children (h : Explored f visited given) {path : Path} (hproper : path.Proper)
    (hglobal : path ≠ Scope.globalPath) (hnew : path ∉ visited) (segment : Text) :
    path ++ [segment] ∉ path :: visited := by
  intro hmem
  rcases List.mem_cons.mp hmem with heq | hold
  · have := congrArg List.length heq
    rw [List.length_append, List.length_singleton] at this
    omega
  · rcases h.closed hold with hnil | hplace | hvisited
    · exact hproper.ne_nil hnil
    · exact hglobal hplace
    · exact hnew hvisited

end Explored

/-- What comes of visiting a path: it is new, and the invariants hold with it. -/
structure Visits (g : Frames) (path : Path) (visited : List Path) (given : List (Path × Text))
    (drawn : Nat) : Prop where
  new : path ∉ visited
  apart : path ≠ Scope.globalPath
  childless : ∀ segment, path ++ [segment] ∉ path :: visited
  explored : Explored g (path :: visited) given
  counted : Counted g (path :: visited) drawn

/-- A path that is new has no children yet, so it is visited as a new one. -/
theorem Explored.visits (h : Explored f visited given) {path : Path} {given' : List (Path × Text)}
    (hnew : path ∉ visited) (hglobal : path ≠ Scope.globalPath)
    (hexplored : Explored g (path :: visited) given')
    (hcounted : Counted g (path :: visited) drawn) : Visits g path visited given' drawn := by
  have hproper : path.Proper := hexplored.proper path List.mem_cons_self
  have hchildless := h.no_children hproper hglobal hnew
  exact ⟨hnew, hglobal, hchildless, hexplored, hcounted⟩

section Cases

variable (h : Explored f visited given) (hcounted : Counted f visited drawn)
include h hcounted

/-- A new name leads to a new path. -/
theorem visits_named {name : Text} (hproper : Path.Proper (f.top?.getD [] ++ [name]))
    (hname : NewName given (f.top?.getD []) name) :
    Visits f (f.top?.getD [] ++ [name]) visited ([(f.top?.getD [], name)] ++ given)
      (drawn + 1) := by
  -- the name is no numeral, so its path adds nothing to what is numbered
  have hnumbered : ∀ {p : Path} {n : UInt64}, p ++ [Text.ofCount n] ≠ f.top?.getD [] ++ [name] := by
    intro p n heq
    have hnumeral := Text.isNumeral_ofCount n
    rw [(snoc_inj heq).2, hname.not_numeral] at hnumeral
    exact Bool.noConfusion hnumeral
  have hglobal : f.top?.getD [] ++ [name] ≠ Scope.globalPath := by
    intro heq
    obtain ⟨hnil, hlast⟩ := snoc_inj (q := []) heq
    exact hname.not_global hnil hlast
  refine h.visits ?new hglobal ?explored ?counted
  case new =>
    intro hmem
    rcases h.named hmem with hgiven | hnumeral
    · exact hname.not_mem hgiven
    · rw [hname.not_numeral] at hnumeral
      exact Bool.noConfusion hnumeral
  case explored =>
    exact h.visit [(f.top?.getD [], name)] h.nested hproper rfl hglobal h.top_visited
      (.inl (List.mem_singleton.mpr rfl))
  case counted =>
    refine ⟨?_, ?_, ?_, Nat.le_succ_of_le hcounted.fewGlobal⟩
    · intro frame hframe n hmem
      exact hcounted.children frame hframe n ((List.mem_cons.mp hmem).resolve_left hnumbered)
    · intro n hmem
      exact hcounted.global n ((List.mem_cons.mp hmem).resolve_left hnumbered)
    · intro frame hframe
      exact Nat.le_succ_of_le (hcounted.few frame hframe)

/-- The next global number leads to a new path. -/
theorem visits_global (hroom : drawn + 1 < 2 ^ 64) (hproper : Path.Proper
    (Scope.globalPath ++ [Text.ofCount (f.global + 1)])) :
    Visits { f with global := f.global + 1 } (Scope.globalPath ++ [Text.ofCount (f.global + 1)])
      visited given (drawn + 1) := by
  have hnumber := toNat_succ hcounted.fewGlobal hroom
  have hglobal := snoc_ne_globalPath Scope.globalPath_proper.ne_nil (Text.ofCount (f.global + 1))
  refine h.visits ?new hglobal ?explored ?counted
  case new =>
    intro hmem
    have := hcounted.global _ hmem
    omega
  case explored =>
    exact h.visit [] ⟨h.nested.proper, h.nested.longer⟩ hproper rfl hglobal
      (.inr (.inl rfl)) (.inr (Text.isNumeral_ofCount _))
  case counted =>
    have hfew := hcounted.fewGlobal
    refine ⟨?_, ?_, ?_, ?_⟩
    · intro frame hframe n hmem
      rcases List.mem_cons.mp hmem with heq | hold
      · -- the place of global numbering is not open itself
        exact absurd ((snoc_inj heq).1 ▸ h.opened frame hframe) h.apart
      · exact hcounted.children frame hframe n hold
    · intro n hmem
      show n.toNat ≤ (f.global + 1).toNat
      rcases List.mem_cons.mp hmem with heq | hold
      · exact Nat.le_of_eq (congrArg UInt64.toNat (Text.ofCount_injective (snoc_inj heq).2))
      · have := hcounted.global n hold
        omega
    · intro frame hframe
      exact Nat.le_succ_of_le (hcounted.few frame hframe)
    · show (f.global + 1).toNat ≤ drawn + 1
      omega

/-- The next number of the innermost open scope leads to a new path. -/
theorem visits_child (hroom : drawn + 1 < 2 ^ 64) {frame : Frame} {rest : List Frame}
    (hstack : f.stack = frame :: rest)
    (hnested : Frames.Nested
      { f with stack := { frame with children := frame.children + 1 } :: rest })
    (hproper : Path.Proper (frame.path ++ [Text.ofCount (frame.children + 1)])) :
    Visits { f with stack := { frame with children := frame.children + 1 } :: rest }
      (frame.path ++ [Text.ofCount (frame.children + 1)]) visited given (drawn + 1) := by
  have hframe : frame ∈ f.stack := hstack ▸ List.mem_cons_self
  have hvisited := h.opened frame hframe
  have hfew := hcounted.few frame hframe
  have hnumber := toNat_succ hfew hroom
  have hglobal :=
    snoc_ne_globalPath (h.proper _ hvisited).ne_nil (Text.ofCount (frame.children + 1))
  have hold : ∀ other ∈ rest, other ∈ f.stack :=
    fun other hother => hstack ▸ List.mem_cons_of_mem frame hother
  refine h.visits ?new hglobal ?explored ?counted
  case new =>
    intro hmem
    have := hcounted.children frame hframe _ hmem
    omega
  case explored =>
    refine h.visit [] hnested hproper ?_ hglobal (.inr (.inr hvisited))
      (.inr (Text.isNumeral_ofCount _))
    rw [hstack]
    rfl
  case counted =>
    refine ⟨?_, ?_, ?_, Nat.le_succ_of_le hcounted.fewGlobal⟩
    · intro other hother n hmem
      rcases List.mem_cons.mp hother with rfl | hrest
      · show n.toNat ≤ (frame.children + 1).toNat
        rcases List.mem_cons.mp hmem with heq | hseen
        · exact Nat.le_of_eq (congrArg UInt64.toNat (Text.ofCount_injective (snoc_inj heq).2))
        · have := hcounted.children frame hframe n hseen
          omega
      · rcases List.mem_cons.mp hmem with heq | hseen
        · -- an outer scope has a shorter path
          have hlonger := List.rel_of_pairwise_cons hnested.longer hrest
          rw [(snoc_inj heq).1] at hlonger
          exact absurd hlonger (Nat.lt_irrefl _)
        · exact hcounted.children other (hold other hrest) n hseen
    · intro n hmem
      rcases List.mem_cons.mp hmem with heq | hseen
      · exact absurd ((snoc_inj heq).1 ▸ hvisited) h.apart
      · exact hcounted.global n hseen
    · intro other hother
      rcases List.mem_cons.mp hother with rfl | hrest
      · show (frame.children + 1).toNat ≤ drawn + 1
        omega
      · exact Nat.le_succ_of_le (hcounted.few other (hold other hrest))

/-- Wherever a new scope or label settles, that is a new path. -/
theorem visits_settles (hroom : drawn + 1 < 2 ^ 64) {options : Options} {name : Option Text}
    {path : Path} (hname : checkName options name = .ok ()) (hsettles : f.Settles name path g)
    (hnew : ∀ given' ∈ name, NewName given (f.top?.getD []) given') :
    Visits g path visited ((name.map (f.top?.getD [], ·)).toList ++ given) (drawn + 1) := by
  obtain ⟨hnested, hahead⟩ := h.nested.settles hname hsettles
  cases hsettles with
  | named name => exact visits_named h hcounted hahead.proper (hnew name rfl)
  | global htop => exact visits_global h hcounted hroom hahead.proper
  | child hstack hplace => exact visits_child h hcounted hroom hstack hnested hahead.proper

end Cases

namespace Visits

variable {path : Path} (h : Visits g path visited given drawn)
include h

/-- A path that is visited is not the place of global numbering, so entering it starts nothing anew.
    -/
theorem arrive : Visits (g.arrive path) path visited given drawn := by
  rw [Frames.arrive, if_neg h.apart]
  exact h

/-- The new path may be that of a scope that is open from now on. -/
theorem push (hahead : g.Ahead path) :
    Explored (g.push path) (path :: visited) given ∧
      Counted (g.push path) (path :: visited) drawn := by
  obtain ⟨-, -, hchildless, hexplored, hcounted⟩ := h
  refine ⟨{ hexplored with nested := hexplored.nested.push hahead, opened := ?opened },
    { hcounted with children := ?children, few := ?few }⟩
  case opened =>
    intro frame hframe
    rcases List.mem_cons.mp hframe with rfl | hrest
    · exact List.mem_cons_self
    · exact hexplored.opened frame hrest
  case children =>
    intro frame hframe n hmem
    rcases List.mem_cons.mp hframe with rfl | hrest
    · -- a path that was not visited yet has no visited children
      exact absurd hmem (hchildless _)
    · exact hcounted.children frame hrest n hmem
  case few =>
    intro frame hframe
    rcases List.mem_cons.mp hframe with rfl | hrest
    · exact Nat.zero_le _
    · exact hcounted.few frame hrest

end Visits

/-- Closing a scope loses its number, and nothing else. -/
theorem Explored.pop (h : Explored f visited given) {frame : Frame} {rest : List Frame}
    (hstack : f.stack = frame :: rest) : Explored { f with stack := rest } visited given := by
  refine { h with nested := h.nested.pop hstack, opened := ?_ }
  intro other hother
  refine h.opened other ?_
  rw [hstack]
  exact List.mem_cons_of_mem frame hother

/-- Closing the innermost scope keeps the counts of the others. -/
theorem Counted.pop (h : Counted f visited drawn) {frame : Frame} {rest : List Frame}
    (hstack : f.stack = frame :: rest) : Counted { f with stack := rest } visited drawn := by
  have hopen : ∀ other ∈ rest, other ∈ f.stack := by
    intro other hother
    rw [hstack]
    exact List.mem_cons_of_mem frame hother
  refine { h with children := ?_, few := ?_ }
  · intro other hother
    exact h.children other (hopen other hother)
  · intro other hother
    exact h.few other (hopen other hother)

theorem Counted.succ (h : Counted f visited drawn) : Counted f visited (drawn + 1) := by
  refine { h with few := ?_, fewGlobal := ?_ }
  · intro frame hframe
    exact Nat.le_succ_of_le (h.few frame hframe)
  · exact Nat.le_succ_of_le h.fewGlobal

/-! ## Along a run of the reference -/

/-- A command that succeeds visits at most one path. That is a new one, and the invariants hold with
    it and with the name that was given. -/
theorem event_unique {options : Options} {command : Command} {line? : Option Text}
    (h : Explored f visited given) (hcounted : Counted f visited drawn)
    (hroom : drawn + 1 < 2 ^ 64) (hstep : f.step options command = .ok (line?, g))
    (hnew : ∀ d ∈ (f.event command).given?, NewName given d.1 d.2) :
    (∀ p ∈ (f.event command).visited?, p ∉ visited) ∧
      Explored g ((f.event command).visited?.toList ++ visited)
        ((f.event command).given?.toList ++ given) ∧
      Counted g ((f.event command).visited?.toList ++ visited) (drawn + 1) := by
  have hsteps := Frames.step_cases hstep
  simp only [Frames.event] at hnew ⊢
  generalize command.verb = verb at hsteps hnew ⊢
  cases hsteps with
  | @scope name hname =>
      have hnames : ∀ n ∈ name, NewName given (f.top?.getD []) n :=
        fun n hn => hnew _ (Option.mem_map_of_mem _ hn)
      have hsettles := f.settle_settles name
      have hvisits := (visits_settles h hcounted hroom hname hsettles hnames).arrive
      have hahead := (h.nested.settles hname hsettles).2.arrive
      refine ⟨?_, hvisits.push hahead⟩
      rintro p ⟨⟩
      exact hvisits.new
  | @label name hname =>
      have hnames : ∀ n ∈ name, NewName given (f.top?.getD []) n :=
        fun n hn => hnew _ (Option.mem_map_of_mem _ hn)
      have hvisits := (visits_settles h hcounted hroom hname (f.settle_settles name) hnames).arrive
      refine ⟨?_, hvisits.explored, hvisits.counted⟩
      rintro p ⟨⟩
      exact hvisits.new
  | leave hstack => exact ⟨nofun, h.pop hstack, (hcounted.pop hstack).succ⟩
  | current => exact ⟨nofun, h, hcounted.succ⟩
  | uid => exact ⟨nofun, h, hcounted.succ⟩
  | reset => exact ⟨nofun, h, hcounted.succ⟩

end Visiting

private theorem filterMap_cons_toList {α β : Type} (φ : α → Option β) (a : α) (rest : List α) :
    (a :: rest).filterMap φ = (φ a).toList ++ rest.filterMap φ := by
  rw [List.filterMap_cons]
  cases φ a <;> rfl

/-- All paths that are visited from here on are new and differ from each other. -/
theorem events_unique {options : Options} {commands : List Command} {f : Frames}
    {visited : List Path} {given : List (Path × Text)} {drawn : Nat}
    (h : Explored f visited given) (hcounted : Counted f visited drawn)
    (hroom : drawn + commands.length < 2 ^ 64)
    (hnew : ∀ d ∈ (f.events options commands).filterMap Event.given?, NewName given d.1 d.2)
    (hnodup : ((f.events options commands).filterMap Event.given?).Nodup) :
    ((f.events options commands).filterMap Event.visited?).Nodup ∧
      ∀ p ∈ (f.events options commands).filterMap Event.visited?, p.Proper ∧ p ∉ visited := by
  induction commands generalizing f visited given drawn with
  | nil => exact ⟨.nil, nofun⟩
  | cons command rest ih =>
      rw [Frames.events] at hnew hnodup ⊢
      cases hstep : f.step options command with
      | error e => exact ⟨.nil, nofun⟩
      | ok result =>
          simp only [hstep, filterMap_cons_toList] at hnew hnodup ⊢
          obtain ⟨-, hnodup', hapart⟩ := List.nodup_append.mp hnodup
          have hhead : ∀ d ∈ (f.event command).given?, NewName given d.1 d.2 :=
            fun d hd => hnew d (List.mem_append_left _ (Option.mem_toList.mpr hd))
          rw [List.length_cons] at hroom
          obtain ⟨hfresh, hexplored, hcounted'⟩ :=
            event_unique h hcounted (by omega) hstep hhead
          -- the names that are still to come differ from the one that was just given
          have hnew' : ∀ d ∈ (result.2.events options rest).filterMap Event.given?,
              NewName ((f.event command).given?.toList ++ given) d.1 d.2 := by
            intro d hd
            obtain ⟨hnot, hnumeral, hglobal⟩ := hnew d (List.mem_append_right _ hd)
            refine ⟨?_, hnumeral, hglobal⟩
            intro hmem
            rcases List.mem_append.mp hmem with hthis | hbefore
            · exact hapart d hthis d hd rfl
            · exact hnot hbefore
          obtain ⟨hrest, hvisited⟩ := ih hexplored hcounted' (by omega) hnew' hnodup'
          have hproper := hexplored.proper
          cases hpath : (f.event command).visited? with
          | none =>
              rw [hpath] at hvisited
              exact ⟨hrest, hvisited⟩
          | some path =>
              rw [hpath] at hvisited hproper
              refine ⟨List.nodup_cons.mpr ⟨?_, hrest⟩, ?_⟩
              · intro hmem
                exact (hvisited path hmem).2 List.mem_cons_self
              · intro p hp
                rcases List.mem_cons.mp hp with rfl | hlater
                · exact ⟨hproper p List.mem_cons_self, hfresh p hpath⟩
                · obtain ⟨hp', hnot⟩ := hvisited p hlater
                  exact ⟨hp', fun hmem => hnot (List.mem_cons_of_mem path hmem)⟩

/-- The label lines are the texts of some of the visited paths, in their order. -/
theorem labelLines_sublist (options : Options) (commands : List Command) (f : Frames) :
    ((f.events options commands).filterMap Event.labelLine?).Sublist
      (((f.events options commands).filterMap Event.visited?).map Path.text) := by
  induction commands generalizing f with
  | nil => exact .slnil
  | cons command rest ih =>
      rw [Frames.events]
      cases f.step options command with
      | error e => exact .slnil
      | ok result =>
          have hrest := ih result.2
          simp only [filterMap_cons_toList, Frames.event]
          cases command.verb with
          | scope name => exact hrest.cons _
          | label name => exact hrest.cons_cons _
          | leave => exact hrest
          | uid counter => exact hrest
          | reset counter => exact hrest
          | current => exact hrest

/-! ## Along a run in a fresh environment -/

/-- What a command that a run got to gave, visited and printed for a label. -/
def Attempt.event (a : Attempt) : Event :=
  { given? := a.given?, visited? := a.visited?, labelLine? := a.labelLine? }

/-- Nothing is told of a command that failed. -/
theorem Attempt.event_of_failed {a : Attempt} {e : Error} (h : a.outcome.error? = some e) :
    a.event = {} := by
  rw [event, given?, visited?, labelLine?, h]
  cases a.command.verb <;> rfl

section Runs

variable {r : Runner} {found : World} {f : Frames} {s : RunState} (hfresh : r.Fresh found)
include hfresh

/-- The innermost active path of a run is that of its innermost frame. -/
theorem Follows.activePath?_eq (h : Follows r found f s) : s.activePath? = f.top? := by
  obtain ⟨o, hstands, hreflects⟩ := h
  have hground : (found.view r.environment).Active none := hfresh.inactive
  have hactive := hstands.active hground
  rw [hreflects.above] at hactive
  rw [RunState.activePath?, hstands.environment]
  cases htop : f.top? with
  | none =>
      rw [htop] at hactive
      rw [s.world.current_of_inactive r.environment hactive]
  | some path =>
      rw [htop] at hactive
      obtain ⟨id, scope, hcurrent, hscope, hpath⟩ :=
        s.world.current_of_active r.environment hactive
      rw [hcurrent]
      simp only [hscope, Option.bind_some]
      rw [Scope.path] at hpath
      rw [Scope.path?]
      cases hplace : scope.place with
      | unresolved name => rw [hplace] at hpath; cases hpath
      | resolved parents basename => rw [hplace] at hpath; cases hpath; rfl

/-- A label of a run has the path where it would settle on the frames. -/
theorem Follows.labelPath?_eq (h : Follows r found f s) {name : Option Text}
    (hname : checkName (found.optionsOf r.environment) name = .ok ()) :
    s.labelPath? name = some (f.settle name).1 := by
  obtain ⟨o, hstands, hreflects⟩ := h
  have hground : (found.view r.environment).Active none := hfresh.inactive
  -- nothing is active below the script, so even a nameless label is numbered from its counters
  obtain ⟨w, hlabel, -⟩ := Environment.momentaryLabel_view (hstands.transient_free hfresh.toIdle)
    (hstands.active hground) (fun _ => hstands.numbers hground fun _ => rfl)
    (hstands.options ▸ hname)
  have hpath := (hreflects.settle (f.settle_settles name)).1
  have hcounters : (s.world.view r.environment).counters = o.counters := hstands.counters
  rw [RunState.labelPath?, hstands.environment, Environment.labelFor, hlabel, hcounters]
  exact congrArg some hpath

/-- What is told of a command that succeeded is what the frames tell. -/
theorem Follows.event {g : Frames} {t : RunState} {command : Command} {line? : Option Text}
    (h : Follows r found f (s.goTo command.line)) (hnext : Follows r found g t)
    (hstep : f.step (found.optionsOf r.environment) command = .ok (line?, g))
    (hprinted : t.printed = line?.toList ++ s.printed)
    (houtcome : (Run.attempt command s).outcome = ⟨none, t⟩) :
    (Run.attempt command s).event = f.event command := by
  have hbefore := h.activePath?_eq hfresh
  have hafter := hnext.activePath?_eq hfresh
  have hsteps := Frames.step_cases hstep
  have hcommand : (Run.attempt command s).command = command := rfl
  have hstate : (Run.attempt command s).before = s.goTo command.line := rfl
  simp only [Attempt.event, Attempt.given?, Attempt.visited?, Attempt.labelLine?, Frames.event,
    houtcome, hcommand, hstate, hbefore, hafter, hprinted]
  generalize command.verb = verb at hsteps ⊢
  cases hsteps with
  | scope hname => rfl
  | label hname =>
      simp only [h.labelPath?_eq hfresh hname]
      rfl
  | leave hstack => rfl
  | current => rfl
  | uid => rfl
  | reset => rfl

/-- What is seen of the commands that a run got to is what the frames tell. -/
theorem Follows.events {commands : List Command} (h : Follows r found f s)
    (hplain : ∀ command ∈ commands, command.verb.keyword ≠ .uid ∧ command.verb.keyword ≠ .reset) :
    (Run.attempts commands s).map Attempt.event =
      f.events (found.optionsOf r.environment) commands := by
  induction commands generalizing f s with
  | nil => rfl
  | cons command rest ih =>
      have hattempt := h.attempt hfresh (hplain command List.mem_cons_self)
      have hrest := fun c hc => hplain c (List.mem_cons_of_mem command hc)
      have hbefore : Follows r found f (s.goTo command.line) := by
        obtain ⟨o, hstands, hreflects⟩ := h
        exact ⟨o, hstands.goTo command.line, hreflects⟩
      rw [Run.attempts, List.map_cons, Frames.events]
      cases hstep : f.step (found.optionsOf r.environment) command with
      | error e =>
          rw [hstep] at hattempt
          simp only [hattempt]
          rw [Attempt.event_of_failed (congrArg Outcome.error? hattempt), List.map_nil]
      | ok result =>
          rw [hstep] at hattempt
          obtain ⟨t, houtcome, hfollows, hprinted, -⟩ := hattempt
          simp only [houtcome]
          rw [ih hfollows hrest, hbefore.event hfresh hfollows hstep hprinted houtcome]

end Runs

/-- In a fresh environment, let a script name no counter, have fewer than 2^64 commands, give no
    name that is a numeral, no name twice under one path, and not the name `global` outside every
    scope. Then no two of the scopes that it enters and of the labels that it prints have one path,
    and no two labels are printed alike. -/
theorem visited_unique {r : Runner} {w : World} (hfresh : r.Fresh w) {commands : List Command}
    (hplain : ∀ command ∈ commands, command.verb.keyword ≠ .uid ∧ command.verb.keyword ≠ .reset)
    (hshort : commands.length < 2 ^ 64)
    (hnumeral : ∀ d ∈ Run.given commands { world := w, runner := r }, d.2.isNumeral = false)
    (hglobal : ∀ d ∈ Run.given commands { world := w, runner := r }, d ≠ ([], ("global" : Text)))
    (hdistinct : (Run.given commands { world := w, runner := r }).Nodup) :
    (Run.visited commands { world := w, runner := r }).Nodup ∧
      (Run.labelLines commands { world := w, runner := r }).Nodup := by
  have hevents := (Follows.start hfresh []).events hfresh hplain
  have hgiven : Run.given commands { world := w, runner := r } =
      (Frames.events (w.optionsOf r.environment) commands {}).filterMap Event.given? := by
    rw [← hevents, List.filterMap_map]
    rfl
  have hvisited : Run.visited commands { world := w, runner := r } =
      (Frames.events (w.optionsOf r.environment) commands {}).filterMap Event.visited? := by
    rw [← hevents, List.filterMap_map]
    rfl
  have hlines : Run.labelLines commands { world := w, runner := r } =
      (Frames.events (w.optionsOf r.environment) commands {}).filterMap Event.labelLine? := by
    rw [← hevents, List.filterMap_map]
    rfl
  rw [hgiven] at hnumeral hglobal hdistinct
  have hexplored : Explored {} [] [] := ⟨⟨nofun, .nil⟩, nofun, nofun, nofun, nofun, nofun⟩
  have hcounted : Counted {} [] 0 := ⟨nofun, nofun, nofun, Nat.le_refl 0⟩
  have hallowed : ∀ d ∈ (Frames.events (w.optionsOf r.environment) commands {}).filterMap
      Event.given?, NewName [] d.1 d.2 := by
    intro d hd
    refine ⟨List.not_mem_nil, hnumeral d hd, fun hnil hname => ?_⟩
    exact hglobal d hd (Prod.ext hnil hname)
  obtain ⟨hnodup, hproper⟩ :=
    events_unique hexplored hcounted (by omega) hallowed hdistinct
  rw [hvisited, hlines]
  refine ⟨hnodup, (labelLines_sublist _ _ _).nodup (hnodup.map_on ?_)⟩
  intro p hp q hq htext
  exact (hproper p hp).1.eq_of_text_eq (hproper q hq).1 htext

/-- A script in which labels are named and numbered, below a scope and outside. -/
def mixedScript : List Command :=
  [⟨.scope (some "a"), 1⟩, ⟨.label none, 2⟩, ⟨.label (some "b"), 3⟩, ⟨.scope none, 4⟩, ⟨.leave, 5⟩,
    ⟨.leave, 6⟩, ⟨.label none, 7⟩, ⟨.label (some "b"), 8⟩]

/-- Names and numbers are mixed, and a nameless label stands outside every scope. -/
theorem visited_unique_mixed :
    let s : RunState := { world := freshWorld {} {} {}, runner := scriptRunner }
    (Run.given mixedScript s = ([([], "a"), (["a"], "b"), ([], "b")] : List (Path × Text)) ∧
      Run.visited mixedScript s =
        ([["a"], ["a", "1"], ["a", "b"], ["a", "2"], ["global", "1"], ["b"]] : List Path)) ∧
    (Run.visited mixedScript s).Nodup ∧ (Run.labelLines mixedScript s).Nodup := by
  have hgiven : Run.given mixedScript { world := freshWorld {} {} {}, runner := scriptRunner } =
      ([([], "a"), (["a"], "b"), ([], "b")] : List (Path × Text)) := by decide +kernel
  have hvisited : Run.visited mixedScript { world := freshWorld {} {} {}, runner := scriptRunner } =
      ([["a"], ["a", "1"], ["a", "b"], ["a", "2"], ["global", "1"], ["b"]] : List Path) := by
    decide +kernel
  refine ⟨⟨hgiven, hvisited⟩, visited_unique (freshWorld_fresh {} {} {}) (by decide) (by decide)
    ?_ ?_ ?_⟩
  · rw [hgiven]
    decide +kernel
  · rw [hgiven]
    decide +kernel
  · rw [hgiven]
    decide +kernel

end ScopedLabels.Script
