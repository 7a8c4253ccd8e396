import ScopedLabels.Proofs.Attempts
import ScopedLabels.Proofs.Naming
import ScopedLabels.Proofs.Outline
import ScopedLabels.Script.Trial

/-!
# Frames — scripts in a fresh environment, without a counter registry

Every number that a script draws comes from one registry of counters under texts, and every entry
sets some counter of it back to zero, that of a label made in passing as well. `Frames` is a
reference interpreter that has no registry: each open scope carries the number of its own nameless
children, and one more number stands for global numbering.

The two give the same output and the same failure for every script that names no counter itself
(`run_eq_reference`). What carries the proof is `Reflects`: the paths of the open scopes are proper
and get strictly longer inwards, so their texts differ from each other and from that of every path
that is entered later, and no entry disturbs the count of a scope that stays open. The one text
that is met again is that of global numbering, which the reference models by name.
-/

namespace ScopedLabels

/-! ## Counters of proper paths -/

/-- Proper paths that differ are counted apart. -/
theorem Path.Proper.text_ne {p q : Path} (hp : p.Proper) (hq : q.Proper) (hne : p ≠ q) :
    p.text ≠ q.text := by
  intro htext
  exact hne (hp.eq_of_text_eq hq htext)

/-- The place of global numbering is reached by names. -/
theorem Scope.globalPath_proper : Path.Proper Scope.globalPath := by
  refine ⟨List.cons_ne_nil _ _, ?_⟩
  intro segment hsegment
  rw [List.mem_singleton.mp hsegment]
  decide

/-- A name that passes its check, if there is one, holds no separator. -/
theorem slash_not_mem_of_checkName {options : Options} {name : Text}
    (h : checkName options (some name) = .ok ()) : Text.slash ∉ name :=
  slash_not_mem_of_requireName h

namespace Script

/-- An open scope: its path, and how many nameless children it had so far. -/
structure Frame where
  path : Path
  children : UInt64 := 0
deriving DecidableEq

/-- The state of the reference interpreter: a frame for every open scope, innermost first, and the
    number of global numbering. -/
structure Frames where
  stack : List Frame := []
  global : UInt64 := 0
deriving DecidableEq

/-- What can be seen of a run: the lines that it printed, and the error it stopped at, if it did,
    with the line of the script. -/
structure Transcript where
  lines : List Text
  failure? : Option (Error × Nat)
deriving DecidableEq

namespace Frames

/-- The path of the innermost open scope. -/
def top? (f : Frames) : Option Path :=
  f.stack.head?.map Frame.path

/-- The path of a new scope or label, and the frames once it has its number. The place of global
    numbering counts globally also when it is open. -/
def settle (f : Frames) : Option Text → Path × Frames
  | some name => (f.top?.getD [] ++ [name], f)
  | none =>
    match f.stack with
    | [] => (Scope.globalPath ++ [Text.ofCount (f.global + 1)], { f with global := f.global + 1 })
    | frame :: rest =>
      if frame.path = Scope.globalPath then
        (frame.path ++ [Text.ofCount (f.global + 1)], { f with global := f.global + 1 })
      else
        (frame.path ++ [Text.ofCount (frame.children + 1)],
          { f with stack := { frame with children := frame.children + 1 } :: rest })

/-- Entering the place of global numbering starts that anew. -/
def arrive (f : Frames) (path : Path) : Frames :=
  if path = Scope.globalPath then { f with global := 0 } else f

/-- The path of a new scope or label of a name, and the frames after its entry. -/
def enter (f : Frames) (options : Options) (name : Option Text) : Except Error (Path × Frames) :=
  match checkName options name with
  | .error e => .error e
  | .ok () => .ok ((f.settle name).1, (f.settle name).2.arrive (f.settle name).1)

/-- A frame for a scope that was just opened, on top of the others. -/
def push (f : Frames) (path : Path) : Frames :=
  { f with stack := { path } :: f.stack }

/-- Execute a command. The line that it prints, if any, is returned. Commands about counters are
    none of the reference's, and do nothing. -/
def step (f : Frames) (options : Options) (command : Command) :
    Except Error (Option Text × Frames) :=
  match command.verb with
  | .scope name => (f.enter options name).map fun (path, f) => (none, f.push path)
  | .leave =>
    match f.stack with
    | [] => .error (.script ⟨command.line, .endWithoutScope⟩)
    | _ :: stack => .ok (none, { f with stack })
  | .label name => (f.enter options name).map fun (path, f) => (some path.text, f)
  | .current => .ok (some (f.top?.elim "<none>" Path.text), f)
  | .uid _ | .reset _ => .ok (none, f)

/-- What a command does when it succeeds: the line that it prints, and the frames that it leaves. -/
inductive Steps (f : Frames) (options : Options) : Verb → Option Text → Frames → Prop
  | scope {name : Option Text} (hname : checkName options name = .ok ()) :
      Steps f options (.scope name) none
        (((f.settle name).2.arrive (f.settle name).1).push (f.settle name).1)
  | leave {frame : Frame} {rest : List Frame} (hstack : f.stack = frame :: rest) :
      Steps f options .leave none { f with stack := rest }
  | label {name : Option Text} (hname : checkName options name = .ok ()) :
      Steps f options (.label name) (some (f.settle name).1.text)
        ((f.settle name).2.arrive (f.settle name).1)
  | current : Steps f options .current (some (f.top?.elim "<none>" Path.text)) f
  | uid {counter : Option Text} : Steps f options (.uid counter) none f
  | reset {counter : Option Text} : Steps f options (.reset counter) none f

/-- A command that succeeds does what `Steps` lists for its verb. -/
theorem step_cases {f g : Frames} {options : Options} {command : Command} {line? : Option Text}
    (h : f.step options command = .ok (line?, g)) : f.Steps options command.verb line? g := by
  rw [step] at h
  cases hverb : command.verb with
  | scope name =>
      rw [hverb] at h
      simp only [enter] at h
      cases hname : checkName options name with
      | error e => rw [hname] at h; cases h
      | ok u => rw [hname] at h; cases h; exact .scope hname
  | leave =>
      rw [hverb] at h
      cases hstack : f.stack with
      | nil => simp only [hstack] at h; cases h
      | cons frame rest => simp only [hstack] at h; cases h; exact .leave hstack
  | label name =>
      rw [hverb] at h
      simp only [enter] at h
      cases hname : checkName options name with
      | error e => rw [hname] at h; cases h
      | ok u => rw [hname] at h; cases h; exact .label hname
  | uid counter => rw [hverb] at h; cases h; exact .uid
  | reset counter => rw [hverb] at h; cases h; exact .reset
  | current => rw [hverb] at h; cases h; exact .current

/-- Execute commands up to the end or to the first error. -/
def run (options : Options) : List Command → Frames → Transcript
  | [], _ => { lines := [], failure? := none }
  | command :: rest, f =>
    match f.step options command with
    | .error e => { lines := [], failure? := some (e, command.line) }
    | .ok (line?, f) =>
      { run options rest f with lines := line?.toList ++ (run options rest f).lines }

end Frames

/-! ## Paths of frames -/

namespace Frames

/-- The paths of the open scopes are proper and get longer inwards. -/
structure Nested (f : Frames) : Prop where
  proper : ∀ frame ∈ f.stack, frame.path.Proper
  longer : f.stack.Pairwise fun inner outer => outer.path.length < inner.path.length

/-- A path that may be entered next: proper, and longer than that of every open scope. -/
structure Ahead (f : Frames) (path : Path) : Prop where
  proper : path.Proper
  longer : ∀ frame ∈ f.stack, frame.path.length < path.length

/-- The ways in which a new scope settles: under its name, by the global number, or by the number
    of the innermost open scope. -/
inductive Settles (f : Frames) : Option Text → Path → Frames → Prop
  | named (name : Text) : Settles f (some name) (f.top?.getD [] ++ [name]) f
  | global (htop : f.top?.getD Scope.globalPath = Scope.globalPath) :
      Settles f none (Scope.globalPath ++ [Text.ofCount (f.global + 1)])
        { f with global := f.global + 1 }
  | child {frame : Frame} {rest : List Frame} (hstack : f.stack = frame :: rest)
      (hplace : frame.path ≠ Scope.globalPath) :
      Settles f none (frame.path ++ [Text.ofCount (frame.children + 1)])
        { f with stack := { frame with children := frame.children + 1 } :: rest }

theorem top?_of_nil {f : Frames} (hstack : f.stack = []) : f.top? = none := by
  rw [top?, hstack]
  rfl

theorem top?_of_cons {f : Frames} {frame : Frame} {rest : List Frame}
    (hstack : f.stack = frame :: rest) : f.top? = some frame.path := by
  rw [top?, hstack]
  rfl

/-- Each new scope settles in one of the three ways. -/
theorem settle_settles (f : Frames) (name : Option Text) :
    f.Settles name (f.settle name).1 (f.settle name).2 := by
  cases name with
  | some name => exact .named name
  | none =>
      cases hstack : f.stack with
      | nil =>
          have htop : f.top?.getD Scope.globalPath = Scope.globalPath := by
            rw [top?_of_nil hstack, Option.getD_none]
          simp only [settle, hstack]
          exact hstack ▸ .global htop
      | cons frame rest =>
          by_cases hplace : frame.path = Scope.globalPath
          · have htop : f.top?.getD Scope.globalPath = Scope.globalPath := by
              rw [top?_of_cons hstack, Option.getD_some, hplace]
            simp only [settle, hstack, if_pos hplace]
            rw [hplace]
            exact hstack ▸ .global htop
          · simp only [settle, hstack, if_neg hplace]
            exact .child hstack hplace

theorem stack_arrive (f : Frames) (path : Path) : (f.arrive path).stack = f.stack := by
  rw [arrive]
  split <;> rfl

theorem Ahead.arrive {f : Frames} {path : Path} (h : f.Ahead path) :
    (f.arrive path).Ahead path := by
  refine ⟨h.proper, ?_⟩
  rw [stack_arrive]
  exact h.longer

/-- No open scope has a path that is ahead. -/
theorem Ahead.ne {f : Frames} {path : Path} (h : f.Ahead path) {frame : Frame}
    (hframe : frame ∈ f.stack) : path ≠ frame.path := by
  rintro rfl
  exact Nat.lt_irrefl _ (h.longer frame hframe)

namespace Nested

variable {f : Frames}

theorem arrive (h : f.Nested) (path : Path) : (f.arrive path).Nested := by
  constructor
  · rw [stack_arrive]
    exact h.proper
  · rw [stack_arrive]
    exact h.longer

/-- One more segment below the innermost open scope, or below `base` if none is open, leads
    ahead. -/
theorem ahead (h : f.Nested) {base : Path} (hbase : ∀ segment ∈ base, Text.slash ∉ segment)
    {segment : Text} (hsegment : Text.slash ∉ segment) :
    f.Ahead (f.top?.getD base ++ [segment]) := by
  cases hstack : f.stack with
  | nil =>
      rw [top?_of_nil hstack, Option.getD_none]
      refine ⟨.append hbase hsegment, ?_⟩
      rw [hstack]
      exact nofun
  | cons frame rest =>
      have hmem : frame ∈ f.stack := hstack ▸ List.mem_cons_self
      have hlonger := h.longer
      rw [hstack] at hlonger
      rw [top?_of_cons hstack, Option.getD_some]
      refine ⟨.append (h.proper frame hmem).slash_not_mem hsegment, ?_⟩
      intro other hother
      rw [hstack] at hother
      rw [List.length_append, List.length_singleton]
      rcases List.mem_cons.mp hother with rfl | hrest
      · omega
      · have := List.rel_of_pairwise_cons hlonger hrest
        omega

/-- Frames with the same paths are nested alike. -/
theorem of_paths (h : f.Nested) {g : Frames}
    (hpaths : g.stack.map Frame.path = f.stack.map Frame.path) : g.Nested := by
  constructor
  · intro frame hframe
    have hmem : frame.path ∈ f.stack.map Frame.path := hpaths ▸ List.mem_map_of_mem hframe
    obtain ⟨other, hother, heq⟩ := List.mem_map.mp hmem
    exact heq ▸ h.proper other hother
  · have hlonger : (f.stack.map Frame.path).Pairwise
        fun inner outer => outer.length < inner.length := List.pairwise_map.mpr h.longer
    rw [← hpaths] at hlonger
    exact List.pairwise_map.mp hlonger

/-- Where a new scope settles is ahead, and drawing its number leaves the paths as they are. -/
theorem settles (h : f.Nested) {options : Options} {name : Option Text}
    (hname : checkName options name = .ok ()) {path : Path} {g : Frames}
    (hsettles : f.Settles name path g) : g.Nested ∧ g.Ahead path := by
  -- names were checked and numbers are digits, so neither holds a separator
  have hdigits : ∀ n, Text.slash ∉ Text.ofCount n :=
    fun n => Text.slash_not_mem_of_isNumeral (Text.isNumeral_ofCount n)
  cases hsettles with
  | named name =>
      exact ⟨h, h.ahead (List.forall_mem_nil _) (slash_not_mem_of_checkName hname)⟩
  | global htop =>
      have hahead := h.ahead Scope.globalPath_proper.slash_not_mem (hdigits (f.global + 1))
      rw [htop] at hahead
      exact ⟨⟨h.proper, h.longer⟩, hahead.proper, hahead.longer⟩
  | @child frame rest hstack hplace =>
      have hpaths : ({ frame with children := frame.children + 1 } :: rest).map Frame.path =
          f.stack.map Frame.path := by
        rw [hstack]
        rfl
      have hahead := h.ahead (List.forall_mem_nil _) (hdigits (frame.children + 1))
      rw [top?_of_cons hstack, Option.getD_some] at hahead
      refine ⟨h.of_paths hpaths, hahead.proper, ?_⟩
      intro other hother
      have hmem : other.path ∈ f.stack.map Frame.path := hpaths ▸ List.mem_map_of_mem hother
      obtain ⟨old, hold, heq⟩ := List.mem_map.mp hmem
      exact heq ▸ hahead.longer old hold

/-- A path that is ahead may be opened. -/
theorem push (h : f.Nested) {path : Path} (hahead : f.Ahead path) : (f.push path).Nested := by
  refine ⟨?_, List.pairwise_cons.mpr ⟨hahead.longer, h.longer⟩⟩
  intro frame hframe
  rcases List.mem_cons.mp hframe with rfl | hrest
  · exact hahead.proper
  · exact h.proper frame hrest

/-- The innermost scope may be closed. -/
theorem pop (h : f.Nested) {frame : Frame} {rest : List Frame} (hstack : f.stack = frame :: rest) :
    { f with stack := rest : Frames }.Nested := by
  obtain ⟨hproper, hlonger⟩ := h
  rw [hstack] at hproper hlonger
  exact ⟨fun other hother => hproper other (List.mem_cons_of_mem frame hother), hlonger.of_cons⟩

end Nested

end Frames

/-! ## Frames read off outlines -/

/-- The frames tell what an outline without ground says: they have the same paths, and each counts
    what the counter of its path does. -/
structure Reflects (o : Outline) (f : Frames) : Prop where
  paths : o.spots.map Spot.path = f.stack.map Frame.path
  global : o.counters.get Scope.globalPath.text = f.global
  children : ∀ frame ∈ f.stack, frame.path ≠ Scope.globalPath →
    o.counters.get frame.path.text = frame.children
  nested : f.Nested

namespace Reflects

variable {o : Outline} {f : Frames}

/-- A new scope is made below the same path on both sides. -/
theorem above (h : Reflects o f) : o.above none = f.top? := by
  have hpaths := h.paths
  cases hspots : o.spots with
  | nil =>
      rw [hspots, List.map_nil] at hpaths
      rw [Outline.above, hspots, Frames.top?_of_nil (List.map_eq_nil_iff.mp hpaths.symm)]
  | cons spot spots =>
      rw [hspots, List.map_cons] at hpaths
      obtain ⟨frame, rest, hstack, hpath, -⟩ := List.map_eq_cons_iff.mp hpaths.symm
      rw [Outline.above, hspots, Frames.top?_of_cons hstack, hpath]

/-- Entering a path ahead sets no count of an open scope back, nor the global number unless it is
    its own place that is entered. -/
theorem zero (h : Reflects o f) {path : Path} (hahead : f.Ahead path) :
    Reflects ⟨o.spots, o.counters.zero path.text⟩ (f.arrive path) := by
  refine ⟨(f.stack_arrive path).symm ▸ h.paths, ?global, ?children, h.nested.arrive path⟩
  case global =>
    rw [Counters.get_zero, Frames.arrive]
    by_cases heq : path = Scope.globalPath
    · rw [if_pos heq, if_pos (congrArg Path.text heq)]
    · rw [if_neg heq, if_neg (hahead.proper.text_ne Scope.globalPath_proper heq)]
      exact h.global
  case children =>
    rw [f.stack_arrive path]
    intro frame hframe hplace
    have hne := hahead.proper.text_ne (h.nested.proper frame hframe) (hahead.ne hframe)
    rw [Counters.get_zero, if_neg hne]
    exact h.children frame hframe hplace

/-- Drawing at the place of global numbering counts the global number up. -/
theorem drawGlobal (h : Reflects o f) :
    Reflects ⟨o.spots, (o.counters.draw Scope.globalPath.text).2⟩
      { f with global := f.global + 1 } := by
  refine ⟨h.paths, ?global, ?children, h.nested.proper, h.nested.longer⟩
  case global => rw [Counters.get_draw, if_pos rfl, Counters.draw, h.global]
  case children =>
    intro frame hframe hplace
    have hne := Scope.globalPath_proper.text_ne (h.nested.proper frame hframe) hplace.symm
    rw [Counters.get_draw, if_neg hne]
    exact h.children frame hframe hplace

/-- Drawing at the innermost open scope counts the children of its frame up. -/
theorem drawChild (h : Reflects o f) {frame : Frame} {rest : List Frame}
    (hstack : f.stack = frame :: rest) (hplace : frame.path ≠ Scope.globalPath) :
    Reflects ⟨o.spots, (o.counters.draw frame.path.text).2⟩
      { f with stack := { frame with children := frame.children + 1 } :: rest } := by
  have hpaths : ({ frame with children := frame.children + 1 } :: rest).map Frame.path =
      f.stack.map Frame.path := by
    rw [hstack]
    rfl
  obtain ⟨hspots, hglobal, hchildren, hnested⟩ := h
  refine ⟨hspots.trans hpaths.symm, ?global, ?children, hnested.of_paths hpaths⟩
  all_goals
    have hframe := hnested.proper frame (hstack ▸ List.mem_cons_self)
  case global =>
    rw [Counters.get_draw, if_neg (hframe.text_ne Scope.globalPath_proper hplace)]
    exact hglobal
  case children =>
    intro other hother hother'
    rcases List.mem_cons.mp hother with rfl | hrest
    · rw [Counters.get_draw, if_pos rfl, Counters.draw,
        hchildren frame (hstack ▸ List.mem_cons_self) hplace]
    · have hmem : other ∈ f.stack := hstack ▸ List.mem_cons_of_mem frame hrest
      have hlonger := hnested.longer
      rw [hstack] at hlonger
      -- a scope further out has a shorter path, so it is counted apart
      have hne : frame.path ≠ other.path := by
        intro heq
        have := List.rel_of_pairwise_cons hlonger hrest
        rw [heq] at this
        exact Nat.lt_irrefl _ this
      rw [Counters.get_draw, if_neg (hframe.text_ne (hnested.proper other hmem) hne)]
      exact hchildren other hmem hother'

/-- A new scope settles on the outline where it does on the frames. -/
theorem settle (h : Reflects o f) {name : Option Text} {path : Path} {g : Frames}
    (hsettles : f.Settles name path g) :
    (o.counters.settle (o.above none) name).1.path = path ∧
      Reflects ⟨o.spots, (o.counters.settle (o.above none) name).2⟩ g := by
  rw [h.above]
  -- a name draws nothing, and a number comes from a count that the frames hold as well
  cases hsettles with
  | named name => exact ⟨rfl, h⟩
  | global htop =>
      have hdraw := h.drawGlobal
      simp only [Counters.settle, htop]
      refine ⟨?_, hdraw⟩
      rw [Counters.draw, h.global]
      rfl
  | @child frame rest hstack hplace =>
      have hdraw := h.drawChild hstack hplace
      rw [Frames.top?_of_cons hstack]
      refine ⟨?_, hdraw⟩
      show frame.path ++ [Text.ofCount (o.counters.get frame.path.text + 1)] = _
      rw [h.children frame (hstack ▸ List.mem_cons_self) hplace]

/-- Entering does to the outline what it does to the frames. -/
theorem enter (h : Reflects o f) (options : Options) (name : Option Text) :
    match f.enter options name with
    | .error e => o.enter options none name = .error e
    | .ok (path, g) => ∃ spot counters, o.enter options none name = .ok (spot, counters) ∧
        spot.path = path ∧ counters.get path.text = 0 ∧ Reflects ⟨o.spots, counters⟩ g ∧
        g.Ahead path := by
  rw [Frames.enter, Outline.enter]
  cases hname : checkName options name with
  | error e => rfl
  | ok u =>
      cases u
      have hsettles := f.settle_settles name
      obtain ⟨hpath, hreflects⟩ := h.settle hsettles
      obtain ⟨-, hahead⟩ := h.nested.settles hname hsettles
      refine ⟨_, _, rfl, hpath, ?_, ?_, hahead.arrive⟩
      · rw [hpath, Counters.get_zero, if_pos rfl]
      · rw [hpath]
        exact hreflects.zero hahead

/-- A scope that was just entered may be put onto both. -/
theorem push (h : Reflects o f) {spot : Spot} (hzero : o.counters.get spot.path.text = 0)
    (hahead : f.Ahead spot.path) : Reflects ⟨spot :: o.spots, o.counters⟩ (f.push spot.path) := by
  refine ⟨?paths, h.global, ?children, h.nested.push hahead⟩
  case paths =>
    show spot.path :: o.spots.map Spot.path = spot.path :: f.stack.map Frame.path
    rw [h.paths]
  case children =>
    intro frame hframe hplace
    rcases List.mem_cons.mp hframe with rfl | hrest
    · exact hzero
    · exact h.children frame hrest hplace

/-- A command that names no counter does to the frames what it does to the outline. -/
theorem step (h : Reflects o f) (options : Options) {command : Command}
    (hplain : command.verb.keyword ≠ .uid ∧ command.verb.keyword ≠ .reset) :
    match f.step options command with
    | .error e => o.step options none command = .error e
    | .ok (line?, g) => ∃ o', o.step options none command = .ok (line?, o') ∧ Reflects o' g := by
  rw [Frames.step, Outline.step]
  cases hverb : command.verb with
  | scope name =>
      have henter := h.enter options name
      cases hresult : f.enter options name with
      | error e =>
          rw [hresult] at henter
          simp only [hresult, henter, Except.map]
      | ok result =>
          rw [hresult] at henter
          obtain ⟨spot, counters, henter, hpath, hzero, hreflects, hahead⟩ := henter
          simp only [hresult, henter, Except.map]
          refine ⟨_, rfl, ?_⟩
          rw [← hpath] at hzero hahead ⊢
          exact hreflects.push hzero hahead
  | leave =>
      have hpaths := h.paths
      cases hstack : f.stack with
      | nil =>
          rw [hstack, List.map_nil, List.map_eq_nil_iff] at hpaths
          simp only [hpaths]
      | cons frame rest =>
          rw [hstack, List.map_cons] at hpaths
          obtain ⟨spot, spots, hspots, -, hrest⟩ := List.map_eq_cons_iff.mp hpaths
          simp only [hspots]
          refine ⟨_, rfl, hrest, h.global, ?_, h.nested.pop hstack⟩
          intro other hother
          exact h.children other (hstack ▸ List.mem_cons_of_mem frame hother)
  | label name =>
      have henter := h.enter options name
      cases hresult : f.enter options name with
      | error e =>
          rw [hresult] at henter
          simp only [hresult, henter, Except.map]
      | ok result =>
          rw [hresult] at henter
          obtain ⟨spot, counters, henter, hpath, -, hreflects, -⟩ := henter
          simp only [hresult, henter, Except.map]
          refine ⟨⟨o.spots, counters⟩, ?_, hreflects⟩
          rw [← hpath]
  | uid counter =>
      rw [hverb] at hplain
      exact absurd rfl hplain.1
  | reset counter =>
      rw [hverb] at hplain
      exact absurd rfl hplain.2
  | current =>
      simp only [h.above]
      exact ⟨o, rfl, h⟩

end Reflects

/-! ## Runs in a fresh environment -/

/-- A runner that has nothing open, in an environment where nothing is active and nothing was
    counted yet. -/
structure Runner.Fresh (r : Runner) (w : World) : Prop extends r.Idle w where
  inactive : w.activeValues r.environment = []
  zero : ∀ name, (w.registry r.environment.counters).get name = 0

/-- A run of a runner, which began in the fresh world `found`, is where frames say. -/
def Follows (r : Runner) (found : World) (f : Frames) (s : RunState) : Prop :=
  ∃ o, Stands r found o s ∧ Reflects o f

/-- A script of one runner finds a fresh environment in a new world. -/
theorem freshWorld_fresh (options : Options) (log : Log) (metrics : Metrics) :
    scriptRunner.Fresh (freshWorld options log metrics) where
  depth := rfl
  opened_free _ := rfl
  transient_free := rfl
  inactive := by
    have hstack : (freshWorld options log metrics).stack scriptEnvironment.contexts = ∅ :=
      Std.ExtTreeMap.getD_empty
    show ((freshWorld options log metrics).stack scriptEnvironment.contexts).values _ = []
    rw [hstack, Contexts.values_empty]
  zero name := by
    have hregistry : (freshWorld options log metrics).registry scriptEnvironment.counters = {} :=
      Std.ExtTreeMap.getD_empty
    show ((freshWorld options log metrics).registry scriptEnvironment.counters).get name = 0
    rw [hregistry]
    exact Std.ExtTreeMap.getD_empty

section Runs

variable {r : Runner} {found : World} {f : Frames} {s : RunState} (hfresh : r.Fresh found)
include hfresh

/-- A run begins without frames where nothing is active. -/
theorem Follows.start (printed : List Text) :
    Follows r found {} { world := found, runner := r, printed } := by
  refine ⟨_, .start hfresh.toIdle printed, rfl, hfresh.zero _, nofun, nofun, .nil⟩

/-- A command that names no counter does to a run what it does to the frames. -/
theorem Follows.attempt (h : Follows r found f s) {command : Command}
    (hplain : command.verb.keyword ≠ .uid ∧ command.verb.keyword ≠ .reset) :
    match f.step (found.optionsOf r.environment) command with
    | .error e => (Run.attempt command s).outcome = ⟨some e, s.goTo command.line⟩
    | .ok (line?, g) => ∃ t, (Run.attempt command s).outcome = ⟨none, t⟩ ∧ Follows r found g t ∧
        t.printed = line?.toList ++ s.printed ∧ t.runner.line = command.line := by
  obtain ⟨o, hstands, hreflects⟩ := h
  -- nothing is active below the run, so every path begins with its own scopes
  have hanchored : o.Anchored none command := fun _ hne => absurd rfl hne
  have hground : (found.view r.environment).Active none := hfresh.inactive
  have hattempt := Run.attempt_stands hfresh.toIdle hground hstands hanchored
  have hstep := hreflects.step (found.optionsOf r.environment) hplain
  cases hresult : f.step (found.optionsOf r.environment) command with
  | error e =>
      rw [hresult] at hstep
      rw [hstep] at hattempt
      exact hattempt
  | ok result =>
      rw [hresult] at hstep
      obtain ⟨o', hstep, hreflects'⟩ := hstep
      rw [hstep] at hattempt
      obtain ⟨t, houtcome, hstands', hprinted, hline⟩ := hattempt
      exact ⟨t, houtcome, ⟨o', hstands', hreflects'⟩, hprinted, hline⟩

/-- What a run prints and where it fails is what the frames tell. -/
theorem Follows.run {commands : List Command}
    (hplain : ∀ command ∈ commands, command.verb.keyword ≠ .uid ∧ command.verb.keyword ≠ .reset)
    (h : Follows r found f s) :
    let ended := (Run.run commands).outcome s
    let transcript := Frames.run (found.optionsOf r.environment) commands f
    ended.state.printed = transcript.lines.reverse ++ s.printed ∧
      ended.error?.map (·, ended.state.runner.line) = transcript.failure? := by
  induction commands generalizing f s with
  | nil =>
      obtain ⟨o, hstands, -⟩ := h
      obtain ⟨t, hfinish, -, hprinted, -⟩ := Run.finish_stands hfresh.toIdle hstands
      have hended : (Run.run []).outcome s = ⟨none, t⟩ := by
        rw [Run.outcome, Run.run, hfinish]
      simp only [hended]
      exact ⟨hprinted, rfl⟩
  | cons command rest ih =>
      have hattempt := h.attempt hfresh (hplain command List.mem_cons_self)
      have hrest := fun c hc => hplain c (List.mem_cons_of_mem command hc)
      simp only [Run.outcome_cons, Frames.run]
      cases hresult : f.step (found.optionsOf r.environment) command with
      | error e =>
          rw [hresult] at hattempt
          simp only [hattempt]
          exact ⟨rfl, rfl⟩
      | ok result =>
          rw [hresult] at hattempt
          obtain ⟨t, houtcome, hfollows, hprinted, hline⟩ := hattempt
          obtain ⟨hlines, hfailure⟩ := ih hrest hfollows
          simp only [houtcome]
          refine ⟨?_, hfailure⟩
          rw [hlines, hprinted, List.reverse_append, List.append_assoc]
          cases result.1 <;> rfl

end Runs

/-- A script that names no counter, run in a fresh environment, prints what the reference prints,
    and if it fails, it fails with the error of the reference at the same line. -/
theorem run_eq_reference {r : Runner} {w : World} (hfresh : r.Fresh w) {commands : List Command}
    (hplain : ∀ command ∈ commands, command.verb.keyword ≠ .uid ∧ command.verb.keyword ≠ .reset) :
    let ended := (Run.run commands).outcome { world := w, runner := r }
    let transcript := Frames.run (w.optionsOf r.environment) commands {}
    ended.state.output = Text.unlines transcript.lines ∧
      ended.error?.map (·, ended.state.runner.line) = transcript.failure? := by
  intro ended transcript
  obtain ⟨hprinted, hfailure⟩ := (Follows.start hfresh []).run hfresh hplain
  refine ⟨?_, hfailure⟩
  rw [RunState.output, hprinted, List.append_nil, List.reverse_reverse]

/-- A script that uses the place of global numbering in every way: a nameless scope and a nameless
    label stand there, then it is opened by name. At last one `end` too many is met. -/
def globalScript : List Command :=
  [⟨.scope none, 1⟩, ⟨.label none, 2⟩, ⟨.leave, 3⟩, ⟨.label none, 4⟩, ⟨.scope (some "global"), 5⟩,
    ⟨.label none, 6⟩, ⟨.leave, 7⟩, ⟨.current, 8⟩, ⟨.leave, 9⟩]

/-- The numbering starts anew when `global` is entered by name, and the labels inside are counted
    there. -/
theorem run_eq_reference_global :
    let ended := (Run.run globalScript).outcome
      { world := freshWorld {} {} {}, runner := scriptRunner }
    (scriptRunner.Fresh (freshWorld {} {} {}) ∧
      ∀ command ∈ globalScript, command.verb.keyword ≠ .uid ∧ command.verb.keyword ≠ .reset) ∧
    ended.state.output = Text.unlines ["global/1/1", "global/2", "global/1", "<none>"] ∧
    ended.error?.map (·, ended.state.runner.line) =
      some (.script ⟨9, .endWithoutScope⟩, 9) := by
  have hfresh := freshWorld_fresh {} {} {}
  have hplain : ∀ command ∈ globalScript,
      command.verb.keyword ≠ .uid ∧ command.verb.keyword ≠ .reset := by decide
  have hoptions : (freshWorld {} {} {}).optionsOf scriptRunner.environment = {} := by
    decide +kernel
  have htranscript : Frames.run {} globalScript {} =
      { lines := ["global/1/1", "global/2", "global/1", "<none>"]
        failure? := some (.script ⟨9, .endWithoutScope⟩, 9) } := by decide +kernel
  have hrun := run_eq_reference hfresh hplain
  rw [hoptions, htranscript] at hrun
  exact ⟨⟨hfresh, hplain⟩, hrun⟩

end Script

end ScopedLabels
