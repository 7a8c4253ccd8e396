import ScopedLabels.Proofs.Halting
import ScopedLabels.Proofs.Uniqueness

/-!
# Identity — a name tells the path

A scope is known in two ways. Scopes are compared by their paths, but counters are kept under the
*text* of a path, and what a script prints for a label is the text again. The two come to the same
only if the text tells the path. It does for every path whose segments hold no separator: cutting
the text at the separators gives the path back (`Path.Proper.splitWhere_text`).

So it is to be shown that a script comes to no other paths. It is enough to look at the outline of
the run: a segment is a name that was checked, or a number, or the word that global numbering goes
by, and all of these are accepted as names (`Outline.step_valid`). From there it holds of all scopes
that a run ever has open and of all labels that it prints (`Run.Mentions.valid`), so in a run a name
stands for its path (`names_identify_paths`).
-/

namespace ScopedLabels

/-! ## Texts of paths -/

namespace Path

/-- Cutting the text of a proper path at every separator gives the path back. -/
theorem Proper.splitWhere_text {path : Path} (h : path.Proper) :
    path.text.splitWhere (· == Text.slash) = path :=
  Text.splitWhere_join h.ne_nil h.slash_not_mem

theorem Proper.text_eq_iff {p q : Path} (hp : p.Proper) (hq : q.Proper) :
    p.text = q.text ↔ p = q := by
  constructor
  · exact hp.eq_of_text_eq hq
  · rintro rfl
    rfl

/-- A path of which every segment is accepted as a name. -/
structure Valid (options : Options) (path : Path) : Prop where
  ne_nil : path ≠ []
  accepted : ∀ segment ∈ path, requireName options segment = .ok ()

namespace Valid

variable {options : Options} {path : Path}

theorem proper (h : path.Valid options) : path.Proper where
  ne_nil := h.ne_nil
  slash_not_mem segment hmem := slash_not_mem_of_requireName (h.accepted segment hmem)

/-- One more segment that is accepted. -/
theorem concat {parents : Path} {basename : Text}
    (hparents : ∀ segment ∈ parents, requireName options segment = .ok ())
    (hbasename : requireName options basename = .ok ()) :
    Path.Valid options (parents ++ [basename]) where
  ne_nil := by simp
  accepted segment hmem := by
    rcases List.mem_append.mp hmem with hparent | hlast
    · exact hparents segment hparent
    · rw [List.mem_singleton.mp hlast]
      exact hbasename

end Valid

end Path

/-- A number is accepted as a name. -/
theorem requireName_of_isNumeral (options : Options) {name : Text} (hne : name ≠ [])
    (h : name.isNumeral = true) : requireName options name = .ok () := by
  have hunderscore : Text.underscore ∉ name := by
    intro hmem
    exact absurd (List.all_eq_true.mp h Text.underscore hmem) (by decide)
  have hfault : nameFault? options name = none := by
    rw [nameFault?, if_neg hne, if_neg (Text.slash_not_mem_of_isNumeral h),
      if_neg fun h => hunderscore h.2]
  rw [requireName, hfault]

/-- A number is accepted as a name under any options. -/
theorem requireName_ofCount (options : Options) (n : UInt64) :
    requireName options (Text.ofCount n) = .ok () := by
  refine requireName_of_isNumeral options ?_ (Text.isNumeral_ofCount n)
  rw [Text.ofCount, Text.ofNat, ne_eq, List.map_eq_nil_iff]
  exact Nat.toDigits_ne_nil

/-- The path of global numbering is made of an accepted name, too. -/
theorem Scope.globalPath_valid (options : Options) : globalPath.Valid options where
  ne_nil := List.cons_ne_nil _ _
  accepted segment hmem := by
    rw [List.mem_singleton.mp hmem, requireName, nameFault?, if_neg (by decide),
      if_neg (by decide), if_neg fun h => absurd h.2 (by decide)]

theorem Scope.fullName_of_path {scope : Scope} {path : Path} (h : scope.path = .ok path) :
    scope.fullName = .ok path.text := by
  rw [fullName, h]
  rfl

namespace Script

/-! ## Outlines -/

namespace Outline

/-- All scopes that an outline has open stand at paths of accepted names. -/
def Valid (options : Options) (o : Outline) : Prop :=
  ∀ spot ∈ o.spots, spot.path.Valid options

variable {o o' : Outline} {options : Options}

/-- So do the segments above a new scope, whatever they are taken from outside every scope. -/
theorem Valid.above (h : o.Valid options) {outside : Path}
    (houtside : ∀ segment ∈ outside, requireName options segment = .ok ()) :
    ∀ segment ∈ (o.above none).getD outside, requireName options segment = .ok () := by
  rw [Outline.above]
  cases hspots : o.spots with
  | nil => exact houtside
  | cons spot rest => exact (h spot (hspots ▸ List.mem_cons_self)).accepted

/-- What is entered next stands at such a path as well. -/
theorem Valid.enter {name : Option Text} {spot : Spot} {counters : Counters}
    (h : o.Valid options) (henter : o.enter options none name = .ok (spot, counters)) :
    spot.path.Valid options := by
  rw [Outline.enter] at henter
  cases hcheck : checkName options name with
  | error e => rw [hcheck] at henter; cases henter
  | ok u =>
      rw [hcheck] at henter
      cases henter
      cases name with
      | some name => exact .concat (h.above fun _ hmem => absurd hmem List.not_mem_nil) hcheck
      | none =>
          exact .concat (h.above (Scope.globalPath_valid options).accepted)
            (requireName_ofCount options _)

/-- Every command keeps that up. -/
theorem step_valid {command : Command} {line? : Option Text} (h : o.Valid options)
    (hstep : o.step options none command = .ok (line?, o')) : o'.Valid options := by
  have hsteps := step_cases hstep
  generalize command.verb = verb at hsteps
  cases hsteps with
  | scope henter =>
      intro spot hmem
      rcases List.mem_cons.mp hmem with rfl | hbelow
      · exact h.enter henter
      · exact h spot hbelow
  | leave hspots => exact fun spot hmem => h spot (hspots ▸ List.mem_cons_of_mem _ hmem)
  | label henter => exact h
  | uid | reset | current => exact h

end Outline

/-- The scopes that a runner has open are those of its outline. -/
theorem Stands.spot_of_opened {r : Runner} {found : World} {o : Outline} {s : RunState}
    (h : Stands r found o s) (hidle : r.Idle found) {i : Nat} {scope : Scope}
    (hscope : s.world.scope? (.opened r.name i) = some scope) :
    ∃ spot ∈ o.spots, scope = spot.scope r.environment := by
  have hview := congrFun (congrArg View.scope? h.view) (.opened r.name i)
  have hopened : (r.opened (found.view r.environment) o.spots).scope? (.opened r.name i) =
      some scope := hview.symm.trans hscope
  generalize o.spots = spots at hopened ⊢
  induction spots with
  | nil => cases (hidle.opened_free i).symm.trans hopened
  | cons spot spots ih =>
      by_cases hi : ScopeId.opened r.name spots.length = .opened r.name i
      · cases (if_pos hi).symm.trans hopened
        exact ⟨spot, List.mem_cons_self, rfl⟩
      · obtain ⟨other, hmem, heq⟩ := ih ((if_neg hi).symm.trans hopened)
        exact ⟨other, List.mem_cons_of_mem spot hmem, heq⟩

/-! ## Runs -/

/-- A label that a command makes. -/
def Attempt.Makes (a : Attempt) (label : Label) : Prop :=
  ∃ name w, a.command.verb = .label name ∧
    a.before.runner.environment.labelFor (.fresh name) a.before.world = .ok label w

namespace Run

/-- The states of a run between its commands, and the one in which it ends. -/
def stations (commands : List Command) (s : RunState) : List RunState :=
  (attempts commands s).flatMap (fun a => [a.before, a.outcome.state]) ++
    [((run commands).outcome s).state]

/-- A scope that a run has open at some time. -/
def Opens (commands : List Command) (s : RunState) (scope : Scope) : Prop :=
  ∃ t ∈ stations commands s, ∃ i, t.world.scope? (.opened s.runner.name i) = some scope

/-- The paths of a run: those of the scopes that it has open at some time and of the labels that it
    makes, and the one that it is numbered under outside every scope. -/
inductive Mentions (commands : List Command) (s : RunState) : Path → Prop
  | scope {scope : Scope} {path : Path} (hopens : Opens commands s scope)
      (hpath : scope.path = .ok path) : Mentions commands s path
  | label {a : Attempt} {label : Label} (ha : a ∈ attempts commands s) (hmakes : a.Makes label) :
      Mentions commands s label.parts
  | global : Mentions commands s Scope.globalPath

/-- The line that is printed for a label is the text of one that was made. -/
theorem makes_of_labelLine? {commands : List Command} {s : RunState} {a : Attempt}
    (ha : a ∈ attempts commands s) {line : Text} (hline : a.labelLine? = some line) :
    ∃ label, a.Makes label ∧ line = label.text := by
  -- the line that was printed last is that of the label, and the label is what the execution made
  obtain ⟨t, -, heq⟩ := attempts_invariant (P := fun _ => True) (fun _ _ => trivial) trivial ha
  rw [Attempt.labelLine?] at hline
  cases hverb : a.command.verb with
  | label name =>
      cases herror : a.outcome.error? with
      | some e => simp [hverb, herror] at hline
      | none =>
          simp only [hverb, herror] at hline
          have hbefore : a.before = t.goTo a.command.line := congrArg Attempt.before heq
          have houtcome : a.outcome = (execute a.command).outcome a.before := by
            rw [hbefore]
            exact congrArg Attempt.outcome heq
          rw [houtcome] at herror hline
          have hexecuted := apply_of_outcome herror
          rw [execute_label hverb, bind_apply, act_apply] at hexecuted
          cases hmade : a.before.runner.environment.momentaryLabel name a.before.world with
          | error e w => rw [hmade] at hexecuted; cases hexecuted
          | ok label w =>
              rw [hmade] at hexecuted
              refine ⟨label, ⟨name, w, hverb, hmade⟩, ?_⟩
              rw [← (EStateM.Result.ok.inj hexecuted).2] at hline
              exact (Option.some.inj hline).symm
  | scope name | leave | uid counter | reset counter | current => simp [hverb] at hline

section Fresh

variable {r : Runner} {found : World} (hfresh : r.Fresh found)
include hfresh

/-- A run in a fresh environment goes on to each of its commands from an outline of valid paths, and
    leaves one after it. -/
theorem attempt_valid {commands : List Command} {a : Attempt}
    (ha : a ∈ attempts commands { world := found, runner := r }) :
    (∃ o, Stands r found o a.before ∧ o.Valid (found.optionsOf r.environment)) ∧
      ∃ o, Stands r found o a.outcome.state ∧ o.Valid (found.optionsOf r.environment) := by
  have hground : (found.view r.environment).Active none := hfresh.inactive
  obtain ⟨o, t, hstands, ho, heq⟩ := attempt_of_attempts hfresh.toIdle hground
    (I := Outline.Valid (found.optionsOf r.environment)) Outline.step_valid
    (.start hfresh.toIdle []) nofun ha
  have hgone := hstands.goTo a.command.line
  have hattempt := attempt_stands_fresh hfresh hstands a.command
  rw [← heq] at hattempt
  refine ⟨⟨o, (congrArg Attempt.before heq) ▸ hgone, ho⟩, ?_⟩
  cases hstep : o.step (found.optionsOf r.environment) none a.command with
  | error e =>
      rw [hstep] at hattempt
      exact ⟨o, hattempt ▸ hgone, ho⟩
  | ok result =>
      rw [hstep] at hattempt
      obtain ⟨u, houtcome, hu, -, -⟩ := hattempt
      exact ⟨result.2, houtcome ▸ hu, Outline.step_valid ho hstep⟩

/-- Wherever a run stands, all paths of its outline are valid. -/
theorem station_valid {commands : List Command} {t : RunState}
    (ht : t ∈ stations commands { world := found, runner := r }) :
    ∃ o, Stands r found o t ∧ o.Valid (found.optionsOf r.environment) := by
  -- at its end a run has nothing open
  have hfinish : ∀ {o s}, Stands r found o s →
      ∃ o', Stands r found o' (finish.outcome s).state ∧
        o'.Valid (found.optionsOf r.environment) := by
    intro o s hstands
    obtain ⟨u, hfinish, hu, -⟩ := finish_stands hfresh.toIdle hstands
    rw [state_outcome, after_ok hfinish]
    exact ⟨_, hu, nofun⟩
  rcases List.mem_append.mp ht with hbetween | hend
  · obtain ⟨a, ha, hmem⟩ := List.mem_flatMap.mp hbetween
    obtain ⟨hbefore, hafter⟩ := attempt_valid hfresh ha
    rcases List.mem_cons.mp hmem with rfl | hlast
    · exact hbefore
    · rw [List.mem_singleton.mp hlast]
      exact hafter
  · rw [List.mem_singleton.mp hend, outcome_eq_last]
    cases hlast : (attempts commands { world := found, runner := r }).getLast? with
    | none => exact hfinish (.start hfresh.toIdle [])
    | some last =>
        obtain ⟨-, o, hstands, ho⟩ := attempt_valid hfresh (List.mem_of_getLast? hlast)
        cases houtcome : last.outcome with
        | mk error? u =>
            rw [houtcome] at hstands
            cases error? with
            | none => simp only [houtcome]; exact hfinish hstands
            | some e => simp only [houtcome]; exact ⟨o, hstands, ho⟩

/-- The scopes that a run opens stand somewhere, at paths of accepted names. -/
theorem Opens.valid {commands : List Command} {scope : Scope}
    (h : Opens commands { world := found, runner := r } scope) :
    ∃ path, scope.path = .ok path ∧ path.Valid (found.optionsOf r.environment) := by
  obtain ⟨t, ht, i, hscope⟩ := h
  obtain ⟨o, hstands, ho⟩ := station_valid hfresh ht
  obtain ⟨spot, hspot, rfl⟩ := hstands.spot_of_opened hfresh.toIdle hscope
  exact ⟨spot.path, rfl, ho spot hspot⟩

/-- So do the labels that it makes. -/
theorem makes_valid {commands : List Command} {a : Attempt} {label : Label}
    (ha : a ∈ attempts commands { world := found, runner := r }) (h : a.Makes label) :
    label.parts.Valid (found.optionsOf r.environment) := by
  have hground : (found.view r.environment).Active none := hfresh.inactive
  obtain ⟨⟨o, hstands, ho⟩, -⟩ := attempt_valid hfresh ha
  obtain ⟨name, w, -, hmade⟩ := h
  have hfree := hstands.transient_free hfresh.toIdle
  rw [hstands.environment, Environment.labelFor] at hmade
  cases hcheck : checkName (found.optionsOf r.environment) name with
  | error e =>
      cases (Environment.momentaryLabel_refused hfree (hstands.options ▸ hcheck)).symm.trans hmade
  | ok u =>
      obtain ⟨v, hlabel, -⟩ := Environment.momentaryLabel_view hfree (hstands.active hground)
        (fun _ => hstands.numbers hground fun _ => rfl) (hstands.options ▸ hcheck)
      cases hlabel.symm.trans hmade
      have henter : ∃ counters, o.enter (found.optionsOf r.environment) none name =
          .ok ((o.counters.settle (o.above none) name).1, counters) := by
        rw [Outline.enter, hcheck]
        exact ⟨_, rfl⟩
      obtain ⟨counters, henter⟩ := henter
      rw [show (a.before.world.view r.environment).counters = o.counters from hstands.counters]
      exact ho.enter henter

/-- Every path that a run mentions is valid. -/
theorem Mentions.valid {commands : List Command} {path : Path}
    (h : Mentions commands { world := found, runner := r } path) :
    path.Valid (found.optionsOf r.environment) := by
  cases h with
  | scope hopens hpath =>
      obtain ⟨p, hp, hvalid⟩ := hopens.valid hfresh
      cases hp.symm.trans hpath
      exact hvalid
  | label ha hmakes => exact makes_valid hfresh ha hmakes
  | global => exact Scope.globalPath_valid _

end Fresh

end Run

/-- In scripts names tell paths. Proper paths, which have a segment and no separator in any, are
    equal if their texts are, and the text cut at its separators is the path. A run in a fresh
    environment comes to no other paths: every segment is accepted as a name, also the numbers that
    are drawn and the word for global numbering. So two scopes or labels of a run have one name only
    if they have one path, counters of different paths are different, scopes are the same node
    exactly if they are called the same, and the line of a label cuts into its parts. The text of
    any label at all is its parts joined, and the scope that is made from it goes by that text. -/
theorem names_identify_paths {r : Runner} {found : World} (hfresh : r.Fresh found)
    (commands : List Command) :
    let start : RunState := { world := found, runner := r }
    (∀ p q : Path, p.Proper → q.Proper →
      (p.text = q.text ↔ p = q) ∧ p.text.splitWhere (· == Text.slash) = p) ∧
    (∀ p, Run.Mentions commands start p → p.Valid (found.optionsOf r.environment) ∧
      ∀ q, Run.Mentions commands start q → (p.text = q.text ↔ p = q) ∧
        (p ≠ q → ∀ counters : Counters,
          (counters.draw p.text).2.get q.text = counters.get q.text ∧
          (counters.zero p.text).get q.text = counters.get q.text)) ∧
    (∀ a, Run.Opens commands start a → (∃ path, a.path = .ok path ∧ a.fullName = .ok path.text) ∧
      ∀ b, Run.Opens commands start b → (a.sameNode b = true ↔ a.fullName = b.fullName)) ∧
    (∀ a ∈ Run.attempts commands start, ∀ line, a.labelLine? = some line →
      ∃ label, a.Makes label ∧ line = label.text ∧
        line.splitWhere (· == Text.slash) = label.parts) ∧
    ∀ label : Label, label.text = Text.join Text.slash label.parts ∧
      ∀ environment, label.parts ≠ [] → ∃ scope, Scope.ofPath environment label.parts = .ok scope ∧
        scope.path = .ok label.parts ∧ scope.fullName = .ok label.text := by
  intro start
  refine ⟨fun p q hp hq => ⟨hp.text_eq_iff hq, hp.splitWhere_text⟩, fun p hmentions => ?paths,
    fun a hopens => ?scopes, fun a ha line hline => ?lines, fun label => ⟨rfl, ?labels⟩⟩
  case paths =>
    have hp := hmentions.valid hfresh
    refine ⟨hp, fun q hmentions' => ?_⟩
    have htext := hp.proper.text_eq_iff (hmentions'.valid hfresh).proper
    refine ⟨htext, fun hne counters => ?_⟩
    have hkeys : p.text ≠ q.text := fun heq => hne (htext.mp heq)
    rw [Counters.get_draw, Counters.get_zero, if_neg hkeys, if_neg hkeys]
    exact ⟨rfl, rfl⟩
  case scopes =>
    obtain ⟨p, hpath, hp⟩ := hopens.valid hfresh
    refine ⟨⟨p, hpath, Scope.fullName_of_path hpath⟩, fun b hopens' => ?_⟩
    obtain ⟨q, hpath', hq⟩ := hopens'.valid hfresh
    rw [Scope.sameNode, Scope.path?_of_path hpath, Scope.path?_of_path hpath',
      Scope.fullName_of_path hpath, Scope.fullName_of_path hpath', Except.ok.injEq,
      hp.proper.text_eq_iff hq.proper]
    exact beq_iff_eq
  case lines =>
    obtain ⟨label, hmakes, rfl⟩ := Run.makes_of_labelLine? ha hline
    exact ⟨label, hmakes, rfl, (Run.makes_valid hfresh ha hmakes).proper.splitWhere_text⟩
  case labels =>
    intro environment hne
    have hlast : label.parts.getLast? = some (label.parts.getLast hne) :=
      List.getLast?_eq_some_getLast hne
    have hpath : (⟨environment, .resolved label.parts.dropLast (label.parts.getLast hne), 0⟩ :
        Scope).path = .ok label.parts := by
      show Except.ok (label.parts.dropLast ++ [label.parts.getLast hne]) = _
      rw [List.dropLast_append_getLast]
    refine ⟨_, ?_, hpath, Scope.fullName_of_path hpath⟩
    rw [Scope.ofPath, Place.ofPath?, hlast]
    rfl

/-- From the line of a label that is numbered globally its two parts are read off. -/
theorem names_identify_paths_mixed :
    let start : RunState :=
      { world := freshWorld { forbidUnderscore := true } {} {}, runner := scriptRunner }
    scriptRunner.Fresh start.world ∧
      Run.labelLines mixedScript start = (["a/1", "a/b", "global/1", "b"] : List Text) ∧
      ∀ a ∈ Run.attempts mixedScript start, a.labelLine? = some "global/1" →
        a.Makes ⟨["global", "1"]⟩ := by
  intro start
  have hfresh : scriptRunner.Fresh start.world := freshWorld_fresh _ _ _
  refine ⟨hfresh, by decide +kernel, fun a ha hline => ?_⟩
  obtain ⟨-, -, -, hlines, -⟩ := names_identify_paths hfresh mixedScript
  obtain ⟨label, hmakes, -, hparts⟩ := hlines a ha _ hline
  have hcut : Text.splitWhere (· == Text.slash) "global/1" = (["global", "1"] : List Text) := by
    decide +kernel
  have hlabel : label = ⟨["global", "1"]⟩ := by rw [← hcut, hparts]
  rw [← hlabel]
  exact hmakes

end Script

end ScopedLabels
