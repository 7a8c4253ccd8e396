import ScopedLabels.Proofs.Labeling

/-!
# Overloads — two ways to ask for one label

Inside a scope a label may be asked for on the spot, or below the scope itself. The first makes a
scope, lets it settle below the innermost one, and reads its path; the second adds a segment to a
path. Where the innermost scope is the one that is named, and belongs to the environment, it comes
to the same (`World.Inside.overloads`): the segment that is added is the one with which the new
scope settles, drawn from the same counter, and all that the first way leaves beyond the second is
the visit of the new scope.

So a caller may change from one to the other at every label. `Turn` is one call among others, and in
a row of turns the labels without a name are numbered consecutively, as long as whatever is done
between them leaves the counter of the scope alone.
-/

namespace ScopedLabels

namespace World.Inside

variable {w : World} {environment owner : Environment} {id : ScopeId} {path : Path}

/-- The segment of a label below the scope is the one with which a new scope settles there. -/
theorem segment_of_settles (h : w.Inside environment id owner path) {name? : Option Text}
    (hname : checkName (w.optionsOf owner) name? = .ok ()) {scope : Scope} {parents : Path}
    {basename : Text} {u : World} (hplace : scope.place = .unresolved name?)
    (henvironment : scope.environment = environment)
    (hsettles : scope.Settles w parents basename u) :
    parents = path ∧ id.segment name? w = .ok basename u := by
  obtain ⟨above, habove, rfl, hpath⟩ := h.standing
  have hcurrent := h.current
  rw [← henvironment] at hcurrent
  cases hsettles with
  | again hplace' => cases hplace.symm.trans hplace'
  | alone hplace' hcurrent' => cases hcurrent.symm.trans hcurrent'
  | global hplace' hcurrent' => cases hcurrent.symm.trans hcurrent'
  | named hplace' hcurrent' habove' hpath' =>
      cases hplace.symm.trans hplace'
      cases hcurrent.symm.trans hcurrent'
      cases habove.symm.trans habove'
      cases hpath.symm.trans hpath'
      have hrequire : requireName (w.optionsOf above.environment) basename = .ok () := hname
      refine ⟨rfl, ?_⟩
      rw [ScopeId.segment, bind_apply, ScopeId.fetch_alive habove]
      simp only [bind_apply, get_apply, hrequire, ofExcept_apply, pure_apply]
  | numbered hplace' hcurrent' habove' hpath' =>
      cases hplace.symm.trans hplace'
      cases hcurrent.symm.trans hcurrent'
      cases habove.symm.trans habove'
      cases hpath.symm.trans hpath'
      exact ⟨rfl, ScopeId.nextSegment_apply habove hpath⟩

/-- Both ways fail with the same error, and change nothing, or both give the same label; then all
    that the label on the spot leaves beyond the other is a visit. -/
theorem overloads (h : w.Inside environment id environment path) (name? : Option Text) :
    (∃ e, id.labelBelow name? w = .error e w ∧ environment.momentaryLabel name? w = .error e w) ∨
      ∃ label u, id.labelBelow name? w = .ok label u ∧
        environment.momentaryLabel name? w = .ok label (u.visited environment label) ∧
        (u.registry environment.counters).get label.text =
          (w.registry environment.counters).get label.text := by
  obtain ⟨above, habove, henvironment, hpath⟩ := h.standing
  cases hname : checkName (w.optionsOf environment) name? with
  | error e =>
      have hrefused := (checkName_error_iff _ name? e).mp hname
      refine .inl ⟨e, ?_, Environment.momentaryLabel_refused h.idle hname⟩
      refine (ScopeId.labelBelow_fails habove name? e w).mpr ⟨rfl, .inr ⟨?_, ?_⟩⟩
      · exact Scope.resolved_of_path hpath
      · rw [henvironment]
        exact hrefused
  | ok checked =>
      have hvalid : ∀ e, ¬ Refused (w.optionsOf environment) name? e := fun e hrefused =>
        nomatch hname.symm.trans ((checkName_error_iff _ name? e).mpr hrefused)
      obtain ⟨label, v, hlabel⟩ := (h.momentaryLabel_fails name?).exists_ok hvalid
      obtain ⟨parents, basename, u, hsettles, rfl, rfl⟩ := Environment.momentaryLabel_ok hlabel
      obtain ⟨rfl, hsegment⟩ := h.segment_of_settles hname rfl rfl hsettles
      have hread : id.path w = .ok parents w := by simp only [ScopeId.path_apply, habove, hpath]
      -- something is active, so the stack was touched before
      have htouched : environment.contexts ∈ u.contexts := by
        rw [hsettles.sameScopes.contexts]
        refine mem_contexts_of_activeValues fun hnil => ?_
        have hcurrent := h.current
        rw [current_eq, hnil] at hcurrent
        cases hcurrent
      refine .inr ⟨⟨parents ++ [basename]⟩, u.count .labelsGenerated, ?_, ?_, ?_⟩
      · simp only [ScopeId.labelBelow, bind_apply, hread, hsegment, modify_apply, pure_apply]
      · rw [hlabel, withLabel, modifyStack_id htouched]
      · show (u.registry environment.counters).get _ = _
        rw [hsettles.get_registry rfl, if_neg]
        rintro ⟨-, hnumbering⟩
        have hsame := Option.some.inj (h.numbering?.symm.trans hnumbering)
        exact Path.text_concat_ne (Scope.ne_nil_of_path hpath) basename
          (congrArg Prod.snd hsame).symm

end World.Inside

/-! ## Rows of turns -/

/-- A turn of a caller inside a scope. -/
inductive Turn
  /-- A label below the innermost active scope. -/
  | implicit (naming : Naming)
  /-- A label below the scope itself. -/
  | explicit (naming : Naming)
  /-- Whatever else. -/
  | elsewhere (action : Action Unit)

namespace Turn

/-- Take a turn. The result is the label, if one was made. -/
def take (environment : Environment) (id : ScopeId) : Turn → Action (Option Label)
  | .implicit naming => some <$> environment.labelFor naming
  | .explicit naming => some <$> id.labelFor naming
  | .elsewhere action => do
    action
    return none

/-- Is it a label without a name that is asked for? -/
def nameless : Turn → Bool
  | .implicit (.fresh none) | .explicit (.fresh none) => true
  | _ => false

/-- The labels that the turns without a name make, where a turn that fails makes none. -/
def answers (environment : Environment) (id : ScopeId) : List Turn → World → List (Option Label)
  | [], _ => []
  | turn :: rest, w =>
    let later := answers environment id rest (after (turn.take environment id) w)
    if turn.nameless then
      (match turn.take environment id w with
        | .ok label? _ => label?
        | .error _ _ => none) :: later
    else later

end Turn

section Turns

variable {w v : World} {environment : Environment} {id : ScopeId} {path : Path}

/-- An action inside a scope leaves it innermost. If it is to make a label without a name, it makes
    the one of the next number; otherwise it leaves the counter of the scope alone. -/
def Action.Advances (action : Action (Option Label)) (w : World) (environment : Environment)
    (id : ScopeId) (path : Path) (nameless : Bool) : Prop :=
  let count := (w.registry environment.counters).get path.text
  let v := after action w
  v.Inside environment id environment path ∧
    if nameless then
      action w = .ok (some ⟨path ++ [Text.ofCount (count + 1)]⟩) v ∧
        (v.registry environment.counters).get path.text = count + 1
    else (v.registry environment.counters).get path.text = count

/-- An action leaves the scope innermost and leaves its counter alone. -/
def Action.Spares {α : Type} (action : Action α) (w : World) (environment : Environment)
    (id : ScopeId) (path : Path) : Prop :=
  let v := after action w
  v.Inside environment id environment path ∧
    (v.registry environment.counters).get path.text =
      (w.registry environment.counters).get path.text

/-- In a row of turns, whatever is done elsewhere spares the scope, in the world in which its turn
    comes. -/
def Turn.Spare (environment : Environment) (id : ScopeId) (path : Path) : List Turn → World → Prop
  | [], _ => True
  | turn :: rest, w =>
    (∀ action, turn = .elsewhere action →
      Action.Spares (turn.take environment id) w environment id path) ∧
    Spare environment id path rest (after (turn.take environment id) w)

/-- An action that fails and changes nothing leaves the count of the scope. -/
theorem Action.Advances.of_error {action : Action (Option Label)} {e : Error}
    (h : w.Inside environment id environment path) (hfailed : action w = .error e w) :
    action.Advances w environment id path false := by
  rw [Advances, after_error hfailed]
  exact ⟨h, rfl⟩

/-- An action that makes a label advances the scope if the label took the next number. -/
theorem Action.Advances.of_ok {action : Action (Option Label)} {label : Label} {nameless : Bool}
    (hmade : action w = .ok (some label) v) (h : v.Inside environment id environment path)
    (hlabel : nameless = true → label =
      ⟨path ++ [Text.ofCount ((w.registry environment.counters).get path.text + 1)]⟩)
    (hcount : (v.registry environment.counters).get path.text =
      if nameless = true then (w.registry environment.counters).get path.text + 1
      else (w.registry environment.counters).get path.text) :
    action.Advances w environment id path nameless := by
  rw [Advances, after_ok hmade]
  refine ⟨h, ?_⟩
  cases nameless with
  | false => exact hcount
  | true => exact ⟨by rw [hmade, hlabel rfl], hcount⟩

/-- Either way of asking for a label advances. -/
theorem World.Inside.advances (h : w.Inside environment id environment path)
    (name? : Option Text) :
    Action.Advances (some <$> environment.momentaryLabel name?) w environment id path name?.isNone ∧
      Action.Advances (some <$> id.labelBelow name?) w environment id path name?.isNone := by
  rcases h.overloads name? with ⟨e, hbelow, hspot⟩ | ⟨label, u, hbelow, hspot, -⟩
  · have hnamed : name?.isNone = false := by
      cases name? with
      | some name => rfl
      | none =>
          obtain ⟨v, hmade, -⟩ := h.momentaryLabel_nameless
          cases hspot.symm.trans hmade
    rw [hnamed]
    exact ⟨.of_error h (by rw [map_apply, hspot]), .of_error h (by rw [map_apply, hbelow])⟩
  · have hlabels := environment.momentaryLabel_labels hspot
    obtain ⟨hinside, hlonger, hcount⟩ := h.labels_inside hlabels
    have hlabel : name?.isNone = true → label =
        ⟨path ++ [Text.ofCount ((w.registry environment.counters).get path.text + 1)]⟩ := by
      intro hnone
      obtain rfl := Option.isNone_iff_eq_none.mp hnone
      obtain ⟨v, hmade, -⟩ := h.momentaryLabel_nameless
      cases hspot.symm.trans hmade
      rfl
    simp only [← Option.isNone_iff_eq_none] at hcount
    have hspot' : (some <$> environment.momentaryLabel name?) w =
        .ok (some label) (u.visited environment label) := by rw [map_apply, hspot]
    have hbelow' : (some <$> id.labelBelow name?) w = .ok (some label) u := by
      rw [map_apply, hbelow]
    refine ⟨.of_ok hspot' hinside hlabel hcount,
      .of_ok hbelow' (hinside.congr rfl fun _ => rfl) hlabel ?_⟩
    -- the visit that is missing sets another counter back
    rw [← hcount]
    have hvisited := u.get_modifyRegistry_set environment.counters label.text 0
      environment.counters path.text
    rw [if_neg fun hzeroed => hlonger hzeroed.2.symm] at hvisited
    exact hvisited.symm

namespace Turn

/-- Every turn advances. -/
theorem take_advances (h : w.Inside environment id environment path) {turn : Turn}
    (hspares : ∀ action, turn = .elsewhere action →
      Action.Spares (turn.take environment id) w environment id path) :
    (turn.take environment id).Advances w environment id path turn.nameless := by
  cases turn with
  | implicit naming =>
      cases naming with
      | ready label => exact .of_ok rfl h nofun rfl
      | fresh name? =>
          have hmade := (h.advances name?).1
          cases name? <;> exact hmade
  | explicit naming =>
      cases naming with
      | ready label => exact .of_ok rfl h nofun rfl
      | fresh name? =>
          have hmade := (h.advances name?).2
          cases name? <;> exact hmade
  | elsewhere action => exact hspares action rfl

/-- What is done elsewhere spares the scope along the row, if it does so in every world inside. -/
theorem spare_of_forall (h : w.Inside environment id environment path) {turns : List Turn}
    (hspares : ∀ action, .elsewhere action ∈ turns → ∀ w, w.Inside environment id environment path →
      Action.Spares ((elsewhere action).take environment id) w environment id path) :
    Spare environment id path turns w := by
  induction turns generalizing w with
  | nil => trivial
  | cons turn rest ih =>
      have hhead : ∀ action, turn = .elsewhere action →
          Action.Spares (turn.take environment id) w environment id path := by
        rintro action rfl
        exact hspares action List.mem_cons_self w h
      refine ⟨hhead, ih (take_advances h hhead).1 fun action haction => ?_⟩
      exact hspares action (List.mem_cons_of_mem turn haction)

/-- The labels without a name are numbered one after the other. -/
theorem answers_eq (h : w.Inside environment id environment path) {turns : List Turn}
    (hspare : Spare environment id path turns w) :
    answers environment id turns w =
      (path.numbered ((w.registry environment.counters).get path.text)
        (turns.countP nameless)).map some := by
  induction turns generalizing w with
  | nil => rfl
  | cons turn rest ih =>
      obtain ⟨hinside, hadvanced⟩ := take_advances h hspare.1
      have hlater := ih hinside hspare.2
      rw [answers, List.countP_cons]
      cases hnameless : turn.nameless with
      | false =>
          rw [hnameless] at hadvanced
          rw [hadvanced] at hlater
          simpa using hlater
      | true =>
          rw [hnameless] at hadvanced
          obtain ⟨hmade, hcount⟩ := hadvanced
          rw [hcount] at hlater
          simp only [if_true, hmade, hlater]
          rw [Path.numbered_succ, List.map_cons]

end Turn

end Turns

/-! ## Along sessions -/

namespace Session

/-- Whatever is requested, in every world that the session goes through, and for the innermost
    active scope if it belongs to the environment, the two ways to ask for a label agree. Both fail
    with the same error, and the world stays as it was, or both give the same label. Then the one
    leaves what the other leaves and, unless the label existed before, the traces of a visit:
    `World.visited` sets the counter of the label to zero, counts an entry and a leaving, and
    reports them. The other way leaves that counter alone. In a row of turns that mixes the two,
    with other things between them that spare the scope, every label without a name is made, and
    their numbers are consecutive. -/
theorem overloads_agree (requests : List Request) :
    ∀ w ∈ Session.course {} requests, ∀ (environment : Environment) (id : ScopeId) (scope : Scope),
      w.current environment = .ok (some id) → w.scope? id = some scope →
      scope.environment = environment →
      (∀ naming,
        (∃ e, id.labelFor naming w = .error e w ∧ environment.labelFor naming w = .error e w) ∨
        ∃ label u v, id.labelFor naming w = .ok label u ∧
          environment.labelFor naming w = .ok label v ∧
          match naming with
          | .ready _ => v = u
          | .fresh _ => v = u.visited environment label ∧
              (u.registry environment.counters).get label.text =
                (w.registry environment.counters).get label.text) ∧
      (∀ path turns, scope.path = .ok path → Turn.Spare environment id path turns w →
        Turn.answers environment id turns w =
          (path.numbered ((w.registry environment.counters).get path.text)
            (turns.countP Turn.nameless)).map some) := by
  intro w hw environment id scope hcurrent hscope henvironment
  have hready := course_ready requests w hw
  have hinside : ∀ {path}, scope.path = .ok path → w.Inside environment id environment path :=
    fun hpath => ⟨hready, hcurrent, scope, hscope, henvironment, hpath⟩
  refine ⟨fun naming => ?agree, fun path turns hpath hspare => ?numbered⟩
  case agree =>
    cases naming with
    | ready label => exact .inr ⟨label, w, w, rfl, rfl, rfl⟩
    | fresh name? =>
        obtain ⟨other, path, hother, hpath⟩ := hready.scope_of_current hcurrent
        cases hother.symm.trans hscope
        rcases (hinside hpath).overloads name? with
          ⟨e, hbelow, hspot⟩ | ⟨label, u, hbelow, hspot, huntouched⟩
        · exact .inl ⟨e, hbelow, hspot⟩
        · exact .inr ⟨label, u, _, hbelow, hspot, rfl, huntouched⟩
  case numbered => exact Turn.answers_eq (hinside hpath) hspare

/-- Both ways, a name, and the setting back of a counter that only looks like that of the scope. -/
def mixedTurns : List Turn :=
  [.implicit (.fresh none), .explicit (.fresh none), .implicit (.fresh (some "n")),
    .elsewhere (modify (·.modifyRegistry defaultName (·.zero "a/b"))), .explicit (.fresh none)]

/-- The labels without a name in these turns. -/
theorem overloads_agree_mixed :
    Turn.answers .default (.held "s") mixedTurns (Session.steps {} oddRequests).2.world =
      [some ⟨["", "a/b", "1"]⟩, some ⟨["", "a/b", "2"]⟩, some ⟨["", "a/b", "3"]⟩] := by
  have hmem := steps_mem_course {} oddRequests
  have hcurrent : (Session.steps {} oddRequests).2.world.current .default =
      .ok (some (.held "s")) := by decide +kernel
  have hscope : (Session.steps {} oddRequests).2.world.scope? (.held "s") =
      some ⟨.default, .resolved [""] "a/b", 1⟩ := by decide +kernel
  have hspare : Turn.Spare .default (.held "s") ["", "a/b"] mixedTurns
      (Session.steps {} oddRequests).2.world := by
    refine Turn.spare_of_forall
      ⟨course_ready oddRequests _ hmem, hcurrent, _, hscope, rfl, rfl⟩ ?_
    intro action haction w hinside
    have hone : action = modify (·.modifyRegistry defaultName (·.zero "a/b")) := by
      simpa [mixedTurns] using haction
    subst hone
    refine ⟨hinside.congr rfl fun _ => rfl, ?_⟩
    have hset := w.get_modifyRegistry_set defaultName "a/b" 0 defaultName (Path.text ["", "a/b"])
    rwa [if_neg (by decide)] at hset
  refine ((overloads_agree oddRequests _ hmem .default (.held "s") _ hcurrent hscope rfl).2
    ["", "a/b"] mixedTurns rfl hspare).trans ?_
  decide +kernel

end Session

end ScopedLabels
