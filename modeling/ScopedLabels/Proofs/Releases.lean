import ScopedLabels.Proofs.Faults

/-!
# Releases — guards let go as strictly as callers do

A caller leaves a scope by `exit`, which fails unless the scope is the innermost one. A guard lets
go of its scope by `release`, which must not fail and reports it instead. The two look at the list
of active scopes in different ways: `exit` asks for the innermost value as a scope, and `release`
looks at whatever stands there. They come to the same decision all the same (`exit_release_cases`):
both leave the scope if its own entry is the innermost value, and neither changes anything
otherwise, whether nothing is active, or another scope is innermost, or a value that is no scope.

So guards may be released in any order. Each release takes at most the innermost entry, and takes it
only if it belongs to the scope of the guard (`release_takesOwn`). What a whole series of releases
takes off a list, read from its innermost end, are scopes of these guards in the order in which they
were released (`releases_take`).
-/

namespace ScopedLabels

/-- An error is written unless the log is off. -/
theorem Log.write_error (log : Log) (notice : Notice) :
    log.write .error notice = { log with
      written := if log.threshold = .off then log.written
        else (log.sink, ⟨.error, notice⟩) :: log.written } := by
  rw [write]
  cases hthreshold : log.threshold with
  | off =>
      rw [if_neg (by decide), if_pos rfl, ← hthreshold]
  | debug | info | warning | error =>
      rw [if_pos (by decide), if_neg nofun, ← hthreshold]

namespace World

/-- What is reported of a scope that is released and is not the innermost one. -/
def mismatch (w : World) (scope : Scope) : Notice :=
  match w.activeValues scope.environment with
  | [] => .releasedInactive scope.display
  | _ :: _ => .releasedOutOfOrder scope.display

/-- From one world to the other at most one value goes: the innermost one among the active scopes
    of the scope's own environment, and only if it is an entry of the scope itself. -/
def TakesOwn (id : ScopeId) (w v : World) : Prop :=
  v.contexts = w.contexts ∨
    ∃ scope rest, w.scope? id = some scope ∧
      w.activeValues scope.environment = .scope id :: rest ∧
      ∀ name key, (v.stack name).values key =
        if scope.environment.contexts = name ∧ Scope.contextKey = key then rest
        else (w.stack name).values key

end World

/-! ## One decision -/

section Decision

variable {w : World} (h : w.Sound) {id : ScopeId} {scope : Scope}
  (hscope : w.scope? id = some scope)
include h hscope

/-- An innermost scope is left by both. Otherwise leaving fails, and releasing is reported. -/
theorem ScopeId.exit_release_cases :
    (∃ rest, w.activeValues scope.environment = .scope id :: rest ∧
      id.exit w = .ok () (w.deactivate id scope) ∧
      id.release w = .ok () (w.deactivate id scope)) ∨
    ((∀ rest, w.activeValues scope.environment ≠ .scope id :: rest) ∧
      (∃ e, id.exit w = .error e w) ∧
      id.release w = .ok () (w.report .error (w.mismatch scope))) := by
  have hexit := exit_apply hscope
  have hrelease := release_apply hscope
  rw [World.mismatch]
  cases hvalues : w.activeValues scope.environment with
  | nil =>
      rw [hvalues] at hexit hrelease
      exact .inr ⟨nofun, ⟨_, hexit⟩, hrelease⟩
  | cons value rest =>
      rw [hvalues] at hexit hrelease
      by_cases htop : value = .scope id
      · subst htop
        -- an innermost scope has an entry to give up
        have hentries : scope.entries ≠ 0 := fun hzero =>
          h.not_stuck ⟨id, scope, rest, hscope, hvalues, hzero⟩
        simp only [if_pos, leave_apply, if_neg hentries] at hexit hrelease
        exact .inl ⟨rest, rfl, hexit, hrelease⟩
      · simp only [if_neg htop] at hrelease
        refine .inr ⟨?_, ?_, hrelease⟩
        · rintro _ ⟨⟩
          exact htop rfl
        · cases value with
          | scope top =>
              have hne : ¬ top = id := fun heq => htop (congrArg Value.scope heq)
              simp only [if_neg hne] at hexit
              cases hother : w.scope? top with
              | none =>
                  rw [hother] at hexit
                  exact ⟨_, hexit⟩
              | some other =>
                  rw [hother] at hexit
                  exact ⟨_, hexit⟩
          -- what is innermost is no scope
          | int n | bool b | text t | empty => exact ⟨_, hexit⟩

/-- Leaving succeeds just if the scope is innermost. -/
theorem ScopeId.exit_ok_iff :
    (∃ v, id.exit w = .ok () v) ↔ ∃ rest, w.activeValues scope.environment = .scope id :: rest := by
  rcases exit_release_cases h hscope with ⟨rest, hvalues, hexit, -⟩ | ⟨hother, ⟨e, hexit⟩, -⟩
  · exact ⟨fun _ => ⟨rest, hvalues⟩, fun _ => ⟨_, hexit⟩⟩
  · constructor
    · rintro ⟨v, hok⟩
      cases hok.symm.trans hexit
    · rintro ⟨rest, hvalues⟩
      exact absurd hvalues (hother rest)

/-- Where leaving succeeds, releasing does the same. -/
theorem ScopeId.release_of_exit_ok {v : World} (hok : id.exit w = .ok () v) :
    id.release w = .ok () v ∧ v.log = w.log.write .debug (.exited scope.display) := by
  rcases exit_release_cases h hscope with ⟨rest, -, hexit, hrelease⟩ | ⟨-, ⟨e, hexit⟩, -⟩
  · cases hok.symm.trans hexit
    exact ⟨hrelease, rfl⟩
  · cases hok.symm.trans hexit

/-- Where leaving fails, releasing only reports it. -/
theorem ScopeId.release_of_exit_error {v : World} {e : Error} (hfailed : id.exit w = .error e v) :
    id.release w = .ok () (w.report .error (w.mismatch scope)) := by
  rcases exit_release_cases h hscope with ⟨rest, -, hexit, -⟩ | ⟨-, -, hrelease⟩
  · cases hfailed.symm.trans hexit
  · exact hrelease

/-- A release does not fail. It takes at most an entry of its own, and what is alive stays alive. -/
theorem ScopeId.release_takesOwn :
    ∃ v, id.release w = .ok () v ∧ w.TakesOwn id v ∧ v.Sound ∧
      ∀ other, (v.scope? other).isSome = (w.scope? other).isSome := by
  rcases exit_release_cases h hscope with ⟨rest, hvalues, -, hrelease⟩ | ⟨-, -, hrelease⟩
  · refine ⟨_, hrelease, .inr ⟨scope, rest, hscope, hvalues, ?_⟩, h.deactivate hscope hvalues, ?_⟩
    · intro name key
      rw [World.values_deactivate]
      split
      · next hwhere =>
          obtain ⟨rfl, rfl⟩ := hwhere
          rw [World.activeValues] at hvalues
          rw [hvalues, List.tail_cons]
      · rfl
    · intro other
      rw [World.scope?_deactivate]
      split
      · exact Option.isSome_map ..
      · rfl
  · exact ⟨_, hrelease, .inl rfl, h.congr rfl rfl, fun other => rfl⟩

end Decision

/-! ## Many guards -/

/-- Releasing never fails, whoever is released, how often and in which order. What is taken off a
    list are scopes that were released, in that order. -/
theorem ScopeId.releases_take {w : World} (h : w.Sound) (guards : List ScopeId)
    (halive : ∀ id ∈ guards, (w.scope? id).isSome) :
    ∃ v, guards.forM ScopeId.release w = .ok () v ∧ v.Sound ∧
      (∀ other, (v.scope? other).isSome = (w.scope? other).isSome) ∧
      ∀ name key, ∃ taken : List ScopeId, taken.Sublist guards ∧
        (w.stack name).values key = taken.map .scope ++ (v.stack name).values key := by
  induction guards generalizing w with
  | nil => exact ⟨w, rfl, h, fun _ => rfl, fun _ _ => ⟨[], .slnil, rfl⟩⟩
  | cons id rest ih =>
      obtain ⟨scope, hscope⟩ := Option.isSome_iff_exists.mp (halive id List.mem_cons_self)
      obtain ⟨u, hrelease, htakes, hu, hkept⟩ := release_takesOwn h hscope
      have hlater : ∀ other ∈ rest, (u.scope? other).isSome := fun other hmem =>
        (hkept other).trans (halive other (List.mem_cons_of_mem _ hmem))
      obtain ⟨v, hreleases, hv, hkept', htaken⟩ := ih hu hlater
      refine ⟨v, ?_, hv, fun other => (hkept' other).trans (hkept other), fun name key => ?_⟩
      · rw [List.forM_eq_forM, List.forM_cons, bind_apply, hrelease]
        exact hreleases
      · obtain ⟨taken, hsublist, hvalues⟩ := htaken name key
        have hpassed : (u.stack name).values key = (w.stack name).values key →
            ∃ taken : List ScopeId, taken.Sublist (id :: rest) ∧
              (w.stack name).values key = taken.map .scope ++ (v.stack name).values key :=
          fun hsame => ⟨taken, hsublist.cons id, hsame.symm.trans hvalues⟩
        rcases htakes with hcontexts | ⟨scope', below, hscope', hactive, hstacks⟩
        · exact hpassed (by rw [World.stack, World.stack, hcontexts])
        · have hstack := hstacks name key
          split at hstack
          · next hwhere =>
              -- this is the list that the release takes its entry off
              obtain ⟨rfl, rfl⟩ := hwhere
              refine ⟨id :: taken, hsublist.cons_cons id, ?_⟩
              rw [World.activeValues] at hactive
              rw [hactive, ← hstack, hvalues]
              rfl
          · exact hpassed hstack

/-- Each of a series of releases takes at most an entry of its own. -/
theorem ScopeId.each_release_takesOwn {w : World} (h : w.Sound) {before after : List ScopeId}
    {id : ScopeId} (halive : ∀ other ∈ before ++ id :: after, (w.scope? other).isSome) :
    ∃ u v, before.forM ScopeId.release w = .ok () u ∧ id.release u = .ok () v ∧
      u.TakesOwn id v := by
  obtain ⟨u, hreleases, hu, hkept, -⟩ := releases_take h before fun other hmem =>
    halive other (List.mem_append_left _ hmem)
  have hthere : (u.scope? id).isSome :=
    (hkept id).trans (halive id (List.mem_append_right _ List.mem_cons_self))
  obtain ⟨scope, hscope⟩ := Option.isSome_iff_exists.mp hthere
  obtain ⟨v, hrelease, htakes, -, -⟩ := release_takesOwn hu hscope
  exact ⟨u, v, hreleases, hrelease, htakes⟩

namespace Session

/-- In every world that a session goes through, and for every scope that is alive there, whatever
    stands among the active scopes: leaving the scope succeeds exactly if its own entry is the
    innermost value. If it succeeds, releasing ends in the same world, and the record of the exit
    is the only one. If it fails, releasing succeeds all the same, one error is written to the log
    unless the log is off, and nothing else changes. So guards can be released in any order, also
    when scopes are released again: each release takes off at most the innermost value, and only
    an entry of the scope that is released. What all of them take off a list are scopes that were
    released, in that order. -/
theorem release_agrees_with_exit (requests : List Request) :
    ∀ w ∈ Session.course {} requests,
      (∀ id scope, w.scope? id = some scope →
        ((∃ v, id.exit w = .ok () v) ↔
          ∃ rest, w.activeValues scope.environment = .scope id :: rest) ∧
        (∀ v, id.exit w = .ok () v →
          id.release w = .ok () v ∧ v.log = w.log.write .debug (.exited scope.display)) ∧
        (∀ e v, id.exit w = .error e v →
          id.release w = .ok () { w with log := { w.log with
            written := if w.log.threshold = .off then w.log.written
              else (w.log.sink, ⟨.error, w.mismatch scope⟩) :: w.log.written } })) ∧
      ∀ guards : List ScopeId, (∀ id ∈ guards, (w.scope? id).isSome) →
        (∀ before id after, guards = before ++ id :: after →
          ∃ u v, before.forM ScopeId.release w = .ok () u ∧ id.release u = .ok () v ∧
            u.TakesOwn id v) ∧
        ∃ v, guards.forM ScopeId.release w = .ok () v ∧
          ∀ name key, ∃ taken : List ScopeId, taken.Sublist guards ∧
            (w.stack name).values key = taken.map .scope ++ (v.stack name).values key := by
  intro w hw
  have h : w.Sound := (course_ready requests w hw).toSound
  refine ⟨fun id scope hscope => ⟨ScopeId.exit_ok_iff h hscope, fun v hok => ?_, ?_⟩, ?_⟩
  · exact ScopeId.release_of_exit_ok h hscope hok
  · intro e v hfailed
    rw [ScopeId.release_of_exit_error h hscope hfailed, World.report, Log.write_error]
  · intro guards halive
    constructor
    · rintro before id after rfl
      exact ScopeId.each_release_takesOwn h halive
    · obtain ⟨v, hreleases, -, -, htaken⟩ := ScopeId.releases_take h guards halive
      exact ⟨v, hreleases, htaken⟩

/-- Two scopes are active, `a` twice with `b` in between. -/
def nestedTwice : List Request :=
  [.newScope "a" (.basename defaultName "a"), .newScope "b" (.basename defaultName "b"),
    .enterScope "a", .enterScope "b", .enterScope "a"]

/-- There `a` is released as it is left, `b` is reported instead, and three releases take at most
    an entry each. -/
theorem release_agrees_with_exit_nested :
    let w := (Session.steps {} nestedTwice).2.world
    let a := ScopeId.held "a"
    let b := ScopeId.held "b"
    (∃ v, a.exit w = .ok () v ∧ a.release w = .ok () v) ∧
      b.release w = .ok () { w with log := { w.log with written :=
        (.capture, ⟨.error, .releasedOutOfOrder "label_scope('a/b')"⟩) :: w.log.written } } ∧
      ∃ u v, [b, a].forM ScopeId.release w = .ok () u ∧ b.release u = .ok () v ∧
        u.TakesOwn b v := by
  intro w a b
  obtain ⟨hscopes, hguards⟩ :=
    release_agrees_with_exit nestedTwice w (steps_mem_course {} nestedTwice)
  have hactive : w.activeValues .default = [.scope a, .scope b, .scope a] := by decide +kernel
  have ha : w.scope? a = some ⟨.default, .resolved [] "a", 2⟩ := by decide +kernel
  have hb : w.scope? b = some ⟨.default, .resolved ["a"] "b", 1⟩ := by decide +kernel
  obtain ⟨hinnermost, hagrees, -⟩ := hscopes a _ ha
  obtain ⟨hburied, -, hreported⟩ := hscopes b _ hb
  obtain ⟨v, hexit⟩ := hinnermost.mpr ⟨_, hactive⟩
  refine ⟨⟨v, hexit, (hagrees v hexit).1⟩, ?_, ?_⟩
  · cases hfailed : b.exit w with
    | ok u v =>
        obtain ⟨rest, hvalues⟩ := hburied.mp ⟨v, hfailed⟩
        have htop : Value.scope a = .scope b := (List.cons.inj (hactive.symm.trans hvalues)).1
        exact absurd htop (by decide)
    | error e v =>
        have hmismatch : w.mismatch ⟨.default, .resolved ["a"] "b", 1⟩ =
            .releasedOutOfOrder "label_scope('a/b')" := by decide +kernel
        have hthreshold : w.log.threshold = .warning := by decide +kernel
        have hsink : w.log.sink = .capture := by decide +kernel
        have hrelease := hreported e v hfailed
        rw [hmismatch, hsink, if_neg (by rw [hthreshold]; nofun)] at hrelease
        exact hrelease
  · have halive : ∀ id ∈ [b, a, b], (w.scope? id).isSome := by decide +kernel
    exact (hguards [b, a, b] halive).1 [b, a] b [] rfl

end Session

end ScopedLabels
