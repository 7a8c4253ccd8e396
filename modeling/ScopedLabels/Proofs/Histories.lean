import Mathlib.Data.Finset.Card
import ScopedLabels.Proofs.Lifetime

/-!
# Histories — the counters are what was done to them

All that ever happens to a counter is that a number is drawn from it, that it is set back to zero,
or that its whole registry is cleared. A `History` lists such events, oldest first, each draw with
the number that it showed. `Tells` says that the counters of a world are accounted for by a history:
each stands at the number of draws since it was last set back, modulo 2^64, each draw showed the
number of draws up to and including itself, and a registry holds the names that were drawn from or
set back since it was cleared.

`World.Traces` replays events from one world to another. A history that tells a world tells every
world that is traced from it (`Tells.traces`), so it remains to be shown of each operation which
events trace it.
-/

namespace ScopedLabels

/-! ## Events -/

/-- Something that happened to the counters. -/
inductive CounterEvent
  /-- A number was drawn, and was shown as a text. -/
  | draw (registry name shown : Text)
  | zero (registry name : Text)
  | clear (registry : Text)
deriving DecidableEq

namespace CounterEvent

/-- Is it a draw from this counter? -/
def draws (registry name : Text) : CounterEvent → Bool
  | .draw r n _ => r == registry && n == name
  | .zero .. | .clear _ => false

/-- Does it set this counter back? -/
def zeroes (registry name : Text) : CounterEvent → Bool
  | .draw .. => false
  | .zero r n => r == registry && n == name
  | .clear r => r == registry

/-- Does it empty this registry? -/
def clears (registry : Text) : CounterEvent → Bool
  | .draw .. | .zero .. => false
  | .clear r => r == registry

/-- The name that it takes into this registry. -/
def name? (registry : Text) : CounterEvent → Option Text
  | .draw r n _ | .zero r n => if r = registry then some n else none
  | .clear _ => none

/-- What it does to the world. -/
def apply (w : World) : CounterEvent → World
  | .draw registry name _ => w.drawn registry name
  | .zero registry name => w.modifyRegistry registry (·.zero name)
  | .clear registry => w.modifyRegistry registry fun _ => {}

/-- If it is a draw, it shows what is drawn from the world. -/
def Shows (w : World) : CounterEvent → Prop
  | .draw registry name shown => shown = Text.ofCount ((w.registry registry).draw name).1
  | .zero .. | .clear _ => True

end CounterEvent

/-- What happened to the counters, oldest first. -/
abbrev History := List CounterEvent

namespace History

/-- The events since the last one of a kind, newest first. -/
def since (stops : CounterEvent → Bool) (history : History) : List CounterEvent :=
  history.reverse.takeWhile fun event => !stops event

/-- How many numbers were drawn from a counter since it was last set back. -/
def drawn (history : History) (registry name : Text) : Nat :=
  (history.since (CounterEvent.zeroes registry name)).countP (CounterEvent.draws registry name)

/-- The names that were drawn from or set back in a registry since it was last cleared. -/
def names (history : History) (registry : Text) : List Text :=
  (history.since (CounterEvent.clears registry)).filterMap (CounterEvent.name? registry)

variable (history : History) (event : CounterEvent) (registry name : Text)

/-- One more event is the last since then, or stops what came before from counting. -/
theorem since_concat (stops : CounterEvent → Bool) :
    since stops (history ++ [event]) =
      if stops event = true then [] else event :: history.since stops := by
  rw [since, List.reverse_append]
  show List.takeWhile _ (event :: history.reverse) = _
  rw [List.takeWhile_cons]
  cases stops event <;> rfl

/-- One more event counts if it is a draw, and starts the count anew if it sets the counter back. -/
theorem drawn_concat :
    drawn (history ++ [event]) registry name =
      if event.zeroes registry name = true then 0
      else history.drawn registry name + if event.draws registry name = true then 1 else 0 := by
  rw [drawn, since_concat]
  split
  · rfl
  · rw [List.countP_cons, drawn]

/-- One more event brings its name into the registry, unless it clears the registry. -/
theorem mem_names_concat {other : Text} :
    other ∈ names (history ++ [event]) registry ↔
      event.clears registry = false ∧
        (event.name? registry = some other ∨ other ∈ history.names registry) := by
  rw [names, since_concat]
  cases hclears : event.clears registry with
  | true => simp
  | false => simp [names, eq_comm]

end History

/-! ## Counters of a world -/

theorem World.registry_congr {w v : World} (h : v.registries = w.registries) (name : Text) :
    v.registry name = w.registry name := by
  rw [registry, h, registry]

/-- Giving a counter a value takes its name into the registry. -/
theorem Counters.mem_values_set (counters : Counters) (name other : Text) (value : UInt64) :
    other ∈ (counters.set name value).values ↔ name = other ∨ other ∈ counters.values := by
  rw [set, Std.ExtTreeMap.mem_insert, Std.compare_eq_iff_eq]

/-- How many names a registry holds is how many different ones it was given. -/
theorem Counters.size_eq {counters : Counters} {names : List Text}
    (h : ∀ name, name ∈ counters.values ↔ name ∈ names) : counters.size = names.toFinset.card := by
  have hnodup : counters.values.keys.Nodup := by
    refine counters.values.distinct_keys.imp ?_
    rintro a b hne rfl
    exact hne Std.ReflCmp.compare_self
  have hsame : counters.values.keys.toFinset = names.toFinset := by
    ext name
    rw [List.mem_toFinset, List.mem_toFinset, Std.ExtTreeMap.mem_keys, h]
  rw [size, ← Std.ExtTreeMap.length_keys, ← List.toFinset_card_of_nodup hnodup, hsame]

namespace CounterEvent

variable (w : World) (event : CounterEvent) (registry name : Text)

/-- What an event does to a counter. -/
theorem get_apply :
    ((event.apply w).registry registry).get name =
      if event.zeroes registry name = true then 0
      else (w.registry registry).get name + if event.draws registry name = true then 1 else 0 := by
  -- an event is about one registry, and clearing is about all its names
  cases event with
  | draw r n shown =>
      show ((w.modifyRegistry r _).registry registry).get name = _
      rw [World.registry_modifyRegistry]
      by_cases hr : r = registry
      · subst hr
        rw [if_pos rfl, Counters.get_draw]
        by_cases hn : n = name
        · subst hn
          simp [zeroes, draws, Counters.draw]
        · simp [zeroes, draws, hn]
      · simp [zeroes, draws, hr]
  | zero r n =>
      rw [apply, World.registry_modifyRegistry]
      by_cases hr : r = registry
      · subst hr
        rw [if_pos rfl, Counters.get_zero]
        by_cases hn : n = name <;> simp [zeroes, draws, hn]
      · simp [zeroes, draws, hr]
  | clear r =>
      rw [apply, World.registry_modifyRegistry]
      by_cases hr : r = registry
      · rw [if_pos hr]
        simp [zeroes, hr, Counters.get]
      · simp [zeroes, draws, hr]

/-- What an event does to the names that a registry holds. -/
theorem mem_apply :
    name ∈ ((event.apply w).registry registry).values ↔
      event.clears registry = false ∧
        (event.name? registry = some name ∨ name ∈ (w.registry registry).values) := by
  cases event with
  | draw r n shown =>
      rw [apply, World.drawn, World.registry_modifyRegistry]
      by_cases hr : r = registry
      · subst hr
        rw [if_pos rfl, Counters.draw, Counters.mem_values_set]
        simp [clears, name?]
      · simp [clears, name?, hr]
  | zero r n =>
      rw [apply, World.registry_modifyRegistry]
      by_cases hr : r = registry
      · subst hr
        rw [if_pos rfl, Counters.zero, Counters.mem_values_set]
        simp [clears, name?]
      · simp [clears, name?, hr]
  | clear r =>
      rw [apply, World.registry_modifyRegistry]
      by_cases hr : r = registry
      · simp [clears, hr]
      · simp [clears, name?, hr]

/-- An event sees nothing of a world but its counters. -/
theorem apply_congr {w v : World} (h : v.registries = w.registries) (event : CounterEvent) :
    (event.apply v).registries = (event.apply w).registries := by
  cases event <;> simp only [apply, World.drawn, World.modifyRegistry, World.registry, h]

/-- What a draw shows goes by the registries alone. -/
theorem Shows.congr {w v : World} {event : CounterEvent} (h : event.Shows w)
    (hregistries : v.registries = w.registries) : event.Shows v := by
  cases event with
  | draw registry name shown =>
      show shown = _
      rw [World.registry_congr hregistries]
      exact h
  | zero registry name => trivial
  | clear registry => trivial

end CounterEvent

/-! ## Replaying events -/

/-- Some events, one after the other, are what happened to the counters from one world to
    another. -/
def World.Traces : World → History → World → Prop
  | w, [], v => v.registries = w.registries
  | w, event :: rest, v => event.Shows w ∧ (event.apply w).Traces rest v

namespace World.Traces

variable {w v u : World} {events more : History}

/-- Histories trace registries and nothing else of a world. -/
theorem congr (h : w.Traces events v) (hregistries : u.registries = w.registries) :
    u.Traces events v := by
  induction events generalizing w u with
  | nil => exact Eq.trans h hregistries.symm
  | cons event rest ih =>
      exact ⟨h.1.congr hregistries, ih h.2 (event.apply_congr hregistries)⟩

theorem trans (h : w.Traces events v) (h' : v.Traces more u) : w.Traces (events ++ more) u := by
  induction events generalizing w with
  | nil => exact h'.congr h.symm
  | cons event rest ih => exact ⟨h.1, ih h.2⟩

/-- What comes later and leaves the counters alone does not matter. -/
theorem leave (h : w.Traces events v) (hregistries : u.registries = v.registries) :
    w.Traces events u := by
  have hsilent : v.Traces [] u := hregistries
  have := h.trans hsilent
  rwa [List.append_nil] at this

theorem single {event : CounterEvent} (hshows : event.Shows w)
    (happly : v.registries = (event.apply w).registries) : w.Traces [event] v :=
  ⟨hshows, happly⟩

end World.Traces

/-! ## Histories that account for the counters -/

/-- The counters of a world, and all numbers that were ever drawn, are accounted for. -/
structure History.Tells (history : History) (w : World) : Prop where
  value : ∀ registry name,
    (w.registry registry).get name = UInt64.ofNat (history.drawn registry name)
  held : ∀ registry name,
    name ∈ (w.registry registry).values ↔ name ∈ history.names registry
  numbered : ∀ before registry name shown rest,
    history = before ++ CounterEvent.draw registry name shown :: rest →
      shown = Text.ofCount (UInt64.ofNat (before.drawn registry name + 1))

namespace History.Tells

variable {history : History} {w v : World}

/-- Nothing has happened to counters that were never touched. -/
theorem start (hregistries : w.registries = ∅) : History.Tells [] w where
  value registry name := by
    rw [World.registry, hregistries, Std.ExtTreeMap.getD_empty]
    exact Std.ExtTreeMap.getD_empty
  held registry name := by
    rw [World.registry, hregistries, Std.ExtTreeMap.getD_empty]
    refine ⟨fun hmem => ?_, fun hmem => ?_⟩
    · exact absurd hmem Std.ExtTreeMap.not_mem_empty
    · exact absurd hmem List.not_mem_nil
  numbered before registry name shown rest h := by
    cases before <;> cases h

theorem congr (h : history.Tells w) (hregistries : v.registries = w.registries) :
    history.Tells v where
  value registry name := by
    rw [World.registry_congr hregistries]
    exact h.value registry name
  held registry name := by
    rw [World.registry_congr hregistries]
    exact h.held registry name
  numbered := h.numbered

/-- One more event is accounted for. -/
theorem concat (h : history.Tells w) {event : CounterEvent} (hshows : event.Shows w) :
    History.Tells (history ++ [event]) (event.apply w) where
  value registry name := by
    rw [CounterEvent.get_apply, drawn_concat, h.value]
    split
    · rfl
    · split
      · rw [UInt64.ofNat_add]
        rfl
      · rw [UInt64.add_zero, Nat.add_zero]
  held registry name := by
    rw [CounterEvent.mem_apply, mem_names_concat, h.held]
  numbered before registry name shown rest hsplit := by
    cases rest using List.reverseRecOn with
    | nil =>
        -- the draw is the last event
        obtain ⟨hbefore, hevent⟩ := List.append_inj' hsplit rfl
        subst hbefore
        cases hevent
        have hshown : shown = Text.ofCount ((w.registry registry).get name + 1) := hshows
        rw [hshown, h.value, UInt64.ofNat_add]
        rfl
    | append_singleton rest last _ =>
        have hinit : history = before ++ CounterEvent.draw registry name shown :: rest := by
          rw [← List.cons_append, ← List.append_assoc] at hsplit
          exact (List.append_inj' hsplit rfl).1
        exact h.numbered before registry name shown rest hinit

/-- What traces a world from another accounts for it if the other was accounted for. -/
theorem traces (h : history.Tells w) {events : History} (htraces : w.Traces events v) :
    History.Tells (history ++ events) v := by
  induction events generalizing history w with
  | nil =>
      rw [List.append_nil]
      exact h.congr htraces
  | cons event rest ih =>
      have hnext := ih (h.concat htraces.1) htraces.2
      rwa [List.append_assoc] at hnext

end History.Tells

end ScopedLabels
