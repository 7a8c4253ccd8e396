import ScopedLabels.Text
import Std.Data.ExtTreeMap

/-!
# Counters — named numbers that only count up

A registry of 64-bit counters under names. A counter that was never touched stands at zero but is
not *held*: drawing from it or zeroing it takes its name into the registry, where it stays until
the registry is cleared. A draw returns the value after the increment, and wraps around at 2^64.
-/

namespace ScopedLabels

/-- A registry of counters. -/
structure Counters where
  values : Std.ExtTreeMap Text UInt64 := ∅

namespace Counters

/-- The value of a counter. -/
def get (counters : Counters) (name : Text) : UInt64 :=
  counters.values.getD name 0

/-- Give a counter a value. -/
def set (counters : Counters) (name : Text) (value : UInt64) : Counters :=
  ⟨counters.values.insert name value⟩

/-- Count up, and return the new value. -/
def draw (counters : Counters) (name : Text) : UInt64 × Counters :=
  let value := counters.get name + 1
  (value, counters.set name value)

/-- Set a counter back to zero. -/
def zero (counters : Counters) (name : Text) : Counters :=
  counters.set name 0

/-- How many names the registry holds. -/
def size (counters : Counters) : Nat :=
  counters.values.size

theorem get_set (counters : Counters) (name other : Text) (value : UInt64) :
    (counters.set name value).get other = if name = other then value else counters.get other := by
  simp [get, set, Std.ExtTreeMap.getD_insert]

theorem get_zero (counters : Counters) (name other : Text) :
    (counters.zero name).get other = if name = other then 0 else counters.get other :=
  get_set counters name other 0

/-- A draw counts its own name up by one, and returns the value it left there. -/
theorem get_draw (counters : Counters) (name other : Text) :
    (counters.draw name).2.get other =
      if name = other then (counters.draw name).1 else counters.get other :=
  get_set counters name other (counters.get name + 1)

end Counters

end ScopedLabels
