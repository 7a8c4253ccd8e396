import ScopedLabels.Text

/-!
# Metrics — how much labeling went on

Four 64-bit counters that wrap around, and a switch. While the switch is off, nothing is
counted. A report prints all four, as text or as JSON, and prints nothing while the switch is off.
-/

namespace ScopedLabels

/-- What is counted. -/
inductive Metric
  | scopesEntered
  | scopesExited
  | labelsGenerated
  | globalFallbacks
deriving DecidableEq

namespace Metric

/-- How a counter is named in reports. -/
def name : Metric → Text
  | .scopesEntered => "scopes_entered"
  | .scopesExited => "scopes_exited"
  | .labelsGenerated => "labels_generated"
  | .globalFallbacks => "global_fallbacks"

/-- All counters, in the order of reports. -/
def all : List Metric :=
  [.scopesEntered, .scopesExited, .labelsGenerated, .globalFallbacks]

/-- The counter at a place of that order. -/
def ofIndex? (index : Int) : Option Metric :=
  match index with
  | .ofNat n => all[n]?
  | .negSucc _ => none

/-- The name of the counter at a place; every other number is unknown. -/
def nameOfIndex (index : Int) : Text :=
  match ofIndex? index with
  | some metric => metric.name
  | none => "unknown"

end Metric

/-- The values of the four counters. -/
structure Tally where
  scopesEntered : UInt64 := 0
  scopesExited : UInt64 := 0
  labelsGenerated : UInt64 := 0
  globalFallbacks : UInt64 := 0
deriving DecidableEq

namespace Tally

/-- The value of a counter. -/
def get (tally : Tally) : Metric → UInt64
  | .scopesEntered => tally.scopesEntered
  | .scopesExited => tally.scopesExited
  | .labelsGenerated => tally.labelsGenerated
  | .globalFallbacks => tally.globalFallbacks

/-- Give a counter a value. -/
def set (tally : Tally) (metric : Metric) (value : UInt64) : Tally :=
  match metric with
  | .scopesEntered => { tally with scopesEntered := value }
  | .scopesExited => { tally with scopesExited := value }
  | .labelsGenerated => { tally with labelsGenerated := value }
  | .globalFallbacks => { tally with globalFallbacks := value }

theorem get_set (tally : Tally) (m n : Metric) (value : UInt64) :
    (tally.set m value).get n = if n = m then value else tally.get n := by
  cases m <;> cases n <;> rfl

@[ext] theorem ext_get {s t : Tally} (h : ∀ m, s.get m = t.get m) : s = t := by
  cases s
  cases t
  have h₁ := h .scopesEntered
  have h₂ := h .scopesExited
  have h₃ := h .labelsGenerated
  have h₄ := h .globalFallbacks
  simp only [get] at h₁ h₂ h₃ h₄
  subst h₁ h₂ h₃ h₄
  rfl

end Tally

/-- The counters and their switch. -/
structure Metrics where
  enabled : Bool := false
  tally : Tally := {}
deriving DecidableEq

namespace Metrics

/-- Count one event, if counting is switched on. -/
def count (metrics : Metrics) (metric : Metric) : Metrics :=
  if metrics.enabled then
    { metrics with tally := metrics.tally.set metric (metrics.tally.get metric + 1) }
  else metrics

/-- While counting is switched on, an event adds one to its own counter. -/
theorem get_count (metrics : Metrics) (m n : Metric) (h : metrics.enabled = true) :
    (metrics.count m).tally.get n =
      if n = m then metrics.tally.get m + 1 else metrics.tally.get n := by
  rw [count, if_pos h, Tally.get_set]

/-- While counting is switched off, an event is dropped. -/
theorem count_disabled (metrics : Metrics) (m : Metric) (h : metrics.enabled = false) :
    metrics.count m = metrics := by
  simp [count, h]

/-- Counting leaves the switch as it is. -/
@[simp] theorem enabled_count (metrics : Metrics) (m : Metric) :
    (metrics.count m).enabled = metrics.enabled := by
  rw [count]
  split <;> rfl

/-- It does not matter in which order events are counted. -/
theorem count_comm (metrics : Metrics) (m n : Metric) :
    (metrics.count m).count n = (metrics.count n).count m := by
  obtain ⟨enabled, tally⟩ := metrics
  cases enabled with
  | false => rfl
  | true => cases m <;> cases n <;> rfl

/-! ## Reports -/

/-- One line of the text report. -/
def textLine (tally : Tally) (metric : Metric) : Text :=
  "  " ++ metric.name ++ ": " ++ Text.ofCount (tally.get metric)

/-- The report as text: a heading, then one line for each counter. -/
def textReport (metrics : Metrics) : Text :=
  if metrics.enabled then
    Text.unlines ("== Metrics ==" :: Metric.all.map (textLine metrics.tally))
  else []

/-- One member of the JSON report. -/
def jsonMember (tally : Tally) (metric : Metric) : Text :=
  "\n    \"" ++ metric.name ++ "\": " ++ Text.ofCount (tally.get metric)

/-- The report as JSON: one object that holds the counters by name. -/
def jsonReport (metrics : Metrics) : Text :=
  if metrics.enabled then
    "\x7b\n  \"counters\": \x7b" ++
      Text.join Text.comma (Metric.all.map (jsonMember metrics.tally)) ++
      "\n  \x7d\n\x7d\n"
  else []

end Metrics

end ScopedLabels
