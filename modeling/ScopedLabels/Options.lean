/-!
# Options — what a labeling environment may be told

Two switches, both set from outside. Neither changes how a label is numbered: the first narrows
the names that are accepted, the second silences one warning.
-/

namespace ScopedLabels

/-- How names are checked and whether falling back to global numbering is reported. -/
structure Options where
  /-- Names may not hold an underscore. -/
  forbidUnderscore : Bool := false
  /-- A nameless label outside every scope logs a warning. -/
  warnOnGlobalFallback : Bool := true
deriving DecidableEq

end ScopedLabels
