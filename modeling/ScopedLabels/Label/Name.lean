import ScopedLabels.Options
import ScopedLabels.Text

/-!
# Names — which texts may be one segment of a label

A segment is a path component, so it is non-empty and free of the separator; strict naming also
refuses the underscore. `nameFault?` reports the *first* of these rules that is broken, in this
order, as a `NameFault`.
-/

namespace ScopedLabels

/-- Why a text is not a name. -/
inductive NameFault
  | empty
  | slash (name : Text)
  | underscore (name : Text)
deriving DecidableEq

/-- What is said about a refused name. -/
def NameFault.message : NameFault → Text
  | .empty => "label cannot be empty"
  | .slash name => "label '" ++ name ++
      "' cannot contain slash (`/`). Please use label scopes to build hierarchical labels."
  | .underscore name => "label '" ++ name ++ "' cannot contain underscore (`_`)"

/-- The first rule that `name` breaks, if any. -/
def nameFault? (options : Options) (name : Text) : Option NameFault :=
  if name = [] then some .empty
  else if Text.slash ∈ name then some (.slash name)
  else if options.forbidUnderscore ∧ Text.underscore ∈ name then some (.underscore name)
  else none

end ScopedLabels
