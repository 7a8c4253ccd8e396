import ScopedLabels.Environment
import ScopedLabels.Error
import ScopedLabels.Label.Basic

/-!
# Scopes — the nodes of the label hierarchy

A scope either stands nowhere yet, and then at most knows its own last segment, or it is resolved:
it has the segments of its parents and its own. Resolution happens once, on the first entry, and
the `Place` type leaves no other state: a path is never empty, and its last segment is the name of
the scope.

`entries` counts the entries of the active-scope list that the scope knows of. It is what
`activated` goes by.
-/

namespace ScopedLabels

/-- Where a scope stands in the hierarchy. -/
inductive Place
  /-- Not entered yet; the last segment may be known. -/
  | unresolved (basename : Option Text)
  /-- Below `parents`, under its own last segment. -/
  | resolved (parents : Path) (basename : Text)
deriving DecidableEq

namespace Place

/-- The last segment, if it is known. -/
def basename? : Place → Option Text
  | .unresolved basename => basename
  | .resolved _ basename => some basename

/-- The path, once resolved. -/
def path? : Place → Option Path
  | .unresolved _ => none
  | .resolved parents basename => some (parents ++ [basename])

/-- The place that a path describes; there is none without segments. -/
def ofPath? (path : Path) : Option Place :=
  path.getLast?.map (.resolved path.dropLast)

end Place

/-- A node of the label hierarchy. -/
structure Scope where
  environment : Environment
  place : Place
  /-- How many entries of the active-scope list refer to this scope, as far as it knows. It is kept
  as an unbounded number: that a counter of 64 bits wraps at the entry number 2^64 of one scope is
  left out. -/
  entries : Nat := 0
deriving DecidableEq

namespace Scope

/-- The context key that active scopes are listed under. -/
def contextKey : Text := "label_namespace"

/-- The path of the scope that numbers nameless labels outside every scope. -/
def globalPath : Path := ["global"]

/-- The path of a scope, once resolved. -/
def path? (scope : Scope) : Option Path :=
  scope.place.path?

/-- The path of a scope, which must be resolved. -/
def path (scope : Scope) : Except Error Path :=
  match scope.place with
  | .unresolved basename => .error (.unresolvedScope basename)
  | .resolved parents basename => .ok (parents ++ [basename])

/-- The path as one text. -/
def fullName (scope : Scope) : Except Error Text := do
  return (← scope.path).text

/-- Was the scope ever entered, or built with a path? -/
def resolved (scope : Scope) : Bool :=
  scope.path?.isSome

/-- Does the scope know of an entry of its own on the active-scope list? -/
def activated (scope : Scope) : Bool :=
  scope.entries != 0

/-- How a scope is displayed. -/
def display (scope : Scope) : Text :=
  match scope.place with
  | .unresolved basename => "label_scope(<unresolved " ++ basename.getD "unnamed" ++ ">)"
  | .resolved parents basename => "label_scope('" ++ Path.text (parents ++ [basename]) ++ "')"

/-- Two scopes are the same node when both are resolved and their paths are equal. -/
def sameNode (a b : Scope) : Bool :=
  match a.path?, b.path? with
  | some p, some q => p == q
  | _, _ => false

/-! ## Construction -/

/-- A scope that will stand under `name` below whatever scope is active when it is first entered. -/
def named (options : Options) (environment : Environment) (name : Text) : Except Error Scope := do
  requireName options name
  return { environment, place := .unresolved (some name) }

/-- A scope that will be numbered when it is first entered. -/
def unnamed (environment : Environment) : Scope :=
  { environment, place := .unresolved none }

/-- A scope that stands at a path already. -/
def ofPath (environment : Environment) (path : Path) : Except Error Scope :=
  match Place.ofPath? path with
  | some place => .ok { environment, place }
  | none => .error .emptyPath

/-- The scope that numbers nameless labels outside every scope. -/
def global (environment : Environment) : Scope :=
  { environment, place := .resolved [] "global" }

/-- An inactive scope at the place of another one, which must be resolved. -/
def alike (other : Scope) : Except Error Scope := do
  ofPath other.environment (← other.path)

end Scope

end ScopedLabels
