import ScopedLabels.Scope.Id

/-!
# Context values — what a context stack may hold

Five kinds of values. Four of them have a `ValueType`, by which a caller says what it expects; the
empty value has none, so no typed access ever accepts it.
-/

namespace ScopedLabels

/-- A value on a context stack. -/
inductive Value
  | int (n : Int64)
  | bool (b : Bool)
  | text (t : Text)
  | empty
  | scope (id : ScopeId)
deriving DecidableEq

/-- What a typed access may expect. -/
inductive ValueType
  | int
  | bool
  | text
  | scope
deriving DecidableEq

/-- The data that a value of a type carries. -/
abbrev ValueType.Carrier : ValueType → Type
  | .int => Int64
  | .bool => Bool
  | .text => Text
  | .scope => ScopeId

namespace Value

/-- The value of a type with given data. -/
def of : (type : ValueType) → type.Carrier → Value
  | .int, n => .int n
  | .bool, b => .bool b
  | .text, t => .text t
  | .scope, id => .scope id

/-- The data of a value, if it has the type. -/
def as? : (type : ValueType) → Value → Option type.Carrier
  | .int, .int n => some n
  | .bool, .bool b => some b
  | .text, .text t => some t
  | .scope, .scope id => some id
  | _, _ => none

end Value

end ScopedLabels
