import ScopedLabels.Label.Name
import ScopedLabels.Script.Command

/-!
# Errors — why an operation failed

One constructor for each cause, carrying what its message needs. `Error.kind` groups the causes
as callers tell them apart, `Error.message` words them, and `Error.shown` is the wording as it is
displayed, up to its first zero byte.

The last group, `Misuse`, is about handles: an operation on an object that does not exist, the
creation of one that does, or one more leaving of a scope than it was entered. It lies outside the
behaviour of labels, scopes and scripts, and no operation on existing objects ends there.
-/

namespace ScopedLabels

/-- A request that no object can answer. -/
inductive Misuse
  /-- There is no object under this handle. -/
  | unknownHandle
  /-- There is an object under this handle already. -/
  | handleInUse
  /-- Another object still refers to the one to be dropped. -/
  | stillReferred
  /-- A scope was to be left that knows of no entry of its own. -/
  | notEntered
deriving DecidableEq

/-- Why an operation failed. -/
inductive Error
  /-- A context key holds no value. -/
  | noContext (key : Text)
  /-- The innermost value of a context key has another type. -/
  | contextType (key : Text)
  /-- A scope was exited while another one was the innermost. Both are given as displayed. -/
  | scopeOrder (exited innermost : Text)
  /-- The path of a scope was asked for before the scope was first entered. -/
  | unresolvedScope (basename : Option Text)
  /-- A text was given as a name and is none. -/
  | invalidName (fault : NameFault)
  /-- A scope was asked for with a path of no segments. -/
  | emptyPath
  /-- A script is malformed or unbalanced. -/
  | script (fault : Script.Fault)
  /-- A handle was misused. -/
  | misuse (cause : Misuse)
deriving DecidableEq

/-- The kinds of errors that callers tell apart. -/
inductive ErrorKind
  | noContext
  | contextType
  | scopeOrder
  | unresolvedScope
  | validation
  | script
  | misuse
deriving DecidableEq

namespace Error

/-- The kind of an error. -/
def kind : Error → ErrorKind
  | .noContext _ => .noContext
  | .contextType _ => .contextType
  | .scopeOrder _ _ => .scopeOrder
  | .unresolvedScope _ => .unresolvedScope
  | .invalidName _ | .emptyPath => .validation
  | .script _ => .script
  | .misuse _ => .misuse

/-- What is said about an error. -/
def message : Error → Text
  | .noContext key => "Context with key " ++ key ++ " is empty."
  | .contextType key => "Context with key " ++ key ++ " holds a value of another type."
  | .scopeOrder exited innermost => exited ++ " exited while " ++ innermost ++
      " is the innermost scope"
  | .unresolvedScope basename => "label_scope \"" ++ basename.getD "<unnamed>" ++
      "\" is not entered yet."
  | .invalidName fault => fault.message
  | .emptyPath => "label scope path cannot be empty"
  | .script fault => fault.message
  | .misuse .unknownHandle => "no object under this handle"
  | .misuse .handleInUse => "the handle is in use"
  | .misuse .stillReferred => "the object is still referred to"
  | .misuse .notEntered => "the scope has no entry left to give up"

/-- The message as it is displayed. -/
def shown (error : Error) : Text :=
  error.message.untilZero

/-- The line of the script where the error was met, if it is the script that is wrong. -/
def line? : Error → Option Nat
  | .script fault => some fault.line
  | _ => none

end Error

/-- Accept a name, or fail with the first rule that it breaks. -/
def requireName (options : Options) (name : Text) : Except Error Unit :=
  match nameFault? options name with
  | some fault => .error (.invalidName fault)
  | none => .ok ()

end ScopedLabels
