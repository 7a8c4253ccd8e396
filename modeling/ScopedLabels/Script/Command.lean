import ScopedLabels.Text

/-!
# Script commands — what a line of a label script asks for

A script is a list of `Command`s, each a `Verb` with the number of the line it stands on. The verbs
that take an argument take at most one, and the verbs that take none cannot carry one.

`Keyword` is the vocabulary: the first word of a command line, and whether an argument may follow.
`Verb.keyword` and `Verb.argument` read a verb back into the words it was written with.
-/

namespace ScopedLabels.Script

/-- The first words of command lines. -/
inductive Keyword
  | scope
  | leave
  | label
  | uid
  | reset
  | current
deriving DecidableEq

namespace Keyword

/-- How a keyword is written. -/
def name : Keyword → Text
  | .scope => "scope"
  | .leave => "end"
  | .label => "label"
  | .uid => "uid"
  | .reset => "reset"
  | .current => "current"

/-- How many arguments may follow a keyword. -/
def capacity : Keyword → Nat
  | .leave | .current => 0
  | .scope | .label | .uid | .reset => 1

/-- All keywords. -/
def all : List Keyword :=
  [.scope, .leave, .label, .uid, .reset, .current]

/-- The keyword that is written as `word`. -/
def ofName? (word : Text) : Option Keyword :=
  all.find? fun keyword => keyword.name == word

end Keyword

/-- What a command does. -/
inductive Verb
  /-- Enter a new scope, named or nameless. -/
  | scope (name : Option Text)
  /-- Leave the innermost scope that the script opened. -/
  | leave
  /-- Print an automatic label. -/
  | label (name : Option Text)
  /-- Print the next value of a counter. -/
  | uid (counter : Option Text)
  /-- Set a counter back to zero. -/
  | reset (counter : Option Text)
  /-- Print the name of the active scope. -/
  | current
deriving DecidableEq

namespace Verb

/-- The keyword of a verb. -/
def keyword : Verb → Keyword
  | .scope _ => .scope
  | .leave => .leave
  | .label _ => .label
  | .uid _ => .uid
  | .reset _ => .reset
  | .current => .current

/-- The argument of a verb. -/
def argument : Verb → Option Text
  | .scope a | .label a | .uid a | .reset a => a
  | .leave | .current => none

/-- The verb of a keyword with an argument; a keyword without room for one drops it. -/
def ofKeyword : Keyword → Option Text → Verb
  | .scope, a => .scope a
  | .leave, _ => .leave
  | .label, a => .label a
  | .uid, a => .uid a
  | .reset, a => .reset a
  | .current, _ => .current

end Verb

/-- A verb and the 1-based line it stands on. -/
structure Command where
  verb : Verb
  line : Nat
deriving DecidableEq

/-- What can be wrong with a script. -/
inductive Defect
  /-- The first word of a line is no keyword. -/
  | unknownCommand (word : Text)
  /-- More words follow a keyword than it takes. -/
  | tooManyArguments (keyword : Text)
  /-- An `end` while the script has no scope open. -/
  | endWithoutScope
deriving DecidableEq

/-- What is said about a defect. -/
def Defect.message : Defect → Text
  | .unknownCommand word => "unknown command '" ++ word ++ "'"
  | .tooManyArguments keyword => "too many arguments for '" ++ keyword ++ "'"
  | .endWithoutScope => "'end' without an open scope"

/-- A defect and the 1-based line where it was met. -/
structure Fault where
  line : Nat
  defect : Defect
deriving DecidableEq

/-- The defect with its line before it. -/
def Fault.message (fault : Fault) : Text :=
  "line " ++ Text.ofNat fault.line ++ ": " ++ fault.defect.message

end ScopedLabels.Script
