import ScopedLabels.Script.Command

/-!
# Writing a script

The partner of reading: a verb is written as its keyword and, after one space, its argument. A list
of verbs is written one to a line, and `numbered` is that list as commands, each with its line.
-/

namespace ScopedLabels.Script

/-- The line that a verb is written as. -/
def Verb.render (verb : Verb) : Text :=
  Text.join Text.space (verb.keyword.name :: verb.argument.toList)

/-- The script that some verbs are written as. -/
def render (verbs : List Verb) : Text :=
  Text.join Text.newline (verbs.map Verb.render)

/-- The commands that some verbs are when they stand one to a line. -/
def numbered (verbs : List Verb) : List Command :=
  (verbs.zipIdx 1).map fun (verb, line) => ⟨verb, line⟩

end ScopedLabels.Script
