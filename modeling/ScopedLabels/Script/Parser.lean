import ScopedLabels.Script.Command

/-!
# Reading a script

A script is read line by line. A line without words is skipped, and so is one whose first word
begins with the comment byte; every other line is one command. Lines are numbered from one, and
reading stops at the first line that is wrong.
-/

namespace ScopedLabels.Script

/-- The command that the words of a line ask for, if they ask for any. -/
def parseLine (line : Nat) : List Text → Except Fault (Option Command)
  | [] => .ok none
  | first :: arguments =>
    if first.head? = some Text.hash then
      .ok none
    else
      match Keyword.ofName? first with
      | none => .error ⟨line, .unknownCommand first⟩
      | some keyword =>
        if keyword.capacity < arguments.length then
          .error ⟨line, .tooManyArguments first⟩
        else
          .ok (some ⟨.ofKeyword keyword arguments.head?, line⟩)

/-- The commands of a script, in order, or its first fault. -/
def parse (text : Text) : Except Fault (List Command) :=
  (text.lines.zipIdx 1).filterMapM fun (line, number) => parseLine number line.words

end ScopedLabels.Script
