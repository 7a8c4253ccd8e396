import ScopedLabels.Text

/-!
# Sources — where script texts come from

A script is a file or what is left of an input stream. A file that is missing and a stream that is
in a failed state cannot be read; a stream that was read to its end can, and is empty.
-/

namespace ScopedLabels

/-- Why a source cannot be read. -/
inductive SourceFault
  | unreadableFile (path : Text)
  | unreadableStream
deriving DecidableEq

/-- What is said about a source that cannot be read. -/
def SourceFault.message : SourceFault → Text
  | .unreadableFile path => "cannot read label script '" ++ path ++ "'"
  | .unreadableStream => "failed to read input stream"

/-- An input stream. -/
inductive Stream
  | failed
  | ready (rest : Text)
deriving DecidableEq

namespace Stream

/-- Take single bytes off a stream. Taking one past the end leaves it in a failed state. -/
def skip (count : Nat) : Stream → Stream
  | .failed => .failed
  | .ready rest => if count ≤ rest.length then .ready (rest.drop count) else .failed

/-- What is left of a stream. -/
def contents : Stream → Except SourceFault Text
  | .failed => .error .unreadableStream
  | .ready rest => .ok rest

/-- The stream after all of it was read. -/
def exhausted : Stream → Stream
  | .failed => .failed
  | .ready _ => .ready []

end Stream

/-- Files by name. -/
abbrev Files := Text → Option Text

/-- The contents of a file. -/
def Files.contents (files : Files) (path : Text) : Except SourceFault Text :=
  match files path with
  | some text => .ok text
  | none => .error (.unreadableFile path)

end ScopedLabels
