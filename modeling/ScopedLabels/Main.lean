import ScopedLabels.Program

/-!
# The command line

The outer layer: it reads sources one at a time as they are needed, runs each, and writes what
came of it. What is run and what is written is decided by `plan`, `runSource` and
`Progress.conclude`.
-/

namespace ScopedLabels.Main

/-- Read a source. -/
def readSource (name : Text) : IO (Except SourceFault Text) := do
  if name = standardInput then
    return .ok (← (← IO.getStdin).readBinToEnd).toList
  match String.fromUTF8? ⟨name.toArray⟩ with
  | none => return .error (.unreadableFile name)
  | some path =>
    try
      return .ok (← IO.FS.readBinFile path).toList
    catch _ =>
      return .error (.unreadableFile name)

/-- Write bytes. -/
def write (stream : IO.FS.Stream) (text : Text) : IO Unit := do
  stream.write ⟨text.toArray⟩
  stream.flush

/-- Write what a conclusion holds beyond what was written already. -/
def conclude (conclusion : Conclusion) : IO UInt32 := do
  write (← IO.getStderr) conclusion.stderr
  write (← IO.getStdout) conclusion.stdout
  return conclusion.exit.toUInt32

/-- Run scripts in order, up to the first that fails. -/
def runScripts (settings : CommandLine.Settings) : List Text → Metrics → IO UInt32
  | [], metrics => conclude (Progress.conclude settings { metrics })
  | name :: rest, metrics => do
    let progress := runSource settings metrics name (← readSource name)
    write (← IO.getStdout) progress.printed
    write (← IO.getStderr) (progress.diagnostics.flatMap Diagnostic.text)
    if progress.failed then
      return failureStatus.toUInt32
    runScripts settings rest progress.metrics

/-- Run the program on its arguments. -/
def run (arguments : List String) : IO UInt32 := do
  let name := (← IO.appPath).toString
  match plan ((name :: arguments).map fun argument => some (Text.ofString argument)) with
  | .error conclusion => conclude conclusion
  | .ok settings => runScripts settings settings.inputs (initialMetrics settings)

end ScopedLabels.Main

def main (arguments : List String) : IO UInt32 :=
  ScopedLabels.Main.run arguments
