import ScopedLabels.Text

/-!
# The usage text

It names the program as it was called: the part of the name behind the last slash, or a fixed name
if none was given.
-/

namespace ScopedLabels.CommandLine

/-- The part of a file name behind its last slash. -/
def lastSegment (path : Text) : Text :=
  (path.splitWhere (· == Text.slash)).getLast?.getD []

/-- How the program is called in the usage text. -/
def programName : Option Text → Text
  | none | some [] => "labelkit"
  | some name => lastSegment name

/-- The usage text for a program called by this name. -/
def usage (name : Option Text) : Text :=
  Text.unlines [
    "Usage: " ++ programName name ++ " [options] script...",
    "",
    "Options:",
    "  -h, --help              Print this help and exit",
    "  --strict-names          Also reject '_' in scope and label names",
    "  --no-fallback-warning   Do not warn when numbering falls back to 'global'",
    "  --log-level=<level>     debug, info, warning (default), error or off",
    "  --metrics[=json|text]   Print labeling counters after the run (default: text)",
    "  --                      End of options",
    "",
    "Script commands (one per line, '#' starts a comment; '-' reads stdin):",
    "  scope [name]      enter a named or unnamed scope",
    "  end               exit the innermost scope",
    "  label [name]      print an automatic label",
    "  uid [namespace]   print the next counter value",
    "  reset [namespace] reset a counter",
    "  current           print the active scope"]

end ScopedLabels.CommandLine
