import SolutionPlan.Problem

/-!
# Build errors

What ends a build at once, as opposed to problems, which are recorded and passed over.
-/

namespace SolutionPlan

inductive BuildError where
  | missingInput
  | unexpectedArgument (text : String)
  | unknownOption (name : String) (available : List String)
  | requiredOption (name : String) (available : List String)
  | malformed (document : Path) (e : Xml.Malformed)
  | aborted (errors : Nat)
  | emptyPath
  | unreadable (e : ReadError)
  | directoryNotFound (path : Path)
  | pattern (e : Glob.PatternError)
deriving DecidableEq, Repr

namespace BuildError

def ofSearch : SearchError → BuildError
  | .directoryNotFound path => directoryNotFound path
  | .pattern e => pattern e

private def listNames (names : List String) : String :=
  if names.isEmpty then "(none)" else String.intercalate ", " names

def message : BuildError → String
  | missingInput => "No path given"
  | unexpectedArgument text => s!"Unknown command line argument '{text}'"
  | unknownOption name available =>
      s!"Unknown option '{name}'. Available options: {listNames available}"
  | requiredOption name available =>
      s!"Option '{name}' is required (no default value given). " ++
        s!"Available options: {listNames available}"
  | malformed document e => s!"Failed to parse {document.text}: {e.message}"
  | aborted errors =>
      s!"Errors found while processing the build description ({errors} error(s)). Aborting"
  | emptyPath => "I/O error: cannot make an empty path absolute"
  | unreadable e => s!"I/O error: {e.message}"
  | directoryNotFound path => s!"I/O error: directory not found: {path.text}"
  | pattern e => s!"Glob pattern error: {e.message}"

end BuildError

end SolutionPlan
