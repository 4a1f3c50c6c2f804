import SolutionPlan.Path
import SolutionPlan.Glob.Match

/-!
# File systems

What the reading of a description asks of the files: the text of a document and the files of a
directory whose names match a pattern. Only finitely many different documents can be read, which is
why imports come to an end.
-/

namespace SolutionPlan

/-! ## Failures -/

inductive ReadError where
  | fileNotFound (path : Path)
  | noEntry
  | notDirectory
  | isDirectory
  | tooManyLinks
  | nameTooLong
  | nulByte
  | permissionDenied
  | notText
deriving DecidableEq, Repr

def ReadError.message : ReadError → String
  | fileNotFound path => s!"file not found: {path.text}"
  | noEntry => "No such file or directory (os error 2)"
  | notDirectory => "Not a directory (os error 20)"
  | isDirectory => "Is a directory (os error 21)"
  | tooManyLinks => "Too many levels of symbolic links (os error 40)"
  | nameTooLong => "File name too long (os error 36)"
  | nulByte => "file name contained an unexpected NUL byte"
  | permissionDenied => "Permission denied (os error 13)"
  | notText => "stream did not contain valid UTF-8"

inductive SearchError where
  | directoryNotFound (path : Path)
  | pattern (e : Glob.PatternError)
deriving DecidableEq, Repr

/-! ## The interface -/

structure FileSystem where
  read : Path → Except ReadError String
  find : Path → String → Bool → Except SearchError (List Path)
  capacity : Nat
  length_le_capacity : ∀ paths : List Path, (paths.map Path.normal).Nodup →
    (∀ p ∈ paths, (read p).isOk) → paths.length ≤ capacity

/-! ## Searches -/

structure Search where
  directory : Path
  names : List Glob.Token

namespace Search

/-- In the pattern of a search only `*` and `?` are wildcards; brackets stand for themselves. -/
def nameTokens (name : String) : Except Glob.PatternError (List Glob.Token) :=
  Glob.compile (String.ofList
    (name.toList.flatMap fun c => if c = '[' ∨ c = ']' then Glob.escape [c] else [c]))

/-- The last component of the pattern is matched against file names, and what stands before it leads
from the root to the directory. Without a last component every name matches. -/
def ofPattern (root : Path) (pattern : String) : Except Glob.PatternError Search :=
  let written := Path.ofDocument pattern
  let directory :=
    match written.parent? with
    | some parent => (root.join parent).normalize
    | none => root.normalize
  (nameTokens (written.fileName?.getD "*")).map fun names => ⟨directory, names⟩

def accepts (search : Search) (name : String) : Bool :=
  Glob.accepts .ignoring search.names name.toList

end Search

end SolutionPlan
