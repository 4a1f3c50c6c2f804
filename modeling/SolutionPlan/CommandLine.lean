import SolutionPlan.Build

/-!
# The command line

The arguments are one path and any number of bindings, in any order. Two hyphens alone in front of
them only say that the arguments begin. A run writes the reports of all solutions, or one line that
says what went wrong.
-/

namespace SolutionPlan.CommandLine

structure Arguments where
  path : Path
  bindings : List (String × String)
deriving DecidableEq, Repr

/-- The binding that stands behind two hyphens: a name and a value, or a name that becomes true. -/
def binding (written : List Char) : String × String :=
  match Text.cutAt? '=' written with
  | some (name, value) => (String.ofList name, String.ofList value)
  | none => (String.ofList written, "true")

/-- The path and the bindings found so far, and what one more argument adds to them. -/
def splitArgument (found : Option Path × List (String × String)) (argument : String) :
    Except BuildError (Option Path × List (String × String)) :=
  match argument.toList, found.1 with
  | '-' :: '-' :: written, path => .ok (path, found.2 ++ [binding written])
  | _, none => .ok (some ⟨argument⟩, found.2)
  | _, some _ => .error (.unexpectedArgument argument)

/-- An argument that does not start with two hyphens is the path, and there is just one. -/
def split (arguments : List String) : Except BuildError Arguments := do
  match ← arguments.foldlM splitArgument (none, []) with
  | (some path, bindings) => .ok ⟨path, bindings⟩
  | (none, _) => .error .missingInput

/-- The arguments behind two hyphens that may stand alone in front of them. -/
def withoutMark : List String → List String
  | "--" :: arguments => arguments
  | arguments => arguments

structure Outcome where
  code : Nat
  output : List String
  complaint : String
deriving DecidableEq, Repr

/-- The reports of a build in the working directory. Projects without an identifier get one from
`fresh`, by the place of their solution and their own place in it. -/
def run (fs : FileSystem) (workingDirectory : Path) (fresh : Nat → Nat → Guid)
    (arguments : List String) : Outcome :=
  let built := do
    let read ← split (withoutMark arguments)
    build fs workingDirectory read.path read.bindings
  match built with
  | .ok b =>
      let reports := b.description.solutions.mapIdx fun i s =>
        (solutionTree (s.identify (fresh i))).lines
      ⟨0, reports.flatten, ""⟩
  | .error e => ⟨1, [], s!"Error: {e.message}"⟩

end SolutionPlan.CommandLine
