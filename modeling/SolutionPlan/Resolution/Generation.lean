import SolutionPlan.Diagnostics
import SolutionPlan.Solution.Basic

/-!
# Generated sources

The generators of each target derive paths from the sources of that target. A path that is new
becomes a generated source, in the filter that the generator names or else in that of the source
it comes from.
-/

namespace SolutionPlan.Project

/-! ## Templates -/

/-- The tokens of a template and what they stand for, in the order in which they are replaced. -/
def templateValues (p : Project) (source : Path) : List (String × String) :=
  let directory := source.parentOrEmpty
  let way := (directory.relativeTo p.sourceRoot).toSlash
  [("$(FileDirectory)", directory.toSlash),
    ("$(FileRelativeDirectory)", if way = "" then "." else way),
    ("$(FileBasename)", source.fileStem?.getD ""),
    ("$(FileExtension)", source.extension?.getD ""),
    ("$(Filename)", source.fileName?.getD ""),
    ("$(SourceRoot)", p.sourceRoot.toSlash),
    ("$(ProjectDirectory)", p.directory.toSlash)]

def expandTemplate (p : Project) (template : String) (source : Path) : Path :=
  let text := (p.templateValues source).foldl
    (fun text entry => Text.replace entry.1.toList entry.2.toList text) template.toList
  source.parentOrEmpty.resolve (String.ofList text)

/-! ## Generators -/

structure Derived where
  path : Path
  origin : Nat
deriving DecidableEq, Repr

def derived (p : Project) (target : Nat) (g : Generator) : List Derived :=
  ((p.targetSources target).filter fun s => !s.generated).map fun s =>
    ⟨p.expandTemplate g.template s.path, s.filter⟩

/-- The first filter of that name. A missing one is created in the project's directory. -/
def destination (p : Project) (name : String) : Logged (Nat × Project) :=
  match p.findFilter? name with
  | some i => pure (i, p)
  | none => do
      Logged.report (.missingFilter name p.name)
      pure (p.filters.length, p.addFilter (.rooted name p.directory))

def addDerived (filter : Option Nat) (p : Project) (d : Derived) : Project :=
  if p.hasSource d.path then p else p.insertSource d.path (filter.getD d.origin) true

def runGenerator (target : Nat) (p : Project) (g : Generator) : Logged Project :=
  let found := p.derived target g
  if found.isEmpty then pure p
  else
    match g.filter with
    | none => pure (found.foldl (addDerived none) p)
    | some name => do
        let (i, p) ← p.destination name
        pure (found.foldl (addDerived (some i)) p)

def generate (p : Project) (targets : List Target) : Logged Project :=
  targets.zipIdx.foldlM (fun p (target, i) => target.generators.foldlM (runGenerator i) p) p

end SolutionPlan.Project
