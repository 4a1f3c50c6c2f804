import SolutionPlan.Diagnostics
import SolutionPlan.Solution.Project

/-!
# Directory sub-filters

A filter may show the directories of its sources below its root as nested sub-filters. A source
that is not below the root is recorded, and placed by the way to its directory without the first
step up.
-/

namespace SolutionPlan.Project

structure Placement where
  path : Path
  directories : List String
deriving DecidableEq, Repr

private def shownComponent : Component → String
  | .root => "/"
  | c => String.ofList c.segment

def placement (f : Filter) (s : Source) : Logged Placement := do
  let directory := s.path.parent?.getD f.root
  let way := (directory.relativeTo f.root).components
  match way with
  | .parent :: rest => do
      Logged.report (.outsideRoot f.name s.path f.root)
      pure ⟨s.path, rest.map shownComponent⟩
  | way => pure ⟨s.path, way.map shownComponent⟩

def directoryChain (directories : List String) : List String :=
  (List.range directories.length).map fun i =>
    String.intercalate "/" (directories.take (i + 1))

def ensureChain (f : Filter) (chain : List String) : Option Nat × Filter :=
  chain.foldl
    (fun (_, f) directory =>
      let (i, f) := f.ensureSubFilter directory
      (some i, f))
    (none, f)

def place (filter : Nat) (p : Project) (d : Placement) : Project :=
  match p.filters[filter]? with
  | none => p
  | some f =>
      match ensureChain f (directoryChain d.directories) with
      | (none, _) => p
      | (some i, f) =>
          { p with filters := p.filters.set filter f }.modifySource d.path fun s =>
            { s with subFilter := some i }

def showDirectories (p : Project) (i : Nat) : Logged Project :=
  match p.filters[i]? with
  | none => pure p
  | some f =>
      if f.directories then do
        let placements ← (p.filterSources i).mapM (placement f)
        pure (placements.foldl (place i) p)
      else pure p

def buildDirectories (p : Project) : Logged Project :=
  (List.range p.filters.length).foldlM showDirectories p

end SolutionPlan.Project
