import SolutionPlan.Resolution.Overrides

/-!
# Reports

A solution as a tree of labels: its platforms, configurations and targets, then its folders and
projects. The tree is written one label a line, behind lines that lead down from the label above it.
-/

namespace SolutionPlan

inductive Tree where
  | node (label : String) (children : List Tree)

namespace Tree

def leaf (label : String) : Tree := node label []

def label : Tree → String
  | node label _ => label

def children : Tree → List Tree
  | node _ children => children

/-! ## Writing -/

mutual

/-- The lines of a tree whose label stands behind `lead` and all other lines behind `below`. -/
def linesBehind (lead below : String) : Tree → List String
  | node label children => (lead ++ label) :: childLines below children

def childLines (below : String) : List Tree → List String
  | [] => []
  | [last] => linesBehind (below ++ "└─ ") (below ++ "   ") last
  | child :: rest =>
      linesBehind (below ++ "├─ ") (below ++ "│  ") child ++ childLines below rest

end

def lines (t : Tree) : List String := t.linesBehind "" ""

end Tree

/-! ## Projects -/

private def countLabel (name : String) (n : Nat) : String := s!"{name}: {n} source(s)"

private def filterTree (p : Project) (i : Nat) (f : Filter) : Tree :=
  .node s!"Filter {f.name} ({(p.filterSources i).length} sources)"
    (f.subFilters.map fun sub => .leaf sub.name)

private def targetTrees (p : Project) (i : Nat) (t : Target) : List Tree :=
  let n := (p.targetSources i).length
  if n = 0 then [] else [.leaf (countLabel t.name n)]

private def referenceTree (r : Reference) : Tree :=
  match r.kind with
  | .reference => .leaf s!"Reference -> {r.project}"
  | .dependency => .leaf s!"Dependency -> {r.project}"

def projectTree (s : Solution) (p : Project) : Tree :=
  let label := s!"Project {p.name} [{p.kind.label}] {(p.guid.getD .nil).text}"
  if p.external then .leaf s!"{label} (external: {p.path.text})"
  else
    let overridden := (overriddenSources s p).length
    .node label
      (p.filters.mapIdx (filterTree p) ++ (s.targets.mapIdx (targetTrees p)).flatten ++
        (if overridden = 0 then [] else [.leaf (countLabel "Per-file overrides" overridden)]) ++
        p.references.map referenceTree)

/-! ## Folders -/

def outside (parent : Option Nat) (folders : List (Folder × Nat)) : List (Folder × Nat) :=
  folders.filter fun f => f.1.parent != parent

theorem length_outside_lt {parent : Option Nat} {folders : List (Folder × Nat)}
    {f : Folder × Nat} (hmem : f ∈ folders) (h : f.1.parent = parent) :
    (outside parent folders).length < folders.length :=
  List.length_filter_lt_length_iff_exists.2 ⟨f, hmem, by simp [h]⟩

/-- What lies in a folder, or outside all folders: the folders among `available` with that parent,
each with what lies in it, and then the projects. Further down those folders cannot occur again. -/
def contentTrees (s : Solution) (available : List (Folder × Nat)) (parent : Option Nat) :
    List Tree :=
  (available.attach.filterMap fun ⟨f, _⟩ =>
    if _h : f.1.parent = parent then
      some (.node s!"Folder {f.1.name}" (contentTrees s (outside parent available) (some f.2)))
    else none) ++
    (s.projects.filter fun p => p.folder == parent).map (projectTree s)
termination_by available.length
decreasing_by exact length_outside_lt ‹_› _h

/-! ## Solutions -/

private def targetTree (t : Target) : Tree :=
  let shown := String.intercalate ", ." t.extensions
  .leaf (if t.extensions.isEmpty then t.name else s!"{t.name} (.{shown})")

def solutionTree (s : Solution) : Tree :=
  let listed (names : List String) := String.intercalate ", " names
  .node s!"Solution {s.name} ({s.path.text})"
    ([.leaf s!"Platforms: {listed s.platforms}",
      .leaf s!"Configurations: {listed s.configurationPlatforms}",
      .node "Targets" (s.targets.map targetTree)] ++
      contentTrees s s.folders.zipIdx none)

end SolutionPlan
