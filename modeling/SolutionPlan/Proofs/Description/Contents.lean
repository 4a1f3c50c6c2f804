import SolutionPlan.Proofs.Description.Solutions

/-!
# The projects in a description

The contents of an element are its project elements and those of its folders, however deep these are
nested and whatever they import. A solution has one project for each of these elements that declares
one, in the order in which the elements are read.
-/

namespace SolutionPlan

def Project.unplaced (p : Project) : Project := { p with folder := none }

namespace Node

mutual

/-- The project elements in the contents of an element: those in its folders and then its own. -/
def contentProjects : Node → List Node
  | .mk _ _ children _ => folderProjects children ++ children.filter fun e => e.name == "project"

def folderProjects : List Node → List Node
  | [] => []
  | .mk tag directory children imports :: rest =>
      (if tag.name = "folder" then
        importedProjects imports ++ contentProjects (.mk tag directory children imports)
      else []) ++ folderProjects rest

def importedProjects : List Imported → List Node
  | [] => []
  | .failed _ :: rest => importedProjects rest
  | .loaded root :: rest => contentProjects (root ()) ++ importedProjects rest

end

end Node

namespace Workspace

def declaredProjects (w : Workspace) (es : List Node) : List Project :=
  es.filterMap fun e => (w.readProject e).value.map Project.unplaced

theorem declaredProjects_append (w : Workspace) (es others : List Node) :
    w.declaredProjects (es ++ others) = w.declaredProjects es ++ w.declaredProjects others :=
  List.filterMap_append

theorem projects_readProjects (w : Workspace) (folder : Option Nat) (s : Solution)
    (es : List Node) :
    (w.readProjects folder s es).value.projects.map Project.unplaced =
      s.projects.map Project.unplaced ++
        w.declaredProjects (es.filter fun e => e.name == "project") := by
  unfold readProjects
  rw [Logged.foldlM_value]
  induction es.filter (fun e => e.name == "project") generalizing s with
  | nil => simp [declaredProjects]
  | cons e rest ih =>
      rw [List.foldl_cons, ih]
      simp only [Logged.bind_value, Logged.pure_value, declaredProjects, List.filterMap_cons]
      cases (w.readProject e).value with
      | none => rfl
      | some p => simp [Solution.addProject, Project.unplaced]

mutual

theorem projects_readContents (w : Workspace) (folder : Option Nat) (s : Solution) :
    (e : Node) → (w.readContents folder s e).value.projects.map Project.unplaced =
      s.projects.map Project.unplaced ++ w.declaredProjects e.contentProjects
  | .mk tag directory children imports => by
      rw [readContents, Node.contentProjects, Logged.bind_value, projects_readProjects,
        w.projects_readFolders folder s children, declaredProjects_append, List.append_assoc]

theorem projects_readFolders (w : Workspace) (folder : Option Nat) (s : Solution) :
    (es : List Node) → (w.readFolders folder s es).value.projects.map Project.unplaced =
      s.projects.map Project.unplaced ++ w.declaredProjects (Node.folderProjects es)
  | [] => by simp [readFolders, Node.folderProjects, declaredProjects]
  | .mk tag directory children imports :: rest => by
      obtain ⟨name, hvalue⟩ := ContentInvariant.readFolders_cons_value (w := w) folder s
        (.mk tag directory children imports) rest
      rw [hvalue, w.projects_readFolders folder _ rest, Node.folderProjects,
        declaredProjects_append, ← List.append_assoc]
      congr 1
      by_cases hfolder : tag.name = "folder"
      · have hnode : (Node.mk tag directory children imports).name = "folder" := hfolder
        rw [if_pos hnode, if_pos hfolder,
          w.projects_readContents _ _ (.mk tag directory children imports),
          w.projects_readImportedContents _ _ _, declaredProjects_append, List.append_assoc]
        rfl
      · have hnode : ¬(Node.mk tag directory children imports).name = "folder" := hfolder
        rw [if_neg hnode, if_neg hfolder]
        simp [declaredProjects]

theorem projects_readImportedContents (w : Workspace) (folder : Option Nat) (s : Solution) :
    (roots : List Imported) →
      (w.readImportedContents folder s roots).value.projects.map Project.unplaced =
        s.projects.map Project.unplaced ++ w.declaredProjects (Node.importedProjects roots)
  | [] => by simp [readImportedContents, Node.importedProjects, declaredProjects]
  | .failed problem :: rest => by
      rw [readImportedContents, Node.importedProjects, Logged.bind_value,
        w.projects_readImportedContents folder s rest]
  | .loaded root :: rest => by
      rw [readImportedContents, Node.importedProjects, Logged.bind_value,
        w.projects_readImportedContents folder _ rest, w.projects_readContents folder s (root ()),
        declaredProjects_append, List.append_assoc]

end

/-- A solution has the projects that its layers declare, one layer after the other. -/
theorem projects_readSolution {w : Workspace} {e : Node} {s : Solution}
    (h : (w.readSolution e).value = some s) :
    s.projects.map Project.unplaced =
      w.declaredProjects (e.elements.flatMap Node.contentProjects) := by
  rw [readSolution_value] at h
  obtain ⟨name, -, rfl⟩ := Option.map_eq_some_iff.1 h
  have hlayers (layers : List Node) (s : Solution) :
      (layers.foldl (fun s layer => (w.readSolutionLayer layer s).value) s).projects.map
          Project.unplaced =
        s.projects.map Project.unplaced ++
          w.declaredProjects (layers.flatMap Node.contentProjects) := by
    induction layers generalizing s with
    | nil => simp [declaredProjects]
    | cons layer rest ih =>
        obtain ⟨-, hprojects, -⟩ := w.prepared_spec layer s
        rw [List.foldl_cons, ih, readSolutionLayer_value, projects_readContents, hprojects,
          List.flatMap_cons, declaredProjects_append, List.append_assoc]
  exact hlayers e.elements _

/-- Every project of a solution was read from an element in its contents, but for the folder that
it is shown in. -/
theorem exists_contentProject_of_mem {w : Workspace} {e : Node} {s : Solution}
    (h : (w.readSolution e).value = some s) {p : Project} (hp : p ∈ s.projects) :
    ∃ n ∈ e.elements.flatMap Node.contentProjects,
      ∃ q, (w.readProject n).value = some q ∧ q.unplaced = p.unplaced := by
  have hunplaced : p.unplaced ∈ s.projects.map Project.unplaced := List.mem_map_of_mem hp
  rw [projects_readSolution h] at hunplaced
  obtain ⟨n, hn, hread⟩ := List.mem_filterMap.1 hunplaced
  obtain ⟨q, hq, hsame⟩ := Option.map_eq_some_iff.1 hread
  exact ⟨n, hn, q, hq, hsame⟩

theorem exists_readProject_of_mem {w : Workspace} {e : Node} {s : Solution}
    (h : (w.readSolution e).value = some s) {p : Project} (hp : p ∈ s.projects) :
    ∃ n q, (w.readProject n).value = some q ∧ q.unplaced = p.unplaced := by
  obtain ⟨n, -, hread⟩ := exists_contentProject_of_mem h hp
  exact ⟨n, hread⟩

end Workspace

end SolutionPlan
