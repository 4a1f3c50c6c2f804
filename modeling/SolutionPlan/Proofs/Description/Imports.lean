import SolutionPlan.Proofs.Description.ImportRun
import SolutionPlan.Proofs.Description.Solutions

/-!
# Imports come to an end

By induction on how many more documents can be opened every task of a run is completed, and what is
recorded on the way are the failed imports of the loaded description. So a run ends on every
description, and it records the same import problems as reading does.
-/

namespace SolutionPlan

variable {fs : FileSystem}

/-! ## Loaded elements -/

def Imported.of (parameters : Parameters) (opened : OpenDocuments fs) (directory : Path)
    (site : Xml.Element) : Imported :=
  match fetch parameters opened directory site with
  | .error p => .failed p
  | .ok found =>
      .loaded fun _ => Node.load parameters (opened.push found.path found.isNew found.isReadable)
        found.path.parentOrEmpty found.root

def Imported.problems (inner : Node → List Problem) : Imported → List Problem
  | .failed p => [p]
  | .loaded root => inner (root ())

namespace Node

theorem load_eq (parameters : Parameters) (opened : OpenDocuments fs) (directory : Path)
    (e : Xml.Element) :
    load parameters opened directory e =
      .mk e.tag directory (e.children.map (load parameters opened directory))
        ((e.named "import").map (Imported.of parameters opened directory)) := by
  rw [load]
  congr 1
  simp

section Load

variable (parameters : Parameters) (opened : OpenDocuments fs) (directory : Path)
  (e : Xml.Element)

theorem tag_load : (load parameters opened directory e).tag = e.tag := by
  rw [load_eq]
  rfl

theorem imports_load :
    (load parameters opened directory e).imports =
      (e.named "import").map (Imported.of parameters opened directory) := by
  rw [load_eq]
  rfl

theorem name_load : (load parameters opened directory e).name = e.name := by
  unfold Node.name
  rw [tag_load]
  rfl

theorem first?_load (name : String) :
    (load parameters opened directory e).first? name =
      (e.first? name).map (load parameters opened directory) := by
  rw [load_eq]
  simp only [first?, children, List.find?_map, Function.comp_def, name_load]
  rfl

theorem named_load (name : String) :
    (load parameters opened directory e).named name =
      (e.named name).map (load parameters opened directory) := by
  rw [load_eq]
  simp only [named, children, List.filter_map, Function.comp_def, name_load]
  rfl

end Load

/-! ## Failed imports of loaded elements -/

theorem flatMap_importedLayers (own : Node → List Problem) (roots : List Imported) :
    (importedLayers roots).flatMap (Layer.problems own) =
      roots.flatMap (Imported.problems (layerProblems own)) := by
  induction roots with
  | nil => rfl
  | cons first rest ih =>
      cases first with
      | failed p =>
          rw [importedLayers, List.flatMap_cons, List.flatMap_cons, ih]
          rfl
      | loaded root =>
          rw [importedLayers, List.flatMap_append, List.flatMap_cons, ih]
          rfl

theorem layerProblems_eq (own : Node → List Problem) (n : Node) :
    n.layerProblems own = n.imports.flatMap (Imported.problems (layerProblems own)) ++ own n := by
  obtain ⟨tag, directory, children, imports⟩ := n
  rw [layerProblems, layers, List.flatMap_append, flatMap_importedLayers]
  simp [Layer.problems, Node.imports]

theorem importedContentProblems_eq (roots : List Imported) :
    importedContentProblems roots = roots.flatMap (Imported.problems contentProblems) := by
  induction roots with
  | nil => rfl
  | cons first rest ih =>
      cases first with
      | failed p =>
          rw [importedContentProblems, List.flatMap_cons, ih]
          rfl
      | loaded root =>
          rw [importedContentProblems, List.flatMap_cons, ih]
          rfl

theorem folderProblems_eq (es : List Node) :
    folderProblems es =
      (es.filter fun e => e.name == "folder").flatMap fun f =>
        f.imports.flatMap (Imported.problems contentProblems) ++ f.contentProblems := by
  induction es with
  | nil => rfl
  | cons e rest ih =>
      obtain ⟨tag, directory, children, imports⟩ := e
      have hname : (Node.mk tag directory children imports).name = tag.name := rfl
      rw [folderProblems, ih, importedContentProblems_eq, List.filter_cons]
      by_cases hfolder : tag.name = "folder"
      · simp [hname, hfolder, Node.imports]
      · simp [hname, hfolder]

theorem contentProblems_eq (n : Node) :
    n.contentProblems =
      ((n.named "folder").flatMap fun f =>
        f.imports.flatMap (Imported.problems contentProblems) ++ f.contentProblems) ++
      (n.named "project").flatMap fun e =>
        if e.tag.isAuthored then e.projectProblems else [] := by
  obtain ⟨tag, directory, children, imports⟩ := n
  rw [contentProblems, folderProblems_eq]
  rfl

end Node

/-! ## Opening a document -/

theorem openDocument_eq_fetch (parameters : Parameters) (opened : OpenDocuments fs)
    (directory : Path) (site : Xml.Element) :
    openDocument fs parameters opened.paths directory site =
      (fetch parameters opened directory site).map fun found => (found.path, found.root) := by
  have hopened (path : Path) :
      (opened.paths.map Path.normal).contains path.normal = opened.contains path := rfl
  generalize hfetched : fetch parameters opened directory site = fetched
  unfold fetch at hfetched
  unfold openDocument
  cases hfile : site.attribute? "file" with
  | none =>
      simp only [hfile] at hfetched
      rw [← hfetched]
      rfl
  | some file =>
      simp only [hfile, hopened] at hfetched ⊢
      split at hfetched
      · next hcycle =>
          rw [if_pos hcycle, ← hfetched]
          rfl
      · next hnew =>
          rw [if_neg (by rw [hnew]; exact Bool.false_ne_true)]
          split at hfetched
          · next e hread =>
              rw [hread, ← hfetched]
              rfl
          · next text hread =>
              rw [hread]
              simp only
              cases hparse : Xml.parse text with
              | error e =>
                  simp only [hparse] at hfetched
                  subst hfetched
                  simp only [Except.map]
              | ok root =>
                  simp only [hparse] at hfetched
                  subst hfetched
                  simp only [Except.map]

theorem exists_fetch_of_openDocument {parameters : Parameters} {opened : OpenDocuments fs}
    {directory path : Path} {site root : Xml.Element}
    (h : openDocument fs parameters opened.paths directory site = .ok (path, root)) :
    ∃ found, fetch parameters opened directory site = .ok found ∧ found.path = path ∧
      found.root = root := by
  rw [openDocument_eq_fetch] at h
  cases hfetch : fetch parameters opened directory site with
  | error p =>
      rw [hfetch] at h
      cases h
  | ok found =>
      rw [hfetch] at h
      obtain ⟨hpath, hroot⟩ := Prod.mk.inj (Except.ok.inj h)
      exact ⟨found, rfl, hpath, hroot⟩

/-! ## Completing tasks -/

def Role.problems : Role → Node → List Problem
  | .plain => Node.plainProblems
  | .profile => Node.profileProblems
  | .project => Node.projectProblems
  | .contents => Node.contentProblems
  | .solution => Node.solutionProblems

namespace ImportRun

section Completion

variable {parameters : Parameters}

theorem completes_follow {role : Role} {inner : Node → List Problem} {opened : OpenDocuments fs}
    (hroot : ∀ found : Fetched opened,
      let now := opened.push found.path found.isNew found.isReadable
      Completes fs parameters now.paths [.read role found.path.parentOrEmpty found.root]
        (inner (Node.load parameters now found.path.parentOrEmpty found.root)))
    (directory : Path) (sites : List Xml.Element) :
    Completes fs parameters opened.paths [.follow role directory sites]
      ((sites.map (Imported.of parameters opened directory)).flatMap
        (Imported.problems inner)) := by
  induction sites with
  | nil => exact .follow_nil role directory
  | cons site rest ih =>
      have hopen := openDocument_eq_fetch parameters opened directory site
      rw [List.map_cons, List.flatMap_cons, Imported.of]
      cases hfetched : fetch parameters opened directory site with
      | error p =>
          rw [hfetched] at hopen
          exact .follow_failed hopen ih
      | ok found =>
          rw [hfetched] at hopen
          exact .follow_opened hopen (hroot found) ih

/-- An element that first follows its imports and then does tasks of its own is completed if those
are, whatever documents are open. -/
theorem completes_layers {role : Role} {own : Node → List Problem}
    (ownTasks : Path → Xml.Element → List Task)
    (htasks : ∀ directory e, role.tasks directory e =
      .follow role directory (e.named "import") :: ownTasks directory e)
    (hown : ∀ (opened : OpenDocuments fs) directory e, Completes fs parameters opened.paths
      (ownTasks directory e) (own (Node.load parameters opened directory e)))
    (opened : OpenDocuments fs) (directory : Path) (e : Xml.Element) :
    Completes fs parameters opened.paths [.read role directory e]
      ((Node.load parameters opened directory e).layerProblems own) := by
  apply Completes.read
  rw [htasks, Node.layerProblems_eq, Node.imports_load]
  apply Completes.cons
  · apply completes_follow
    intro found
    exact completes_layers ownTasks htasks hown _ found.path.parentOrEmpty found.root
  · exact hown opened directory e
-- An imported document goes on the stack, so there are fewer left to open in it.
termination_by opened.room
decreasing_by exact OpenDocuments.room_push_lt

section Children

variable (role : Role) {opened : OpenDocuments fs} {directory : Path}
  (hread : ∀ e, Completes fs parameters opened.paths [.read role directory e]
    (role.problems (Node.load parameters opened directory e)))
  (e : Xml.Element) (name : String)

include hread

theorem completes_first? :
    Completes fs parameters opened.paths
      ((e.first? name).toList.flatMap fun c => [.read role directory c])
      (((Node.load parameters opened directory e).first? name).toList.flatMap role.problems) := by
  rw [Node.first?_load]
  cases e.first? name with
  | none => exact .nil opened.paths
  | some c => simpa using hread c

theorem completes_named (test : Xml.Tag → Bool) :
    Completes fs parameters opened.paths
      ((e.named name).flatMap fun c => if test c.tag then [.read role directory c] else [])
      (((Node.load parameters opened directory e).named name).flatMap fun c =>
        if test c.tag then role.problems c else []) := by
  rw [Node.named_load, List.flatMap_map]
  apply Completes.flatMap
  intro c _
  rw [Node.tag_load]
  split
  · exact hread c
  · exact .nil opened.paths

end Children

theorem completes_plain (opened : OpenDocuments fs) (directory : Path) (e : Xml.Element) :
    Completes fs parameters opened.paths [.read .plain directory e]
      (Node.load parameters opened directory e).plainProblems :=
  completes_layers (fun _ _ => []) (fun _ _ => rfl) (fun opened _ _ => .nil opened.paths) opened
    directory e

theorem completes_profile (opened : OpenDocuments fs) (directory : Path) (e : Xml.Element) :
    Completes fs parameters opened.paths [.read .profile directory e]
      (Node.load parameters opened directory e).profileProblems := by
  apply completes_layers _ (fun _ _ => rfl)
  intro opened directory e
  exact (completes_first? .plain (completes_plain opened directory) e "shared").append
    (completes_named .plain (completes_plain opened directory) e "configuration"
      Xml.Tag.isDeclaration)

theorem completes_project (opened : OpenDocuments fs) (directory : Path) (e : Xml.Element) :
    Completes fs parameters opened.paths [.read .project directory e]
      (Node.load parameters opened directory e).projectProblems := by
  apply completes_layers _ (fun _ _ => rfl)
  intro opened directory e
  exact completes_first? .profile (completes_profile opened directory) e "configurations"

theorem completes_contents (opened : OpenDocuments fs) (directory : Path) (e : Xml.Element) :
    Completes fs parameters opened.paths [.read .contents directory e]
      (Node.load parameters opened directory e).contentProblems := by
  apply Completes.read
  rw [Node.contentProblems_eq]
  apply Completes.append
  · rw [Node.named_load, List.flatMap_map]
    apply Completes.flatMap
    intro f hf
    rw [Node.imports_load]
    apply Completes.cons
    · apply completes_follow
      intro found
      exact completes_contents _ found.path.parentOrEmpty found.root
    · exact completes_contents opened directory f
  · exact completes_named .project (completes_project opened directory) e "project"
      Xml.Tag.isAuthored
-- Folders nest by imports and in the document, so the induction is on both.
termination_by (opened.room, sizeOf e)
decreasing_by
  · exact Prod.Lex.left _ _ OpenDocuments.room_push_lt
  · exact Prod.Lex.right _ (Xml.Element.sizeOf_lt_of_mem_children (List.mem_filter.1 hf).1)

theorem completes_solution (opened : OpenDocuments fs) (directory : Path) (e : Xml.Element) :
    Completes fs parameters opened.paths [.read .solution directory e]
      (Node.load parameters opened directory e).solutionProblems := by
  apply completes_layers _ (fun _ _ => rfl)
  intro opened directory e
  apply Completes.append
  · exact (completes_first? .plain (completes_plain opened directory) e "targets").append
      (completes_first? .profile (completes_profile opened directory) e "configurations")
  · exact completes_contents opened directory e

theorem completes_read (role : Role) (opened : OpenDocuments fs) (directory : Path)
    (e : Xml.Element) :
    Completes fs parameters opened.paths [.read role directory e]
      (role.problems (Node.load parameters opened directory e)) := by
  cases role with
  | plain => exact completes_plain opened directory e
  | profile => exact completes_profile opened directory e
  | project => exact completes_project opened directory e
  | contents => exact completes_contents opened directory e
  | solution => exact completes_solution opened directory e

/-- The run gets through any task but the closing of a document, which is a part of its opening. -/
theorem completes_task {task : Task} (h : task ≠ .close) (opened : OpenDocuments fs) :
    ∃ problems, Completes fs parameters opened.paths [task] problems := by
  cases task with
  | read role directory e => exact ⟨_, completes_read role opened directory e⟩
  | follow role directory sites =>
      let found := sites.map (Imported.of parameters opened directory)
      refine ⟨found.flatMap (Imported.problems role.problems), completes_follow ?_ directory sites⟩
      intro found
      exact completes_read role _ found.path.parentOrEmpty found.root
  | close => exact absurd rfl h

/-- The run of a root document ends with the import problems of its solutions. -/
theorem exists_iterate_start (parameters : Parameters) {document : Path}
    (hopen : (fs.read document).isOk) (root : Xml.Element) :
    let directory := document.parentOrEmpty
    ∃ n, (step fs parameters)^[n] (start document root) =
      ⟨[document], [], (root.named "solution").flatMap fun e =>
        if e.tag.isDeclaration then
          (Node.load parameters (.single document hopen) directory e).solutionProblems
        else []⟩ := by
  intro directory
  let opened : OpenDocuments fs := .single document hopen
  have hread (e : Xml.Element) : Completes fs parameters opened.paths [.read .solution directory e]
      (Node.load parameters opened directory e).solutionProblems := completes_read .solution _ _ e
  have hdone := completes_named .solution hread root "solution" Xml.Tag.isDeclaration
  obtain ⟨n, hlast, -⟩ := hdone [] []
  refine ⟨n, ?_⟩
  rw [List.append_nil, Node.named_load, List.flatMap_map] at hlast
  simp only [Node.tag_load] at hlast
  exact hlast

end Completion

end ImportRun

end SolutionPlan
