import Mathlib.Data.List.ReduceOption
import SolutionPlan.Description.Solutions
import SolutionPlan.Proofs.Description.Projects
import SolutionPlan.Proofs.Path.Normal

/-!
# Solutions as they are read

Platforms, targets and folders leave the profile and the projects of a solution alone, and the
contents of an element only append projects that were read. So a solution that is read has a
written profile and so has every project in it. A description that is read has one root document.
-/

namespace SolutionPlan

namespace Solution

structure Written (s : Solution) : Prop where
  profile : s.profile.Written
  projects : ∀ p ∈ s.projects, p.profile.Written

theorem written_named (name : String) (path directory : Path) :
    (named name path directory).Written := by
  constructor
  · exact Profile.written_empty
  · intro p hp
    simp [named] at hp

theorem path_named (name : String) (path directory : Path) :
    (named name path directory).path = path := rfl

theorem Written.addProject {s : Solution} (hs : s.Written) {p : Project}
    (hp : p.profile.Written) : (s.addProject p).Written := by
  constructor
  · exact hs.profile
  · intro q hq
    rcases List.mem_append.1 hq with h | h
    · exact hs.projects q h
    · obtain rfl := List.mem_singleton.1 h
      exact hp

def bare (s : Solution) : Solution := { s with platforms := [], targets := [] }

/-- What the solution is from the start; the layers of its description do not change it. -/
def header (s : Solution) : Solution :=
  { s.bare with profile := .empty, macros := [], folders := [], projects := [] }

theorem header_of_bare {s t : Solution} (h : s.bare = t.bare) : s.header = t.header := by
  unfold header
  rw [h]

theorem name_of_header {s t : Solution} (h : s.header = t.header) : s.name = t.name := by
  have hname := congrArg Solution.name h
  exact hname

theorem path_of_header {s t : Solution} (h : s.header = t.header) : s.path = t.path := by
  have hpath := congrArg Solution.path h
  exact hpath

theorem directory_of_header {s t : Solution} (h : s.header = t.header) :
    s.directory = t.directory := by
  have hdirectory := congrArg Solution.directory h
  exact hdirectory

end Solution

/-! ## Platforms and targets -/

theorem Solution.bare_updateTarget (s : Solution) (name : String) (f : Target → Target) :
    (s.updateTarget name f).bare = s.bare := by
  unfold updateTarget ensureTarget
  cases (s.target? name).isSome <;> rfl

theorem bare_readPredefined (e : Node) (s : Solution) (entry : String × String) :
    (readPredefined e s entry).bare = s.bare := by
  unfold readPredefined
  split
  · rfl
  · exact s.bare_updateTarget entry.2 _

theorem bare_readCustomTarget (e : Node) (s : Solution) :
    (readCustomTarget e s).value.bare = s.bare := by
  unfold readCustomTarget
  cases e.attribute? "name" with
  | none => rfl
  | some name =>
      simp only
      split
      · exact s.bare_updateTarget name _
      · exact s.bare_updateTarget name _

theorem bare_readTargets (e : Node) (s : Solution) : (readTargets e s).value.bare = s.bare := by
  unfold readTargets
  cases e.first? "targets" with
  | none => rfl
  | some targets =>
      simp only [Node.readLayers_value, Logged.foldlM_value]
      apply foldl_keeps (g := Solution.bare)
      intro s layer
      rw [foldl_keeps (g := Solution.bare) fun s custom => bare_readCustomTarget custom s,
        foldl_keeps (g := Solution.bare) (bare_readPredefined layer)]

namespace Workspace

theorem bare_readPlatform (s : Solution) (e : Node) : (readPlatform s e).value.bare = s.bare := by
  unfold readPlatform
  cases platform? e.text with
  | none => rfl
  | some platform =>
      simp only [Logged.pure_value, Solution.addPlatform]
      split <;> rfl

/-! ## Contents -/

/-- Adding a folder keeps the property and so does adding a project that was read. -/
structure ContentInvariant (w : Workspace) (motive : Solution → Prop) : Prop where
  folder : ∀ s f, motive s → motive (s.addFolder f)
  project : ∀ s e p folder, (w.readProject e).value = some p → motive s →
    motive (s.addProject { p with folder := folder })

namespace ContentInvariant

variable {w : Workspace} {motive : Solution → Prop}

theorem readProjects (h : w.ContentInvariant motive) (folder : Option Nat) (s : Solution)
    (es : List Node) (hs : motive s) : motive (w.readProjects folder s es).value := by
  unfold Workspace.readProjects
  rw [Logged.foldlM_value]
  induction es.filter (fun e => e.name == "project") generalizing s with
  | nil => exact hs
  | cons e rest ih =>
      apply ih
      simp only [Logged.bind_value, Logged.pure_value]
      cases hread : (w.readProject e).value with
      | none => exact hs
      | some p => exact h.project s e p folder hread hs

theorem readFolders_cons_value (folder : Option Nat) (s : Solution) (e : Node)
    (rest : List Node) : ∃ name, (w.readFolders folder s (e :: rest)).value =
      (w.readFolders folder
        (if e.name = "folder" then
          (w.readContents (some s.folders.length)
            (w.readImportedContents (some s.folders.length) (s.addFolder ⟨name, folder⟩)
              e.imports).value e).value
        else s) rest).value := by
  obtain ⟨tag, directory, children, imports⟩ := e
  refine ⟨(tag.attribute? "name").getD "", ?_⟩
  rw [Workspace.readFolders]
  by_cases hfolder : (Node.mk tag directory children imports).name = "folder"
  · have htag : tag.name = "folder" := hfolder
    rw [if_pos hfolder, if_pos htag]
    simp only
    split <;> rfl
  · have htag : ¬ tag.name = "folder" := hfolder
    rw [if_neg hfolder, if_neg htag]
    rfl

mutual

theorem readContents (h : w.ContentInvariant motive) (folder : Option Nat) (s : Solution) :
    (e : Node) → motive s → motive (w.readContents folder s e).value
  | .mk tag directory children imports, hs => by
      rw [Workspace.readContents]
      exact h.readProjects folder _ children (h.readFolders folder s children hs)

theorem readFolders (h : w.ContentInvariant motive) (folder : Option Nat) (s : Solution) :
    (es : List Node) → motive s → motive (w.readFolders folder s es).value
  | [], hs => by
      rw [Workspace.readFolders]
      exact hs
  | .mk tag directory children imports :: rest, hs => by
      obtain ⟨name, hvalue⟩ := readFolders_cons_value (w := w) folder s
        (.mk tag directory children imports) rest
      rw [hvalue]
      apply h.readFolders folder _ rest
      split
      · exact h.readContents _ _ (.mk tag directory children imports)
          (h.readImportedContents _ _ imports (h.folder s _ hs))
      · exact hs

/-- What imported roots and nested folders add is added by the same two operations. -/
theorem readImportedContents (h : w.ContentInvariant motive) (folder : Option Nat)
    (s : Solution) : (roots : List Imported) → motive s →
      motive (w.readImportedContents folder s roots).value
  | [], hs => by
      rw [Workspace.readImportedContents]
      exact hs
  | .failed problem :: rest, hs => by
      rw [Workspace.readImportedContents]
      exact h.readImportedContents folder s rest hs
  | .loaded root :: rest, hs => by
      rw [Workspace.readImportedContents]
      exact h.readImportedContents folder _ rest (h.readContents folder s (root ()) hs)

end

end ContentInvariant

/-! ## Solutions -/

theorem written_contentInvariant (w : Workspace) : w.ContentInvariant Solution.Written where
  folder _ _ hs := ⟨hs.profile, hs.projects⟩
  project _ _ _ _ hread hs := by
    have hwritten := written_readProject hread
    exact hs.addProject hwritten

def readTargeted (e : Node) (s : Solution) : Solution :=
  let listed := ((e.first? "platforms").map fun ps => ps.named "platform").getD []
  (readTargets e (listed.foldl (fun s p => (readPlatform s p).value) s)).value

def prepared (w : Workspace) (e : Node) (s : Solution) : Solution :=
  let t := readTargeted e s
  { t with
    profile := t.profile.writeAll (e.layerWrites ⟨w.parameters, t.directory, t.name⟩)
    macros := (w.readMacros e t.macros).value }

theorem readSolutionLayer_value (w : Workspace) (e : Node) (s : Solution) :
    (w.readSolutionLayer e s).value = (w.readContents none (w.prepared e s) e).value := by
  unfold readSolutionLayer prepared readTargeted
  simp only [Logged.bind_value, Logged.foldlM_value, readProfile_value]

theorem bare_readTargeted (e : Node) (s : Solution) : (readTargeted e s).bare = s.bare := by
  unfold readTargeted
  rw [bare_readTargets, foldl_keeps (g := Solution.bare) bare_readPlatform]

theorem prepared_spec (w : Workspace) (e : Node) (s : Solution) :
    (w.prepared e s).header = s.header ∧ (w.prepared e s).projects = s.projects ∧
      (w.prepared e s).profile =
        s.profile.writeAll (e.layerWrites ⟨w.parameters, s.directory, s.name⟩) := by
  unfold prepared
  have hbare := bare_readTargeted e s
  generalize readTargeted e s = t at hbare
  have hheader := Solution.header_of_bare hbare
  have hprofile := congrArg Solution.profile hbare
  have hprojects := congrArg Solution.projects hbare
  have hname := Solution.name_of_header hheader
  have hdirectory := Solution.directory_of_header hheader
  simp only [Solution.bare] at hprofile hprojects
  refine ⟨hheader, hprojects, ?_⟩
  rw [← hname, ← hdirectory, ← hprofile]

theorem written_readSolutionLayer (w : Workspace) {e : Node} {s : Solution} (hs : s.Written) :
    (w.readSolutionLayer e s).value.Written := by
  rw [readSolutionLayer_value]
  apply w.written_contentInvariant.readContents
  obtain ⟨-, hprojects, hprofile⟩ := w.prepared_spec e s
  constructor
  · rw [hprofile]
    apply hs.profile.writeAll
    intro write hwrite
    obtain ⟨n, -, hwrite⟩ := List.mem_flatMap.1 hwrite
    exact wellFormed_profileWrites hwrite
  · rw [hprojects]
    exact hs.projects

/-- Contents keep what the solution is from the start and what it says about configurations. -/
theorem keeping_contentInvariant (w : Workspace) (s : Solution) :
    w.ContentInvariant fun t => t.header = s.header ∧ t.profile = s.profile where
  folder _ _ ht := ht
  project _ _ _ _ _ ht := ht

theorem foldl_readSolutionLayer (w : Workspace) (layers : List Node) (s : Solution) :
    let read := layers.foldl (fun s layer => (w.readSolutionLayer layer s).value) s
    read.header = s.header ∧
      read.profile =
        s.profile.writeAll
          (layers.flatMap (Node.layerWrites ⟨w.parameters, s.directory, s.name⟩)) := by
  induction layers generalizing s with
  | nil => exact ⟨rfl, rfl⟩
  | cons layer rest ih =>
      obtain ⟨hheader, -, hprofile⟩ := w.prepared_spec layer s
      obtain ⟨hlayerHeader, hlayerProfile⟩ :=
        (w.keeping_contentInvariant (w.prepared layer s)).readContents none _ layer ⟨rfl, rfl⟩
      rw [← readSolutionLayer_value] at hlayerHeader hlayerProfile
      have hsame := hlayerHeader.trans hheader
      obtain ⟨hrest, hwritten⟩ := ih (w.readSolutionLayer layer s).value
      rw [Solution.directory_of_header hsame, Solution.name_of_header hsame, hlayerProfile,
        hprofile] at hwritten
      refine ⟨hrest.trans hsame, hwritten.trans ?_⟩
      simp [Profile.writeAll]

theorem readSolution_value (w : Workspace) (e : Node) :
    (w.readSolution e).value =
      (e.attribute? "name").map fun name =>
        e.elements.foldl (fun s layer => (w.readSolutionLayer layer s).value)
          (.named name (w.outputFile e.directory name "sln") e.directory) := by
  unfold readSolution
  cases e.attribute? "name" with
  | none => rfl
  | some name =>
      simp only [Logged.bind_value, Logged.pure_value, Node.readLayers_value]
      rfl

theorem readSolution_spec {w : Workspace} {e : Node} {s : Solution}
    (h : (w.readSolution e).value = some s) :
    e.attribute? "name" = some s.name ∧ s.directory = e.directory ∧
      s.profile = Profile.empty.writeAll (e.ownerWrites ⟨w.parameters, e.directory, s.name⟩) := by
  rw [readSolution_value] at h
  obtain ⟨name, hname, rfl⟩ := Option.map_eq_some_iff.1 h
  obtain ⟨hheader, hprofile⟩ := w.foldl_readSolutionLayer e.elements
    (.named name (w.outputFile e.directory name "sln") e.directory)
  have hread := Solution.name_of_header hheader
  refine ⟨?_, Solution.directory_of_header hheader, ?_⟩
  · rw [hread]
    exact hname
  · rw [hprofile, hread]
    rfl

theorem written_readSolution {w : Workspace} {e : Node} {s : Solution}
    (h : (w.readSolution e).value = some s) : s.Written := by
  rw [readSolution_value] at h
  obtain ⟨name, -, rfl⟩ := Option.map_eq_some_iff.1 h
  have hstart := Solution.written_named name (w.outputFile e.directory name "sln") e.directory
  revert hstart
  generalize Solution.named name _ e.directory = s
  induction e.elements generalizing s with
  | nil => exact id
  | cons layer rest ih => exact fun hs => ih _ (w.written_readSolutionLayer hs)

end Workspace

/-! ## Root documents -/

namespace Description

variable {fs : FileSystem} {workingDirectory path : Path} {bindings : List (String × String)}
  {d : Logged Description}

/-- What is read when a description can be: the document at the path, seen from the working
directory. -/
theorem read_eq_readSolutions (h : read fs workingDirectory path bindings = .ok d) :
    let document := (workingDirectory.join path).normalize
    ∃ (text : String) (root : Xml.Element) (parameters : Parameters)
      (hopen : (fs.read document).isOk),
      fs.read document = .ok text ∧ Xml.parse text = .ok root ∧
        d = (do
          let solutions ←
            readSolutions parameters (.single document hopen) document.parentOrEmpty root
          pure ⟨document, outputDirectoryOf document.parentOrEmpty root, parameters,
            solutions⟩) := by
  unfold read at h
  simp only at h
  split at h
  · cases h
  · split at h
    · cases h
    · next text hread =>
        split at h
        · cases h
        · next root hparse =>
            cases hparameters : Parameters.ofDocument root bindings with
            | error e =>
                rw [hparameters] at h
                cases h
            | ok parameters =>
                rw [hparameters] at h
                obtain rfl := Except.ok.inj h
                exact ⟨text, root, parameters, by rw [hread]; rfl, hread, hparse, rfl⟩

/-- A description that is read comes from a readable root document, which is the only document that
is open when its solutions are loaded. -/
theorem read_eq_ok (h : read fs workingDirectory path bindings = .ok d) :
    ∃ (document : Path) (text : String) (root : Xml.Element) (parameters : Parameters)
      (hopen : (fs.read document).isOk),
      document.normalize = document ∧ fs.read document = .ok text ∧ Xml.parse text = .ok root ∧
        d = (do
          let solutions ←
            readSolutions parameters (.single document hopen) document.parentOrEmpty root
          pure ⟨document, outputDirectoryOf document.parentOrEmpty root, parameters,
            solutions⟩) := by
  obtain ⟨text, root, parameters, hopen, hread, hparse, hd⟩ := read_eq_readSolutions h
  exact ⟨_, text, root, parameters, hopen, Path.normalize_normalize _, hread, hparse, hd⟩

def workspace (fs : FileSystem) (d : Description) : Workspace :=
  ⟨fs, d.parameters, d.root.parentOrEmpty, d.outputDirectory⟩

theorem root_of_read (h : read fs workingDirectory path bindings = .ok d) :
    d.value.root = (workingDirectory.join path).normalize ∧ (fs.read d.value.root).isOk ∧
      ∃ root, d.value.outputDirectory = outputDirectoryOf d.value.root.parentOrEmpty root := by
  obtain ⟨text, root, parameters, hopen, -, -, rfl⟩ := read_eq_readSolutions h
  exact ⟨rfl, hopen, root, rfl⟩

theorem exists_load_of_read (h : read fs workingDirectory path bindings = .ok d) {s : Solution}
    (hs : s ∈ d.value.solutions) :
    ∃ (opened : OpenDocuments fs) (e : Xml.Element),
      ((d.value.workspace fs).readSolution
        (Node.load d.value.parameters opened d.value.root.parentOrEmpty e)).value = some s := by
  obtain ⟨text, root, parameters, hopen, -, -, rfl⟩ := read_eq_readSolutions h
  simp only [Logged.bind_value, Logged.pure_value, readSolutions, Logged.mapM_value,
    List.reduceOption_mem_iff, List.mem_map] at hs
  obtain ⟨e, -, hread⟩ := hs
  exact ⟨_, e, hread⟩

end Description

end SolutionPlan
