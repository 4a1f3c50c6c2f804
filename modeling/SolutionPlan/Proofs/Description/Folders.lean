import SolutionPlan.Proofs.Description.Solutions

/-!
# Folders as they are read

A folder is added before all that lies in it. So it stands before the folders in it, and nothing
lies in a folder that is not there.
-/

namespace SolutionPlan

namespace Solution

variable {s : Solution} {folder : Option Nat}

def HasFolder (s : Solution) (folder : Option Nat) : Prop := ∀ i ∈ folder, i < s.folders.length

theorem HasFolder.addFolder (h : s.HasFolder folder) (f : Folder) :
    (s.addFolder f).HasFolder folder := by
  intro i hi
  have hlt := h i hi
  simp only [Solution.addFolder, List.length_append]
  omega

theorem hasFolder_addFolder (s : Solution) (f : Folder) :
    (s.addFolder f).HasFolder (some s.folders.length) := by
  intro i hi
  obtain rfl := Option.some.inj hi
  simp [Solution.addFolder]

/-- Every folder lies in one before it, and every project in one that is there. -/
structure Nested (s : Solution) : Prop where
  folders : ∀ (i : Nat) (f : Folder), s.folders[i]? = some f → ∀ parent ∈ f.parent, parent < i
  projects : ∀ p ∈ s.projects, s.HasFolder p.folder

theorem nested_named (name : String) (path directory : Path) :
    (named name path directory).Nested := by
  constructor
  · intro i f hf
    simp [named] at hf
  · intro p hp
    simp [named] at hp

theorem Nested.addFolder (hs : s.Nested) {f : Folder} (hf : s.HasFolder f.parent) :
    (s.addFolder f).Nested := by
  constructor
  · intro i g hg
    rcases Nat.lt_or_ge i s.folders.length with hlt | hge
    · rw [Solution.addFolder, List.getElem?_append_left hlt] at hg
      exact hs.folders i g hg
    · rw [Solution.addFolder, List.getElem?_append_right hge] at hg
      obtain rfl := List.mem_singleton.1 (List.mem_of_getElem? hg)
      exact fun parent hparent => Nat.lt_of_lt_of_le (hf parent hparent) hge
  · exact fun p hp => (hs.projects p hp).addFolder f

theorem Nested.addProject (hs : s.Nested) {p : Project} (hp : s.HasFolder p.folder) :
    (s.addProject p).Nested := by
  constructor
  · exact hs.folders
  · intro q hq
    rcases List.mem_append.1 hq with hold | hadded
    · exact hs.projects q hold
    · obtain rfl := List.mem_singleton.1 hadded
      exact hp

end Solution

namespace Workspace

theorem hasFolder_contentInvariant (w : Workspace) (folder : Option Nat) :
    w.ContentInvariant fun s => s.HasFolder folder where
  folder _ f hs := hs.addFolder f
  project _ _ _ _ _ hs := hs

theorem nested_readProjects (w : Workspace) {folder : Option Nat} {s : Solution}
    (hfolder : s.HasFolder folder) (es : List Node) (hs : s.Nested) :
    (w.readProjects folder s es).value.Nested := by
  unfold readProjects
  rw [Logged.foldlM_value]
  induction es.filter (fun e => e.name == "project") generalizing s with
  | nil => exact hs
  | cons e rest ih =>
      rw [List.foldl_cons]
      simp only [Logged.bind_value, Logged.pure_value]
      cases (w.readProject e).value with
      | none => exact ih hfolder hs
      | some p => exact ih hfolder (hs.addProject hfolder)

mutual

theorem nested_readContents (w : Workspace) {folder : Option Nat} {s : Solution}
    (hfolder : s.HasFolder folder) :
    (e : Node) → s.Nested → (w.readContents folder s e).value.Nested
  | .mk tag directory children imports, hs => by
      rw [readContents]
      have hkept := (w.hasFolder_contentInvariant folder).readFolders folder s children hfolder
      exact w.nested_readProjects hkept children (w.nested_readFolders hfolder children hs)

theorem nested_readFolders (w : Workspace) {folder : Option Nat} {s : Solution}
    (hfolder : s.HasFolder folder) :
    (es : List Node) → s.Nested → (w.readFolders folder s es).value.Nested
  | [], hs => by
      rw [readFolders]
      exact hs
  | .mk tag directory children imports :: rest, hs => by
      obtain ⟨name, hvalue⟩ := ContentInvariant.readFolders_cons_value (w := w) folder s
        (.mk tag directory children imports) rest
      have hinvariant := w.hasFolder_contentInvariant
      have hplace := s.hasFolder_addFolder ⟨name, folder⟩
      have houter := hfolder.addFolder ⟨name, folder⟩
      rw [hvalue]
      split
      · apply w.nested_readFolders
        · exact (hinvariant _).readContents _ _ _ ((hinvariant _).readImportedContents _ _ _ houter)
        · apply w.nested_readContents
          · exact (hinvariant _).readImportedContents _ _ _ hplace
          · exact w.nested_readImportedContents hplace imports (hs.addFolder hfolder)
      · exact w.nested_readFolders hfolder rest hs

theorem nested_readImportedContents (w : Workspace) {folder : Option Nat} {s : Solution}
    (hfolder : s.HasFolder folder) :
    (roots : List Imported) → s.Nested → (w.readImportedContents folder s roots).value.Nested
  | [], hs => by
      rw [readImportedContents]
      exact hs
  | .failed problem :: rest, hs => by
      rw [readImportedContents]
      exact w.nested_readImportedContents hfolder rest hs
  | .loaded root :: rest, hs => by
      rw [readImportedContents]
      have hkept := (w.hasFolder_contentInvariant folder).readContents folder s (root ()) hfolder
      exact w.nested_readImportedContents hkept rest (w.nested_readContents hfolder (root ()) hs)

end

theorem nested_readSolution {w : Workspace} {e : Node} {s : Solution}
    (h : (w.readSolution e).value = some s) : s.Nested := by
  rw [readSolution_value] at h
  obtain ⟨name, -, rfl⟩ := Option.map_eq_some_iff.1 h
  apply List.foldlRecOn (motive := Solution.Nested)
  · exact Solution.nested_named _ _ _
  · intro s hs layer _
    have houtside : (w.prepared layer s).HasFolder none := fun i hi => nomatch hi
    rw [readSolutionLayer_value]
    apply w.nested_readContents houtside
    have hfolders : (w.prepared layer s).folders = s.folders := by
      have hbare := congrArg Solution.folders (bare_readTargeted layer s)
      exact hbare
    obtain ⟨-, hprojects, -⟩ := w.prepared_spec layer s
    constructor
    · rw [hfolders]
      exact hs.folders
    · unfold Solution.HasFolder
      rw [hfolders, hprojects]
      exact hs.projects

end Workspace

end SolutionPlan
