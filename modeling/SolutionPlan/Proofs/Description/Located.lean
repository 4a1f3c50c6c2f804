import SolutionPlan.Proofs.Description.Anchored
import SolutionPlan.Proofs.Description.Unplaced
import SolutionPlan.Proofs.Resolution.Located

/-!
# Where what is read lies

An output file ends in an extension, so it is not the root, wherever the description puts it. The
other paths of a solution are resolved in canonical directories or found by a search in one.
-/

namespace SolutionPlan

/-- Files are searched among files, and the output has an absolute place. -/
structure Workspace.Anchored (w : Workspace) : Prop where
  files : w.fs.HasInnerFiles
  output : w.outputDirectory.isAbsolute = true

namespace Workspace

variable {w : Workspace}

theorem inner_outputFile (hw : w.Anchored) (directory : Path) (name : String) {ext : String}
    (hslash : '/' ∉ ext.toList) (hlength : 2 ≤ ext.toList.length) :
    (w.outputFile directory name ext).Inner := by
  have hext : '/' ∉ '.' :: ext.toList := by simpa using hslash
  have htext : Path.mk (Text.lowercase name ++ "." ++ ext) =
      Path.ofList ((Text.lowercase name).toList ++ '.' :: ext.toList) := by
    simp [Path.ofList, String.append_assoc]
  obtain ⟨front, last, hsteps⟩ := Path.exists_steps_append_name (Text.lowercase name).toList hext
    (by rw [List.length_cons]; omega)
  unfold outputFile
  apply Path.inner_normalize
  · exact Path.isAbsolute_join (Path.isAbsolute_join hw.output _) _
  · obtain ⟨before, hjoin⟩ := Path.exists_steps_join
      (w.outputDirectory.join (directory.relativeTo w.rootDirectory))
      ⟨Text.lowercase name ++ "." ++ ext⟩
    apply Path.ne_root_of_getLast?
    apply Path.getLast?_normal_of_steps
    rw [hjoin, htext, hsteps, List.append_assoc]

/-! ## Projects -/

theorem canonical_filter {sourceRoot : Path} (h : sourceRoot.Canonical) (name : String)
    (e : Node) : (e.filter sourceRoot name).root.Canonical := by
  unfold Node.filter
  cases e.attribute? "root" with
  | none => exact h
  | some root =>
      simp only
      exact Path.canonical_resolve h.absolute root

theorem inner_of_mem_matched (hw : w.Anchored) {f : Filter} (hf : f.root.Canonical)
    {name : String} {e : Node} : ∀ p ∈ w.matched f name e, p.Inner := by
  intro p hp
  obtain ⟨child, -, hp⟩ := List.mem_flatMap.1 hp
  unfold expandFiles at hp
  cases hfiles : child.attribute? "files" with
  | none =>
      simp only [hfiles] at hp
      cases hp
  | some files =>
      simp only [hfiles, Logged.bind_value] at hp
      split at hp
      · next found hfound => exact hw.files.find _ _ _ found hf.absolute hfound p hp
      · cases hp
      · cases hp

end Workspace

namespace Project

theorem Located.exclude {p : Project} (hp : p.Located) (path : Path) (filter : Nat) :
    (p.exclude path filter).Located := by
  unfold Project.exclude
  split
  · refine ⟨hp.path, hp.sourceRoot, hp.filters, ?_⟩
    intro key hkey
    obtain ⟨s, hs, rfl⟩ := List.mem_map.1 hkey
    exact hp.sources _ (List.mem_map_of_mem (List.mem_of_mem_eraseP hs))
  · exact hp

theorem Located.addFiltered {p : Project} (hp : p.Located) {f : Filter} (hf : f.root.Canonical)
    {included : List Path} (hincluded : ∀ file ∈ included, file.Inner) (excluded : List Path) :
    (p.addFiltered f included excluded).Located := by
  unfold Project.addFiltered includeAll excludeAll
  apply List.foldlRecOn (motive := Located)
  · apply List.foldlRecOn (motive := Located)
    · exact hp.addFilter hf
    · intro q hq file hfile
      have hinner := hincluded file hfile
      exact hq.insertSource _ hinner.toCanonical fun _ => hinner
  · exact fun q hq file _ => hq.exclude file _

end Project

namespace Workspace

variable {w : Workspace}

theorem located_readFilter (hw : w.Anchored) {p : Project} (hp : p.Located) (e : Node) :
    (w.readFilter p e).value.Located := by
  rw [readFilter_value]
  cases e.attribute? "name" with
  | none => exact hp
  | some name =>
      have hroot := canonical_filter hp.sourceRoot name e
      exact hp.addFiltered hroot (inner_of_mem_matched hw hroot) _

theorem located_readProjectLayer (hw : w.Anchored) (origin : Path) (layer : Node) {p : Project}
    (hp : p.Located) : (w.readProjectLayer origin layer p).value.Located := by
  obtain ⟨macros, references, heq⟩ := w.readProjectLayer_value origin layer p
  rw [heq]
  have hstart : { p with
      profile := p.profile.writeAll (layer.layerWrites ⟨w.parameters, origin, p.name⟩),
      macros := macros }.Located := hp.congr rfl
  have hread := List.foldlRecOn (motive := Project.Located) (layer.named "filter")
    (fun p f => (w.readFilter p f).value) hstart fun q hq f _ => located_readFilter hw hq f
  exact hread.congr rfl

theorem located_declared (hw : w.Anchored) (name : String) {e : Node} (he : e.Anchored) :
    (w.declared name e).Located := by
  have hpath : (w.outputFile e.directory name "vcxproj").Inner :=
    inner_outputFile hw e.directory name (by decide) (by decide)
  have hroot : (sourceRootOf e.directory (e.attribute? "root")).Canonical := by
    unfold sourceRootOf
    cases e.attribute? "root" with
    | none => exact he.directory
    | some root =>
        simp only
        split
        · exact he.directory
        · exact Path.canonical_resolve he.directory.absolute root
  unfold declared Project.authored
  refine ⟨?_, ?_, nofun, nofun⟩
  · simp only
    exact hpath
  · simp only
    exact hroot

theorem located_readAuthored (hw : w.Anchored) {e : Node} (he : e.Anchored) {p : Project}
    (h : (w.readAuthored e).value = some p) : p.Located := by
  rw [readAuthored_value] at h
  obtain ⟨name, -, rfl⟩ := Option.map_eq_some_iff.1 h
  apply List.foldlRecOn (motive := Project.Located)
  · exact located_declared hw name he
  · exact fun q hq layer _ => located_readProjectLayer hw e.directory layer hq

theorem located_readExternal {path : Path} (hpath : path.Canonical) {p : Project}
    (h : w.readExternal path = .ok p) : p.Located := by
  unfold readExternal at h
  cases hkind : path.extension?.bind ProjectKind.ofExtension? with
  | none =>
      rw [hkind] at h
      cases h
  | some kind =>
      rw [hkind] at h
      have hinner : path.Inner := by
        refine ⟨hpath, ?_⟩
        intro hroot
        unfold Path.extension? Path.fileName? at hkind
        rw [hpath.components_eq, hroot] at hkind
        cases hkind
      simp only at h
      repeat' split at h
      all_goals cases h
      exact ⟨hinner, hinner.parentOrEmpty, nofun, nofun⟩

theorem located_readProject (hw : w.Anchored) {e : Node} (he : e.Anchored) {p : Project}
    (h : (w.readProject e).value = some p) : p.Located := by
  unfold readProject at h
  cases hexternal : e.attribute? "external" with
  | none =>
      rw [hexternal] at h
      exact located_readAuthored hw he h
  | some external =>
      rw [hexternal] at h
      simp only at h
      split at h
      · next hread =>
          obtain rfl := Option.some.inj h
          exact located_readExternal (Path.canonical_resolve he.directory.absolute external) hread
      · cases h

end Workspace

/-! ## Targets -/

def Target.Located (t : Target) : Prop := ∀ definition ∈ t.definition, definition.Canonical

theorem Target.Located.congr {t u : Target} (ht : t.Located)
    (h : u.definition = t.definition) : u.Located := by
  unfold Target.Located
  rw [h]
  exact ht

theorem Target.definition_addExtension (t : Target) (text : String) :
    (t.addExtension text).definition = t.definition := by
  unfold addExtension
  simp only
  split <;> rfl

theorem Target.definition_addExtensions (t : Target) (es : List Node) :
    (es.foldl (fun t e => t.addExtension e.text) t).definition = t.definition := by
  induction es generalizing t with
  | nil => rfl
  | cons e rest ih => rw [List.foldl_cons, ih, definition_addExtension]

section Targets

variable {s : Solution} (hs : ∀ t ∈ s.targets, t.Located)

include hs

theorem located_updateTarget (name : String) {f : Target → Target}
    (hf : ∀ t, t.Located → (f t).Located) : ∀ t ∈ (s.updateTarget name f).targets, t.Located := by
  have hensured : ∀ t ∈ (s.ensureTarget name).targets, t.Located := by
    unfold Solution.ensureTarget
    split
    · exact hs
    · intro t ht
      rcases List.mem_append.1 ht with hold | hadded
      · exact hs t hold
      · obtain rfl := List.mem_singleton.1 hadded
        exact nofun
  intro t ht
  rcases mem_modifyFirst ht with hold | ⟨u, hu, -, rfl⟩
  · exact hensured t hold
  · exact hf u (hensured u hu)

theorem located_readPredefined (e : Node) (entry : String × String) :
    ∀ t ∈ (readPredefined e s entry).targets, t.Located := by
  unfold readPredefined
  split
  · exact hs
  · exact located_updateTarget hs entry.2 fun t ht => ht.congr (t.definition_addExtensions _)

theorem located_readCustomTarget {e : Node} (he : e.Anchored) :
    ∀ t ∈ (readCustomTarget e s).value.targets, t.Located := by
  have hdefined {t u : Target} (ht : t.Located)
      (h : u.definition = t.definition ∨ ∃ text, u.definition = some (e.resolve text)) :
      u.Located := by
    rcases h with h | ⟨text, h⟩
    · exact ht.congr h
    · intro path hpath
      rw [h] at hpath
      obtain rfl := Option.some.inj hpath
      exact Path.canonical_resolve he.directory.absolute text
  unfold readCustomTarget
  cases e.attribute? "name" with
  | none => exact hs
  | some name =>
      simp only
      split
      · apply located_updateTarget hs name
        intro t ht
        refine (hdefined ht ?_).congr (Target.definition_addExtension _ e.text)
        cases e.attribute? "definition" with
        | none => exact .inl rfl
        | some definition => exact .inr ⟨definition, rfl⟩
      · apply located_updateTarget hs name
        intro t ht
        refine (hdefined ht ?_).congr (Target.definition_addExtensions _ (e.named "extension"))
        cases e.attribute? "definition" with
        | none => exact .inl rfl
        | some definition => exact .inr ⟨definition, rfl⟩

theorem located_readTargets {e : Node} (he : e.Anchored) :
    ∀ t ∈ (readTargets e s).value.targets, t.Located := by
  unfold readTargets
  cases hfirst : e.first? "targets" with
  | none => exact hs
  | some targets =>
      have htargets := he.of_first? hfirst
      simp only [Node.readLayers_value, Logged.foldlM_value]
      apply List.foldlRecOn (motive := fun s : Solution => ∀ t ∈ s.targets, t.Located) _ _ hs
      intro s hs layer hlayer
      apply List.foldlRecOn (motive := fun s : Solution => ∀ t ∈ s.targets, t.Located)
      · exact List.foldlRecOn (motive := fun s : Solution => ∀ t ∈ s.targets, t.Located) _ _ hs
          fun s hs entry _ => located_readPredefined hs layer entry
      · intro s hs custom hcustom
        exact located_readCustomTarget hs ((htargets.of_mem_elements hlayer).of_mem_named hcustom)

theorem located_readTargeted {e : Node} (he : e.Anchored) :
    ∀ t ∈ (Workspace.readTargeted e s).targets, t.Located := by
  unfold Workspace.readTargeted
  apply located_readTargets _ he
  rw [foldl_keeps (g := Solution.targets) Workspace.targets_readPlatform]
  exact hs

end Targets

/-! ## Solutions -/

theorem Project.locations_unplaced (p : Project) : p.unplaced.locations = p.locations := rfl

namespace Workspace

variable {w : Workspace}

theorem located_contentInvariant (w : Workspace) :
    w.ContentInvariant fun s => ∀ t ∈ s.targets, t.Located where
  folder _ _ hs := hs
  project _ _ _ _ _ hs := hs

theorem located_readSolution (hw : w.Anchored) {e : Node} (he : e.Anchored) {s : Solution}
    (h : (w.readSolution e).value = some s) : s.Located := by
  refine ⟨?_, ?_, ?_, ?_⟩
  · rw [readSolution_value] at h
    obtain ⟨name, -, rfl⟩ := Option.map_eq_some_iff.1 h
    have hpath : (w.outputFile e.directory name "sln").Inner :=
      inner_outputFile hw e.directory name (by decide) (by decide)
    rw [Solution.path_of_header (w.foldl_readSolutionLayer e.elements _).1, Solution.path_named]
    exact hpath.toCanonical
  · obtain ⟨-, hdirectory, -⟩ := readSolution_spec h
    rw [hdirectory]
    exact he.directory
  · rw [readSolution_value] at h
    obtain ⟨name, -, rfl⟩ := Option.map_eq_some_iff.1 h
    apply List.foldlRecOn (motive := fun s : Solution => ∀ t ∈ s.targets, t.Located)
    · intro t ht
      obtain rfl := List.mem_singleton.1 ht
      exact nofun
    · intro s hs layer hlayer
      rw [readSolutionLayer_value]
      apply w.located_contentInvariant.readContents
      exact located_readTargeted hs (he.of_mem_elements hlayer)
  · intro p hp
    obtain ⟨n, hn, q, hq, hsame⟩ := exists_contentProject_of_mem h hp
    obtain ⟨layer, hlayer, hn⟩ := List.mem_flatMap.1 hn
    have hanchored := (he.of_mem_elements hlayer).of_mem_projects.1 hn
    have hlocations : p.locations = q.locations := by
      rw [← p.locations_unplaced, ← hsame, q.locations_unplaced]
    exact (located_readProject hw hanchored hq).congr hlocations

end Workspace

/-! ## Root documents -/

namespace Description

section Read

variable {fs : FileSystem} {workingDirectory path : Path} {bindings : List (String × String)}
  {d : Logged Description} (hpath : (workingDirectory.join path).isAbsolute = true)
  (h : read fs workingDirectory path bindings = .ok d)

include hpath h

theorem canonical_directory (hfs : fs.HasInnerDocuments) :
    d.value.root.parentOrEmpty.Canonical := by
  obtain ⟨hroot, hopen, -⟩ := root_of_read h
  have hcanonical : d.value.root.Canonical := by
    rw [hroot]
    exact Path.canonical_normalize hpath
  exact Path.Inner.parentOrEmpty ⟨hcanonical, hfs _ hopen⟩

theorem isAbsolute_outputDirectory (hfs : fs.HasInnerDocuments) :
    d.value.outputDirectory.isAbsolute = true := by
  have hdirectory := canonical_directory hpath h hfs
  obtain ⟨-, -, root, houtput⟩ := root_of_read h
  rw [houtput]
  unfold outputDirectoryOf
  split
  · exact Path.isAbsolute_resolve hdirectory.absolute _
  · exact hdirectory.absolute

theorem located_of_read (hfs : fs.HasInnerFiles) : ∀ s ∈ d.value.solutions, s.Located := by
  intro s hs
  obtain ⟨opened, e, hread⟩ := exists_load_of_read h hs
  have hloaded := Node.anchored_load hfs.read d.value.parameters opened
    (canonical_directory hpath h hfs.read) e
  have hworkspace : (d.value.workspace fs).Anchored :=
    ⟨hfs, isAbsolute_outputDirectory hpath h hfs.read⟩
  exact Workspace.located_readSolution hworkspace hloaded hread

end Read

end Description

end SolutionPlan
