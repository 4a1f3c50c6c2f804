import SolutionPlan.Description.Projects
import SolutionPlan.Proofs.Description.Settings
import SolutionPlan.Proofs.Solution.Sources

/-!
# Projects as they are read

Reading an authored project keeps what its first element says and writes what all of its layers
say. An external project has an empty profile, so every project that is read has a written one.
-/

namespace SolutionPlan

def Node.filter (sourceRoot : Path) (name : String) (e : Node) : Filter :=
  ⟨name,
    match e.attribute? "root" with
    | some root => sourceRoot.resolve root
    | none => sourceRoot,
    (e.flag "directories" false).value, []⟩

namespace Workspace

/-! ## One layer -/

def matched (w : Workspace) (filter : Filter) (name : String) (e : Node) : List Path :=
  (e.named name).flatMap fun child => (w.expandFiles filter child).value

theorem readFilter_value (w : Workspace) (p : Project) (e : Node) :
    (w.readFilter p e).value =
      ((e.attribute? "name").map (e.filter p.sourceRoot)).elim p fun f =>
        p.addFiltered f (w.matched f "include" e) (w.matched f "exclude" e) := by
  unfold readFilter
  cases e.attribute? "name" with
  | none => rfl
  | some name =>
      simp only [Logged.bind_value, Logged.pure_value, Logged.mapM_value]
      rfl

theorem bare_readFilter (w : Workspace) (p : Project) (e : Node) :
    (w.readFilter p e).value.bare = p.bare := by
  rw [readFilter_value]
  cases e.attribute? "name" with
  | none => rfl
  | some name => exact p.bare_addFiltered _ _ _

theorem readReference_value (p : Project) (e : Node) :
    ∃ references, (readReference p e).value = { p with references := references } := by
  unfold readReference
  cases e.attribute? "project" with
  | none => exact ⟨p.references, rfl⟩
  | some project => exact ⟨_, rfl⟩

theorem readDependency_value (p : Project) (e : Node) :
    ∃ references, (readDependency p e).value = { p with references := references } := by
  unfold readDependency
  cases e.attribute? "project" with
  | none => exact ⟨p.references, rfl⟩
  | some project => exact ⟨_, rfl⟩

private theorem foldl_references {step : Project → Node → Project}
    (hstep : ∀ p e, ∃ references, step p e = { p with references := references })
    (es : List Node) (p : Project) :
    ∃ references, es.foldl step p = { p with references := references } := by
  induction es generalizing p with
  | nil => exact ⟨p.references, rfl⟩
  | cons e rest ih =>
      obtain ⟨first, hfirst⟩ := hstep p e
      obtain ⟨references, hrest⟩ := ih (step p e)
      refine ⟨references, ?_⟩
      rw [List.foldl_cons, hrest, hfirst]

theorem readProjectLayer_value (w : Workspace) (origin : Path) (e : Node) (p : Project) :
    ∃ macros references, (w.readProjectLayer origin e p).value =
      { (e.named "filter").foldl (fun p f => (w.readFilter p f).value)
          { p with profile := p.profile.writeAll (e.layerWrites ⟨w.parameters, origin, p.name⟩),
                   macros := macros } with
        references := references } := by
  unfold readProjectLayer
  simp only [Logged.bind_value, Logged.foldlM_value, readProfile_value]
  refine ⟨(w.readMacros e p.macros).value, ?_⟩
  generalize (e.named "filter").foldl (fun p f => (w.readFilter p f).value) _ = filtered
  obtain ⟨middle, hmiddle⟩ := foldl_references readReference_value (e.named "reference") filtered
  obtain ⟨references, hlast⟩ := foldl_references readDependency_value (e.named "dependency")
    ((e.named "reference").foldl (fun p f => (readReference p f).value) filtered)
  refine ⟨references, ?_⟩
  rw [hlast, hmiddle]

theorem header_readProjectLayer (w : Workspace) (origin : Path) (e : Node) (p : Project) :
    (w.readProjectLayer origin e p).value.header = p.header ∧
      (w.readProjectLayer origin e p).value.profile =
        p.profile.writeAll (e.layerWrites ⟨w.parameters, origin, p.name⟩) := by
  obtain ⟨macros, references, heq⟩ := w.readProjectLayer_value origin e p
  have hbare := foldl_keeps (g := Project.bare) w.bare_readFilter (e.named "filter")
    { p with profile := p.profile.writeAll (e.layerWrites ⟨w.parameters, origin, p.name⟩),
             macros := macros }
  rw [heq]
  constructor
  · have hheader := Project.header_of_bare hbare
    exact hheader
  · exact congrArg Project.profile hbare

/-! ## All layers -/

def sourceRootOf (directory : Path) (root : Option String) : Path :=
  match root with
  | some root => if root = "" then directory else directory.resolve root
  | none => directory

def declared (w : Workspace) (name : String) (e : Node) : Project :=
  .authored name (readKind name e).value (w.outputFile e.directory name "vcxproj")
    (sourceRootOf e.directory (e.attribute? "root"))

theorem readAuthored_value (w : Workspace) (e : Node) :
    (w.readAuthored e).value =
      (e.attribute? "name").map fun name =>
        e.elements.foldl (fun p layer => (w.readProjectLayer e.directory layer p).value)
          (w.declared name e) := by
  unfold readAuthored
  cases e.attribute? "name" with
  | none => rfl
  | some name =>
      simp only [Logged.bind_value, Logged.pure_value, Node.readLayers_value]
      rfl

private theorem foldl_readProjectLayer (w : Workspace) (origin : Path) (layers : List Node)
    (p : Project) :
    let read := layers.foldl (fun p layer => (w.readProjectLayer origin layer p).value) p
    read.header = p.header ∧
      read.profile =
        p.profile.writeAll (layers.flatMap (Node.layerWrites ⟨w.parameters, origin, p.name⟩)) := by
  induction layers generalizing p with
  | nil => exact ⟨rfl, rfl⟩
  | cons layer rest ih =>
      obtain ⟨hheader, hprofile⟩ := w.header_readProjectLayer origin layer p
      obtain ⟨hrest, hwritten⟩ := ih (w.readProjectLayer origin layer p).value
      have hname := Project.name_of_header hheader
      rw [hname, hprofile] at hwritten
      refine ⟨hrest.trans hheader, hwritten.trans ?_⟩
      simp [Profile.writeAll]

theorem readAuthored_spec {w : Workspace} {e : Node} {p : Project}
    (h : (w.readAuthored e).value = some p) :
    ∃ name, e.attribute? "name" = some name ∧ p.header = (w.declared name e).header ∧
      p.profile =
        Profile.empty.writeAll (e.ownerWrites ⟨w.parameters, e.directory, name⟩) := by
  rw [readAuthored_value] at h
  obtain ⟨name, hname, rfl⟩ := Option.map_eq_some_iff.1 h
  obtain ⟨hheader, hprofile⟩ :=
    foldl_readProjectLayer w e.directory e.elements (w.declared name e)
  exact ⟨name, hname, hheader, hprofile⟩

theorem paths_of_readAuthored {w : Workspace} {e : Node} {p : Project}
    (h : (w.readAuthored e).value = some p) :
    p.path = w.outputFile e.directory p.name "vcxproj" ∧
      p.sourceRoot = sourceRootOf e.directory (e.attribute? "root") := by
  obtain ⟨name, -, hheader, -⟩ := readAuthored_spec h
  have hname := Project.name_of_header hheader
  have hpath := Project.path_of_header hheader
  have hroot := Project.sourceRoot_of_header hheader
  unfold declared Project.authored at hname hpath
  simp only at hname hpath
  rw [hname]
  exact ⟨hpath, hroot⟩

theorem sourceRoot_of_readAuthored {w : Workspace} {e : Node} {p : Project}
    (h : (w.readAuthored e).value = some p) :
    p.sourceRoot = sourceRootOf e.directory (e.attribute? "root") :=
  (paths_of_readAuthored h).2

theorem written_readAuthored {w : Workspace} {e : Node} {p : Project}
    (h : (w.readAuthored e).value = some p) : p.profile.Written := by
  obtain ⟨name, -, -, hprofile⟩ := readAuthored_spec h
  rw [hprofile]
  exact written_ownerWrites _ e

theorem exists_readAuthored (w : Workspace) {e : Node} {name : String}
    (h : e.attribute? "name" = some name) : ∃ p, (w.readAuthored e).value = some p := by
  rw [readAuthored_value, h]
  exact ⟨_, rfl⟩

/-! ## Either kind -/

theorem readExternal_profile {w : Workspace} {path : Path} {p : Project}
    (h : w.readExternal path = .ok p) : p.profile = .empty := by
  unfold readExternal at h
  repeat' split at h
  all_goals cases h
  rfl

theorem external_of_readExternal {w : Workspace} {path : Path} {p : Project}
    (h : w.readExternal path = .ok p) : p.external = true := by
  unfold readExternal at h
  repeat' split at h
  all_goals cases h
  rfl

theorem written_readProject {w : Workspace} {e : Node} {p : Project}
    (h : (w.readProject e).value = some p) : p.profile.Written := by
  unfold readProject at h
  cases hexternal : e.attribute? "external" with
  | none =>
      rw [hexternal] at h
      exact written_readAuthored h
  | some external =>
      rw [hexternal] at h
      simp only at h
      split at h
      · next hread =>
          obtain rfl := Option.some.inj h
          rw [readExternal_profile hread]
          exact Profile.written_empty
      · cases h

/-- A workspace in which no document can be read and a pattern finds the file that it spells. -/
def literal (directory : Path) : Workspace where
  fs :=
    { read := fun _ => .error .noEntry
      find := fun root pattern _ => .ok [root.join (.ofDocument pattern)]
      capacity := 0
      length_le_capacity := by
        intro paths _ hread
        cases paths with
        | nil => simp
        | cons path rest =>
            have hfirst := hread path List.mem_cons_self
            cases hfirst }
  parameters := .empty
  rootDirectory := directory
  outputDirectory := directory

end Workspace

end SolutionPlan
