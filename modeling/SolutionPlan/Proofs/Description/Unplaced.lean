import SolutionPlan.Proofs.Description.Filters
import SolutionPlan.Proofs.Description.Solutions
import SolutionPlan.Proofs.Solution.Places

/-!
# Sources as they are read

Reading finds the files of a project and their filters. Targets and sub-filters are left to
resolution, and so what the sources of a solution refer to exists whatever targets there are.
-/

namespace SolutionPlan

/-- What sources refer to exists, and only authored projects have any. -/
structure Project.AsRead (p : Project) : Prop where
  inRange : ∀ targets, p.InRange targets
  external : p.external = true → p.sources = []

/-- There is a target for sources that nothing claims, and all projects are as they were read. -/
structure Solution.AsRead (s : Solution) : Prop where
  targets : 0 < s.targets.length
  projects : ∀ p ∈ s.projects, p.AsRead

namespace Workspace

/-! ## Projects -/

theorem fresh_readFilter (w : Workspace) {p : Project} (hp : p.Fresh) (e : Node) :
    (w.readFilter p e).value.Fresh := by
  rw [readFilter_value]
  cases e.attribute? "name" with
  | none => exact hp
  | some name => exact hp.addFiltered _ _ _

theorem fresh_readProjectLayer (w : Workspace) (origin : Path) (layer : Node) {p : Project}
    (hp : p.Fresh) : (w.readProjectLayer origin layer p).value.Fresh := by
  obtain ⟨macros, references, heq⟩ := w.readProjectLayer_value origin layer p
  rw [heq]
  have hstart : { p with
      profile := p.profile.writeAll (layer.layerWrites ⟨w.parameters, origin, p.name⟩),
      macros := macros }.Fresh := hp
  have hread := List.foldlRecOn (motive := Project.Fresh) (layer.named "filter")
    (fun p f => (w.readFilter p f).value) hstart fun q hq f _ => w.fresh_readFilter hq f
  exact hread

theorem fresh_readAuthored {w : Workspace} {e : Node} {p : Project}
    (h : (w.readAuthored e).value = some p) : p.Fresh := by
  rw [readAuthored_value] at h
  obtain ⟨name, -, rfl⟩ := Option.map_eq_some_iff.1 h
  apply List.foldlRecOn (motive := Project.Fresh)
  · simp [Project.Fresh, declared, Project.authored]
  · exact fun q hq layer _ => w.fresh_readProjectLayer e.directory layer hq

theorem asRead_readAuthored {w : Workspace} {e : Node} {p : Project}
    (h : (w.readAuthored e).value = some p) : p.AsRead := by
  have hfresh := fresh_readAuthored h
  have hholds := holds_readAuthored h
  constructor
  · exact hfresh.inRange hholds.distinct hholds.filter_lt
  · obtain ⟨name, -, hheader, -⟩ := readAuthored_spec h
    have hexternal : p.external = false := congrArg Project.external hheader
    simp [hexternal]

theorem readExternal_sources {w : Workspace} {path : Path} {p : Project}
    (h : w.readExternal path = .ok p) : p.sources = [] := by
  unfold readExternal at h
  repeat' split at h
  all_goals cases h
  rfl

theorem asRead_readProject {w : Workspace} {e : Node} {p : Project}
    (h : (w.readProject e).value = some p) : p.AsRead := by
  unfold readProject at h
  cases hexternal : e.attribute? "external" with
  | none =>
      rw [hexternal] at h
      exact asRead_readAuthored h
  | some external =>
      rw [hexternal] at h
      simp only at h
      split at h
      · next hread =>
          obtain rfl := Option.some.inj h
          have hnone := readExternal_sources hread
          refine ⟨?_, fun _ => hnone⟩
          intro targets
          refine ⟨?_, ?_⟩ <;> simp [Project.DistinctPaths, hnone]
      · cases h

/-! ## Solutions -/

theorem asRead_contentInvariant (w : Workspace) : w.ContentInvariant Solution.AsRead where
  folder _ _ hs := ⟨hs.targets, hs.projects⟩
  project s e p folder hread hs := by
    refine ⟨hs.targets, ?_⟩
    intro q hq
    rcases List.mem_append.1 hq with hold | hadded
    · exact hs.projects q hold
    · obtain rfl := List.mem_singleton.1 hadded
      have hp := asRead_readProject hread
      exact ⟨fun targets => ⟨(hp.inRange targets).distinct, (hp.inRange targets).sources⟩,
        hp.external⟩

private theorem length_modifyFirst {α : Type} (p : α → Bool) (f : α → α) (l : List α) :
    (modifyFirst p f l).length = l.length := by
  have hmap := map_modifyFirst (p := p) (f := f) (g := fun _ => ()) (fun _ => rfl) l
  simpa using congrArg List.length hmap

theorem targets_updateTarget {s : Solution} (hs : 0 < s.targets.length) (name : String)
    (f : Target → Target) : 0 < (s.updateTarget name f).targets.length := by
  unfold Solution.updateTarget Solution.ensureTarget
  rw [length_modifyFirst]
  split
  · exact hs
  · simp

theorem targets_readPredefined (e : Node) {s : Solution} (hs : 0 < s.targets.length)
    (entry : String × String) : 0 < (readPredefined e s entry).targets.length := by
  unfold readPredefined
  split
  · exact hs
  · exact targets_updateTarget hs entry.2 _

theorem targets_readCustomTarget (e : Node) {s : Solution} (hs : 0 < s.targets.length) :
    0 < (readCustomTarget e s).value.targets.length := by
  unfold readCustomTarget
  cases e.attribute? "name" with
  | none => exact hs
  | some name =>
      simp only
      split
      · exact targets_updateTarget hs name _
      · exact targets_updateTarget hs name _

theorem targets_readTargets (e : Node) {s : Solution} (hs : 0 < s.targets.length) :
    0 < (readTargets e s).value.targets.length := by
  unfold readTargets
  cases e.first? "targets" with
  | none => exact hs
  | some targets =>
      simp only [Node.readLayers_value, Logged.foldlM_value]
      apply List.foldlRecOn (motive := fun s : Solution => 0 < s.targets.length) _ _ hs
      intro s hs layer _
      apply List.foldlRecOn (motive := fun s : Solution => 0 < s.targets.length)
      · exact List.foldlRecOn (motive := fun s : Solution => 0 < s.targets.length) _ _ hs
          fun s hs entry _ => targets_readPredefined layer hs entry
      · exact fun s hs custom _ => targets_readCustomTarget custom hs

theorem targets_readPlatform (s : Solution) (e : Node) :
    (readPlatform s e).value.targets = s.targets := by
  unfold readPlatform Solution.addPlatform
  cases platform? e.text with
  | none => rfl
  | some platform =>
      simp only [Logged.pure_value]
      split <;> rfl

theorem targets_readTargeted (e : Node) {s : Solution} (hs : 0 < s.targets.length) :
    0 < (readTargeted e s).targets.length := by
  unfold readTargeted
  apply targets_readTargets
  rw [foldl_keeps (g := Solution.targets) targets_readPlatform]
  exact hs

theorem asRead_readSolutionLayer (w : Workspace) (layer : Node) {s : Solution} (hs : s.AsRead) :
    (w.readSolutionLayer layer s).value.AsRead := by
  rw [readSolutionLayer_value]
  apply w.asRead_contentInvariant.readContents
  constructor
  · exact targets_readTargeted layer hs.targets
  · obtain ⟨-, hprojects, -⟩ := w.prepared_spec layer s
    rw [hprojects]
    exact hs.projects

theorem asRead_readSolution {w : Workspace} {e : Node} {s : Solution}
    (h : (w.readSolution e).value = some s) : s.AsRead := by
  rw [readSolution_value] at h
  obtain ⟨name, -, rfl⟩ := Option.map_eq_some_iff.1 h
  apply List.foldlRecOn (motive := Solution.AsRead)
  · exact ⟨by simp [Solution.named], by simp [Solution.named]⟩
  · exact fun s hs layer _ => w.asRead_readSolutionLayer layer hs

end Workspace

end SolutionPlan
