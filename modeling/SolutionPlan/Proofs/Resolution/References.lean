import SolutionPlan.Proofs.Diagnostics
import SolutionPlan.Proofs.Resolution.Frame

/-!
# References that dangle

The only errors of resolution are references that name no project of the solution, one error for
each of them. Everything else that the passes record is a warning.
-/

namespace SolutionPlan

namespace Project

/-! ## Passes without errors -/

theorem errors_claim (targets : List Target) (target : Target) (i : Nat) (p : Project)
    (c : Candidate) : (claim targets target i p c).recorded Problem.isError = [] := by
  unfold claim
  split
  · split
    · rfl
    · simp only
      split <;> rfl
  · rfl

theorem errors_claimRest (targets : List Target) (p : Project) (c : Candidate) :
    (claimRest targets p c).recorded Problem.isError = [] := by
  unfold claimRest
  split <;> rfl

theorem errors_classify (p : Project) (targets : List Target) (generated : Bool) :
    (p.classify targets generated).recorded Problem.isError = [] := by
  unfold classify
  simp only [Logged.recorded_bind]
  rw [Logged.recorded_foldlM_eq_nil, Logged.recorded_foldlM_eq_nil]
  · rfl
  · exact fun c _ p => errors_claimRest targets p c
  · rintro ⟨target, i⟩ _ p
    exact Logged.recorded_foldlM_eq_nil (fun c _ p => errors_claim targets target i p c) p

theorem errors_runGenerator (target : Nat) (p : Project) (g : Generator) :
    (runGenerator target p g).recorded Problem.isError = [] := by
  unfold runGenerator destination
  simp only
  split
  · rfl
  · cases g.filter with
    | none => rfl
    | some name =>
        simp only
        cases p.findFilter? name <;> rfl

theorem errors_generate (p : Project) (targets : List Target) :
    (p.generate targets).recorded Problem.isError = [] := by
  unfold generate
  apply Logged.recorded_foldlM_eq_nil
  rintro ⟨target, i⟩ _ p
  exact Logged.recorded_foldlM_eq_nil (fun g _ p => errors_runGenerator i p g) p

theorem errors_placement (f : Filter) (s : Source) :
    (placement f s).recorded Problem.isError = [] := by
  unfold placement
  simp only
  split <;> rfl

theorem errors_showDirectories (p : Project) (i : Nat) :
    (p.showDirectories i).recorded Problem.isError = [] := by
  unfold showDirectories
  split
  · rfl
  · next f _ =>
      split
      · rw [Logged.recorded_bind,
          Logged.recorded_mapM_eq_nil fun s _ => errors_placement f s]
        rfl
      · rfl

theorem errors_buildDirectories (p : Project) :
    p.buildDirectories.recorded Problem.isError = [] := by
  unfold buildDirectories
  exact Logged.recorded_foldlM_eq_nil (fun i _ p => errors_showDirectories p i) p

theorem errors_resolve (p : Project) (profile : Profile) (targets : List Target) :
    (p.resolve profile targets).recorded Problem.isError = [] := by
  unfold resolve
  simp only [Logged.recorded_bind, errors_classify, errors_generate, errors_buildDirectories]
  rfl

end Project

namespace Solution

/-! ## References -/

def danglingIn (names : List String) (p : Project) : List Reference :=
  p.references.filter fun r => !names.contains r.project

def dangling (s : Solution) : List (String × String) :=
  s.projects.flatMap fun p =>
    (danglingIn (s.projects.map Project.name) p).map fun r => (p.name, r.project)

def NamesOwnProjects (s : Solution) : Prop :=
  ∀ p ∈ s.projects, ∀ r ∈ p.references, ∃ q ∈ s.projects, q.name = r.project

theorem dangling_eq_nil_iff {s : Solution} : s.dangling = [] ↔ s.NamesOwnProjects := by
  simp [dangling, danglingIn, NamesOwnProjects]

theorem errors_resolveReference (names : List String) (project : String) (r : Reference) :
    (resolveReference names project r).recorded Problem.isError =
      if names.contains r.project then [] else [.unknownReference project r.project] := by
  have hnone : (names.findIdx? fun name => name == r.project).isNone =
      !names.contains r.project := by
    rw [Bool.eq_iff_iff]
    simpa [List.findIdx?_isNone] using List.forall_mem_ne'
  unfold resolveReference
  simp only [hnone]
  cases names.contains r.project <;> rfl

theorem errors_resolveIn (names : List String) (p : Project) :
    (resolveIn names p).recorded Problem.isError =
      (danglingIn names p).map fun r => .unknownReference p.name r.project := by
  unfold resolveIn danglingIn
  rw [Logged.recorded_bind, Logged.recorded_mapM, Logged.recorded_pure, List.append_nil]
  induction p.references with
  | nil => rfl
  | cons r rest ih =>
      rw [List.flatMap_cons, ih, errors_resolveReference, List.filter_cons]
      cases names.contains r.project <;> rfl

theorem errors_resolveReferences (s : Solution) :
    s.resolveReferences.recorded Problem.isError =
      s.dangling.map fun d => .unknownReference d.1 d.2 := by
  unfold resolveReferences dangling
  rw [Logged.recorded_bind, Logged.recorded_mapM, Logged.recorded_pure, List.append_nil,
    List.map_flatMap]
  congr
  funext p
  rw [errors_resolveIn, List.map_map]
  rfl

/-- Resolution records one error for each dangling reference and no other error. -/
theorem errors_resolve (s : Solution) :
    s.resolve.recorded Problem.isError =
      s.dangling.map fun d => .unknownReference d.1 d.2 := by
  have hprojects (profile : Profile) (targets : List Target) (ps : List Project) :
      (ps.mapM fun p : Project => if p.external then pure p else p.resolve profile targets).recorded
        Problem.isError = [] := by
    apply Logged.recorded_mapM_eq_nil
    intro p _
    split
    · rfl
    · exact p.errors_resolve profile targets
  unfold resolve
  simp only [Logged.recorded_bind, Logged.recorded_pure, hprojects, errors_resolveReferences,
    List.append_nil]

/-! ## References that are resolved -/

/-- What becomes of a project: its references are resolved, and an authored one is itself. -/
def resolvedProject (s : Solution) (p : Project) : Project :=
  let bound := (resolveIn (s.projects.map Project.name) p).value
  if p.external then bound else (bound.resolve s.profile.applyShared s.targets).value

theorem projects_resolve (s : Solution) :
    s.resolve.value.projects = s.projects.map s.resolvedProject := by
  have hexternal (names : List String) (p : Project) :
      (resolveIn names p).value.external = p.external := rfl
  unfold resolve resolveReferences resolvedProject
  simp only [Logged.bind_value, Logged.pure_value, Logged.mapM_value, List.map_map]
  apply List.map_congr_left
  intro p _
  simp only [Function.comp_apply, hexternal]
  split <;> rfl

theorem resolveReference_value (names : List String) (project : String) (r : Reference) :
    (resolveReference names project r).value =
      { r with resolved := names.findIdx? fun name => name == r.project } := by
  unfold resolveReference
  simp only
  split <;> rfl

/-- Besides its filters and sources, a resolved project differs in its references, which are found
among the projects, and in its profile, if it is authored. -/
theorem bare_resolvedProject (s : Solution) (p : Project) :
    (s.resolvedProject p).bare =
      Project.bare { p with
        references := p.references.map fun r => { r with resolved := s.projectIndex? r.project }
        profile :=
          if p.external then p.profile else p.profile.inheritFrom s.profile.applyShared } := by
  have hbound : (resolveIn (s.projects.map Project.name) p).value =
      { p with references := p.references.map fun r =>
        { r with resolved := s.projectIndex? r.project } } := by
    unfold resolveIn
    simp only [Logged.bind_value, Logged.pure_value, Logged.mapM_value]
    congr 1
    apply List.map_congr_left
    intro r _
    rw [resolveReference_value, projectIndex?, List.findIdx?_map]
    rfl
  unfold resolvedProject
  rw [hbound]
  cases hexternal : p.external with
  | true => simp
  | false => simp [Project.bare_resolve]

theorem name_resolvedProject (s : Solution) (p : Project) :
    (s.resolvedProject p).name = p.name := by
  have hname := congrArg Project.name (s.bare_resolvedProject p)
  exact hname

theorem references_resolvedProject (s : Solution) (p : Project) :
    (s.resolvedProject p).references =
      p.references.map fun r => { r with resolved := s.projectIndex? r.project } := by
  have hreferences := congrArg Project.references (s.bare_resolvedProject p)
  exact hreferences

theorem projectIndex?_resolve (s : Solution) (name : String) :
    s.resolve.value.projectIndex? name = s.projectIndex? name := by
  unfold projectIndex?
  rw [projects_resolve, List.findIdx?_map]
  simp only [Function.comp_def, name_resolvedProject]

end Solution

end SolutionPlan
