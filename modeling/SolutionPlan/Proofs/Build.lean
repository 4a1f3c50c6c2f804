import Mathlib.Data.List.ReduceOption
import SolutionPlan.Build
import SolutionPlan.Proofs.Description.Unplaced
import SolutionPlan.Proofs.Resolution.Placement
import SolutionPlan.Proofs.Resolution.References

/-!
# What a build hands on

A build succeeds if its description can be read without an error and no reference dangles. Then
every reference points to a project, every authored project has the configurations of its solution
and every source has its place.
-/

namespace SolutionPlan

namespace Solution

structure Complete (s : Solution) : Prop where
  references : ∀ p ∈ s.projects, ∀ r ∈ p.references,
    ∃ i, r.resolved = some i ∧ s.projectIndex? r.project = some i
  configurations : ∀ p ∈ s.projects, p.external = false →
    ∀ name ∈ s.profile.base.names, name ∈ p.profile.base.names
  sources : ∀ p ∈ s.projects, ∀ source ∈ p.sources, source.Placed p.filters s.targets.length

theorem references_resolve {s : Solution} (h : s.NamesOwnProjects) :
    ∀ p ∈ s.resolve.value.projects, ∀ r ∈ p.references,
      ∃ i, r.resolved = some i ∧ s.resolve.value.projectIndex? r.project = some i := by
  rw [projects_resolve]
  simp only [List.forall_mem_map, references_resolvedProject]
  intro p hp r hr
  obtain ⟨q, hq, hname⟩ := h p hp r hr
  have hfound : (s.projectIndex? r.project).isSome = true := by
    rw [projectIndex?, List.findIdx?_isSome, List.any_eq_true]
    exact ⟨q, hq, beq_iff_eq.2 hname⟩
  obtain ⟨i, hi⟩ := Option.isSome_iff_exists.1 hfound
  exact ⟨i, hi, by rw [projectIndex?_resolve, hi]⟩

theorem configurations_resolve {s : Solution} (hs : s.Written) :
    ∀ p ∈ s.resolve.value.projects, p.external = false →
      ∀ name ∈ s.resolve.value.profile.base.names, name ∈ p.profile.base.names := by
  intro q hq hauthored name hname
  obtain ⟨i, hi⟩ := List.mem_iff_getElem?.1 hq
  obtain ⟨p, hp, -, hprofile⟩ := getElem?_resolve hi hauthored
  have hown := (hs.projects p (List.mem_of_getElem? hp)).base
  have hsolution : name ∈ s.profile.base.names := by
    rw [← hs.profile.base.names_applyShared]
    exact hname
  have hnames : q.profile.base.names =
      p.profile.base.names ++ p.profile.base.missing s.profile.base.names := by
    rw [hprofile]
    exact ConfigurationSet.names_inheritFrom hown hs.profile.base
  rw [hnames, List.mem_append]
  by_cases h : name ∈ p.profile.base.names
  · exact .inl h
  · exact .inr (List.mem_filter.2 ⟨hsolution, by simpa using h⟩)

theorem sources_resolve {s : Solution} (hs : s.AsRead) :
    ∀ p ∈ s.resolve.value.projects, ∀ source ∈ p.sources,
      source.Placed p.filters s.resolve.value.targets.length := by
  have htargets : s.resolve.value.targets = s.targets := rfl
  rw [projects_resolve, htargets, List.forall_mem_map]
  intro p hp source hsource
  have hread := hs.projects p hp
  unfold resolvedProject at hsource ⊢
  simp only at hsource ⊢
  split at hsource
  · -- An external project is passed over, but it has been read without sources.
    next hexternal =>
      have hnone : (resolveIn (s.projects.map Project.name) p).value.sources = [] :=
        hread.external hexternal
      rw [hnone] at hsource
      cases hsource
  · next hauthored =>
      have hrange := hread.inRange s.targets.length
      have hbound : (resolveIn (s.projects.map Project.name) p).value.InRange s.targets.length :=
        ⟨hrange.distinct, hrange.sources⟩
      obtain ⟨hinRange, hsettled⟩ :=
        Project.placed_resolve hs.targets hbound s.profile.applyShared
      rw [if_neg hauthored]
      exact (hinRange.sources source hsource).placed (hsettled source hsource trivial)

theorem complete_resolve {s : Solution} (hread : s.AsRead) (hwritten : s.Written)
    (hnames : s.NamesOwnProjects) : s.resolve.value.Complete :=
  ⟨references_resolve hnames, configurations_resolve hwritten, sources_resolve hread⟩

end Solution

namespace Description

def dangling (d : Description) : List (String × String) := d.solutions.flatMap Solution.dangling

theorem dangling_eq_nil_iff {d : Description} :
    d.dangling = [] ↔ ∀ s ∈ d.solutions, s.NamesOwnProjects := by
  simp [dangling, Solution.dangling_eq_nil_iff]

theorem errors_resolve (d : Description) :
    d.resolve.recorded Problem.isError =
      d.dangling.map fun entry => .unknownReference entry.1 entry.2 := by
  unfold resolve dangling
  rw [Logged.recorded_bind, Logged.recorded_mapM, Logged.recorded_pure, List.append_nil,
    List.map_flatMap]
  congr
  funext s
  exact s.errors_resolve

theorem errorCount_bind_resolve (d : Logged Description) :
    (d >>= resolve).errorCount = d.errorCount + d.value.dangling.length := by
  simp only [Logged.errorCount_eq, Logged.recorded_bind, List.length_append, errors_resolve,
    List.length_map]

theorem exists_readSolution_of_read {fs : FileSystem} {workingDirectory path : Path}
    {bindings : List (String × String)} {d : Logged Description}
    (h : read fs workingDirectory path bindings = .ok d) :
    ∀ s ∈ d.value.solutions, ∃ (w : Workspace) (e : Node), (w.readSolution e).value = some s := by
  intro s hs
  obtain ⟨opened, e, hread⟩ := exists_load_of_read h hs
  exact ⟨_, _, hread⟩

end Description

/-! ## Builds -/

section Builds

variable {fs : FileSystem} {workingDirectory path : Path} {bindings : List (String × String)}

theorem build_of_read_error {e : BuildError}
    (h : Description.read fs workingDirectory path bindings = .error e) :
    build fs workingDirectory path bindings = .error e := by
  unfold build
  rw [h]
  rfl

/-- A build whose description is read fails over errors of reading, fails over dangling references,
or hands on the resolved description. -/
theorem build_cases {d : Logged Description}
    (h : Description.read fs workingDirectory path bindings = .ok d) :
    let built := build fs workingDirectory path bindings
    let all := d >>= Description.resolve
    (d.errorCount ≠ 0 ∧ built = .error (.aborted d.errorCount)) ∨
      (d.errorCount = 0 ∧ d.value.dangling ≠ [] ∧ built = .error (.aborted all.errorCount)) ∨
        (d.errorCount = 0 ∧ d.value.dangling = [] ∧ built = .ok ⟨all.value, all.problems⟩) := by
  intro built all
  have hcount : all.errorCount = d.errorCount + d.value.dangling.length :=
    Description.errorCount_bind_resolve d
  have hbuilt : built =
      if d.errorCount > 0 then .error (.aborted d.errorCount)
      else if all.errorCount > 0 then .error (.aborted all.errorCount)
      else .ok ⟨all.value, all.problems⟩ := by
    simp only [built, build]
    rw [h]
    rfl
  rw [hbuilt]
  by_cases hread : d.errorCount = 0
  · rw [if_neg (by omega)]
    cases hdangling : d.value.dangling with
    | nil =>
        rw [hdangling, List.length_nil] at hcount
        rw [if_neg (by omega)]
        exact .inr (.inr ⟨hread, rfl, rfl⟩)
    | cons entry rest =>
        rw [hdangling, List.length_cons] at hcount
        rw [if_pos (by omega)]
        exact .inr (.inl ⟨hread, by simp, rfl⟩)
  · rw [if_pos (by omega)]
    exact .inl ⟨hread, rfl⟩

theorem build_eq_ok_iff {b : Build} :
    build fs workingDirectory path bindings = .ok b ↔
      ∃ d, Description.read fs workingDirectory path bindings = .ok d ∧ d.errorCount = 0 ∧
        d.value.dangling = [] ∧
          b = ⟨(d >>= Description.resolve).value, (d >>= Description.resolve).problems⟩ := by
  constructor
  · intro hbuilt
    cases hread : Description.read fs workingDirectory path bindings with
    | error e =>
        rw [build_of_read_error hread] at hbuilt
        cases hbuilt
    | ok d =>
        rcases build_cases hread with ⟨-, hcase⟩ | ⟨-, -, hcase⟩ | ⟨herrors, hdangling, hcase⟩
        · rw [hcase] at hbuilt
          cases hbuilt
        · rw [hcase] at hbuilt
          cases hbuilt
        · rw [hcase] at hbuilt
          exact ⟨d, rfl, herrors, hdangling, (Except.ok.inj hbuilt).symm⟩
  · rintro ⟨d, hread, herrors, hdangling, rfl⟩
    rcases build_cases hread with ⟨hne, -⟩ | ⟨-, hne, -⟩ | ⟨-, -, hcase⟩
    · exact absurd herrors hne
    · exact absurd hdangling hne
    · exact hcase

end Builds

/--
A build succeeds exactly if its description is read without an error and every reference names a
project of its own solution. If the description is read but the build fails, it fails with the
number of recorded errors: those of reading if there are any, otherwise one for each dangling
reference. A successful build records warnings only and hands on the resolved solutions, which are
complete.
-/
theorem build_succeeds_iff_complete (fs : FileSystem) (workingDirectory path : Path)
    (bindings : List (String × String)) :
    let read := Description.read fs workingDirectory path bindings
    let built := build fs workingDirectory path bindings
    ((∃ b, built = .ok b) ↔
        ∃ d, read = .ok d ∧ d.errorCount = 0 ∧ ∀ s ∈ d.value.solutions, s.NamesOwnProjects) ∧
      (∀ d e, read = .ok d → built = .error e →
        if d.errorCount = 0 then
          e = .aborted (d >>= Description.resolve).errorCount ∧
            (d >>= Description.resolve).errorCount = d.value.dangling.length
        else e = .aborted d.errorCount) ∧
      ∀ b, built = .ok b →
        (∀ p ∈ b.problems, p.severity = .warning) ∧
          (∃ d, read = .ok d ∧
            b.description.solutions = d.value.solutions.map fun s => s.resolve.value) ∧
          ∀ s ∈ b.description.solutions, s.Complete := by
  intro read built
  refine ⟨?_, ?_, ?_⟩
  · simp only [built, build_eq_ok_iff, Description.dangling_eq_nil_iff]
    constructor
    · rintro ⟨b, d, hread, herrors, hnames, -⟩
      exact ⟨d, hread, herrors, hnames⟩
    · rintro ⟨d, hread, herrors, hnames⟩
      exact ⟨_, d, hread, herrors, hnames, rfl⟩
  · intro d e hread hfailed
    have hcount := Description.errorCount_bind_resolve d
    rcases build_cases hread with ⟨herrors, hcase⟩ | ⟨herrors, -, hcase⟩ | ⟨-, -, hcase⟩
    · rw [if_neg herrors]
      exact (Except.error.inj (hcase.symm.trans hfailed)).symm
    · rw [if_pos herrors]
      rw [herrors, Nat.zero_add] at hcount
      exact ⟨(Except.error.inj (hcase.symm.trans hfailed)).symm, hcount⟩
    · cases hcase.symm.trans hfailed
  · intro b hb
    obtain ⟨d, hread, herrors, hdangling, rfl⟩ := build_eq_ok_iff.1 hb
    have hnames := Description.dangling_eq_nil_iff.1 hdangling
    refine ⟨?_, ⟨d, hread, by simp [Description.resolve]⟩, ?_⟩
    · rw [← Logged.recorded_isError_eq_nil_iff, ← List.length_eq_zero_iff]
      exact (Description.errorCount_bind_resolve d).trans (by simp [herrors, hdangling])
    · intro s hs
      simp only [Description.resolve, Logged.bind_value, Logged.pure_value, Logged.mapM_value,
        List.mem_map] at hs
      obtain ⟨parsed, hparsed, rfl⟩ := hs
      obtain ⟨w, e, hsolution⟩ := Description.exists_readSolution_of_read hread parsed hparsed
      exact Solution.complete_resolve (Workspace.asRead_readSolution hsolution)
        (Workspace.written_readSolution hsolution) (hnames parsed hparsed)

end SolutionPlan
