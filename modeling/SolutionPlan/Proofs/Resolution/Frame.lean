import SolutionPlan.Proofs.Solution.Sources
import SolutionPlan.Resolution.Basic

/-!
# What resolution leaves as it is

Classification, generation and directory sub-filters work on sources and filters only. Besides
those, a resolved project differs from the one that was read in its references, which point to
projects now, and in its profile, which is under that of the solution.
-/

namespace SolutionPlan

namespace Project

/-! ## Classification -/

theorem eq_of_assignTarget {p q : Project} {path : Path} {target : Nat}
    (h : p.assignTarget path target = .ok q) :
    q = p ∨ q = p.modifySource path fun s => { s with target := some target } := by
  unfold assignTarget at h
  cases hfound : p.findSource? path with
  | none =>
      rw [hfound] at h
      exact .inl (Except.ok.inj h).symm
  | some s =>
      rw [hfound] at h
      cases htarget : s.target with
      | none =>
          simp only [htarget] at h
          exact .inr (Except.ok.inj h).symm
      | some existing =>
          simp only [htarget] at h
          cases h

section Classify

variable {β : Type} {g : Project → β} (h : ∀ (p : Project) (path : Path) (target : Nat),
  g (p.modifySource path fun s => { s with target := some target }) = g p)

include h

theorem assignTarget_keeps {p q : Project} {path : Path} {target : Nat}
    (hassigned : p.assignTarget path target = .ok q) : g q = g p := by
  rcases eq_of_assignTarget hassigned with rfl | rfl
  · rfl
  · exact h p path target

theorem claim_keeps (targets : List Target) (target : Target) (i : Nat) (p : Project)
    (c : Candidate) : g (claim targets target i p c).value = g p := by
  unfold claim
  split
  · cases hassigned : p.assignTarget c.path i with
    | ok q => exact assignTarget_keeps h hassigned
    | error kept =>
        simp only
        split <;> rfl
  · rfl

theorem claimRest_keeps (targets : List Target) (p : Project) (c : Candidate) :
    g (claimRest targets p c).value = g p := by
  unfold claimRest
  cases hassigned : p.assignTarget c.path 0 with
  | ok q => exact assignTarget_keeps h hassigned
  | error kept => rfl

/-- Whatever does not depend on targets is as it was after classification. -/
theorem classify_keeps (p : Project) (targets : List Target) (generated : Bool) :
    g (p.classify targets generated).value = g p := by
  unfold classify
  simp only [Logged.bind_value, Logged.foldlM_value]
  rw [foldl_keeps (claimRest_keeps h targets)]
  apply foldl_keeps
  rintro p ⟨target, i⟩
  rw [foldl_keeps (claim_keeps h targets target i)]

end Classify

theorem bare_classify (p : Project) (targets : List Target) (generated : Bool) :
    (p.classify targets generated).value.bare = p.bare :=
  classify_keeps (fun _ _ _ => rfl) p targets generated

/-! ## Generation -/

theorem bare_addDerived (filter : Option Nat) (p : Project) (d : Derived) :
    (addDerived filter p d).bare = p.bare := by
  unfold addDerived
  split
  · rfl
  · exact p.bare_insertSource d.path (filter.getD d.origin) true

theorem bare_destination (p : Project) (name : String) :
    (p.destination name).value.2.bare = p.bare := by
  unfold destination
  cases p.findFilter? name <;> rfl

theorem bare_runGenerator (target : Nat) (p : Project) (g : Generator) :
    (runGenerator target p g).value.bare = p.bare := by
  unfold runGenerator
  simp only
  split
  · rfl
  · cases g.filter with
    | none => exact foldl_keeps (bare_addDerived none) (p.derived target g) p
    | some name =>
        simp only [Logged.bind_value, Logged.pure_value]
        rw [foldl_keeps (g := bare) (bare_addDerived _), bare_destination]

theorem bare_generate (p : Project) (targets : List Target) :
    (p.generate targets).value.bare = p.bare := by
  unfold generate
  rw [Logged.foldlM_value]
  apply foldl_keeps (g := bare)
  rintro p ⟨target, i⟩
  rw [Logged.foldlM_value, foldl_keeps (g := bare) (bare_runGenerator i)]

/-! ## Directory sub-filters -/

theorem bare_place (filter : Nat) (p : Project) (d : Placement) :
    (place filter p d).bare = p.bare := by
  unfold place
  split
  · rfl
  · split <;> rfl

section BuildDirectories

variable {β : Type} {g : Project → β}
  (h : ∀ (filter : Nat) (p : Project) (d : Placement), g (place filter p d) = g p)

include h

theorem showDirectories_keeps (p : Project) (i : Nat) : g (p.showDirectories i).value = g p := by
  unfold showDirectories
  split
  · rfl
  · split
    · exact foldl_keeps (h i) _ p
    · rfl

theorem buildDirectories_keeps (p : Project) : g p.buildDirectories.value = g p := by
  unfold buildDirectories
  rw [Logged.foldlM_value]
  exact foldl_keeps (showDirectories_keeps h) _ p

end BuildDirectories

theorem bare_buildDirectories (p : Project) : p.buildDirectories.value.bare = p.bare :=
  buildDirectories_keeps bare_place p

/-! ## Resolution -/

theorem bare_resolve (p : Project) (profile : Profile) (targets : List Target) :
    (p.resolve profile targets).value.bare =
      { p with profile := p.profile.inheritFrom profile }.bare := by
  unfold resolve
  simp only [Logged.bind_value]
  rw [bare_buildDirectories, bare_classify, bare_generate, bare_classify]

end Project

namespace Solution

theorem resolveIn_value (names : List String) (p : Project) :
    ∃ references, (resolveIn names p).value = { p with references := references } :=
  ⟨_, rfl⟩

theorem getElem?_resolve {s : Solution} {i : Nat} {q : Project}
    (h : s.resolve.value.projects[i]? = some q) (hauthored : q.external = false) :
    ∃ p, s.projects[i]? = some p ∧ q.header = p.header ∧
      q.profile = p.profile.inheritFrom s.profile.applyShared := by
  unfold resolve resolveReferences at h
  simp only [Logged.bind_value, Logged.pure_value, Logged.mapM_value, List.getElem?_map,
    Option.map_map, Function.comp_def] at h
  obtain ⟨p, hp, rfl⟩ := Option.map_eq_some_iff.1 h
  obtain ⟨references, hreferences⟩ := resolveIn_value (s.projects.map Project.name) p
  refine ⟨p, hp, ?_⟩
  rw [hreferences] at hauthored ⊢
  by_cases hexternal : p.external = true
  · simp [hexternal] at hauthored
  · rw [if_neg hexternal]
    have hbare := Project.bare_resolve { p with references := references }
      s.profile.applyShared s.targets
    constructor
    · have hheader := Project.header_of_bare hbare
      exact hheader
    · have hprofile := congrArg Project.profile hbare
      exact hprofile

theorem directory_resolve (s : Solution) : s.resolve.value.directory = s.directory := rfl

end Solution

end SolutionPlan
