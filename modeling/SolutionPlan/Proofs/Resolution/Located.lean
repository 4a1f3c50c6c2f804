import SolutionPlan.Proofs.Path.Canonical
import SolutionPlan.Proofs.Resolution.Frame
import SolutionPlan.Proofs.Resolution.Placement
import SolutionPlan.Proofs.Resolution.References

/-!
# Where resolved sources lie

Classification and directory sub-filters leave all paths as they are. A generator resolves a text in
the directory of a source, and a filter that it misses is created in the directory of the project
file, so generated paths are canonical too.
-/

namespace SolutionPlan

namespace Project

/-- Every path in the project is canonical, and what was read lies in directories. -/
structure Located (p : Project) : Prop where
  path : p.path.Inner
  sourceRoot : p.sourceRoot.Canonical
  filters : ∀ root ∈ p.filters.map Filter.root, root.Canonical
  sources : ∀ key ∈ p.keys, key.1.Canonical ∧ (key.2 = false → key.1.Inner)

def locations (p : Project) : Path × Path × List Path × List (Path × Bool) :=
  (p.path, p.sourceRoot, p.filters.map Filter.root, p.keys)

theorem Located.congr {p q : Project} (hp : p.Located) (h : q.locations = p.locations) :
    q.Located := by
  unfold locations at h
  simp only [Prod.mk.injEq] at h
  obtain ⟨hpath, hroot, hfilters, hkeys⟩ := h
  exact ⟨hpath ▸ hp.path, hroot ▸ hp.sourceRoot, hfilters ▸ hp.filters, hkeys ▸ hp.sources⟩

theorem Located.addFilter {p : Project} (hp : p.Located) {f : Filter} (hf : f.root.Canonical) :
    (p.addFilter f).Located := by
  refine ⟨hp.path, hp.sourceRoot, ?_, hp.sources⟩
  intro root hroot
  rw [Project.addFilter, List.map_append] at hroot
  rcases List.mem_append.1 hroot with hold | hadded
  · exact hp.filters root hold
  · obtain rfl := List.mem_singleton.1 hadded
    exact hf

theorem locations_modifySource (p : Project) (path : Path) {f : Source → Source}
    (hf : ∀ s, ((f s).path, (f s).generated) = (s.path, s.generated)) :
    (p.modifySource path f).locations = p.locations := by
  have hkeys := p.keys_modifySource path hf
  unfold locations
  rw [hkeys]
  rfl

theorem Located.insertSource {p : Project} (hp : p.Located) {path : Path} (filter : Nat)
    {generated : Bool} (hpath : path.Canonical) (hread : generated = false → path.Inner) :
    (p.insertSource path filter generated).Located := by
  unfold Project.insertSource
  split
  · exact hp.congr (p.locations_modifySource path fun _ => rfl)
  · refine ⟨hp.path, hp.sourceRoot, hp.filters, ?_⟩
    intro key hkey
    rw [keys, List.map_append] at hkey
    rcases List.mem_append.1 hkey with hold | hadded
    · exact hp.sources key hold
    · obtain rfl := List.mem_singleton.1 hadded
      exact ⟨hpath, hread⟩

/-! ## Classification and sub-filters -/

theorem locations_classify (p : Project) (targets : List Target) (generated : Bool) :
    (p.classify targets generated).value.locations = p.locations :=
  classify_keeps (fun p path _ => p.locations_modifySource path fun _ => rfl) p targets generated

theorem root_ensureChain (f : Filter) (chain : List String) :
    (ensureChain f chain).2.root = f.root := by
  unfold ensureChain
  apply foldl_keeps (g := fun last : Option Nat × Filter => last.2.root)
  rintro ⟨last, f⟩ directory
  simp only [Filter.ensureSubFilter]
  cases f.subFilterIndex? directory <;> rfl

theorem locations_place (filter : Nat) (p : Project) (d : Placement) :
    (place filter p d).locations = p.locations := by
  unfold place
  cases hf : p.filters[filter]? with
  | none => rfl
  | some f =>
      have hroot := root_ensureChain f (directoryChain d.directories)
      simp only
      split
      · rfl
      · next i g hchain =>
          rw [hchain] at hroot
          have hroots : (p.filters.set filter g).map Filter.root = p.filters.map Filter.root := by
            obtain ⟨hlt, rfl⟩ := List.getElem?_eq_some_iff.1 hf
            have hbound : filter < (p.filters.map Filter.root).length := by simpa using hlt
            have hsame : g.root = (p.filters.map Filter.root)[filter] := by
              rw [List.getElem_map]
              exact hroot
            rw [List.map_set, hsame, List.set_getElem_self]
          refine Eq.trans (locations_modifySource _ d.path fun _ => rfl) ?_
          unfold locations
          rw [hroots]
          rfl

theorem locations_buildDirectories (p : Project) :
    p.buildDirectories.value.locations = p.locations :=
  buildDirectories_keeps locations_place p

/-! ## Generation -/

theorem canonical_expandTemplate (p : Project) (template : String) {source : Path}
    (h : source.Inner) : (p.expandTemplate template source).Canonical := by
  unfold expandTemplate
  exact Path.canonical_resolve h.parentOrEmpty.absolute _

theorem Located.canonical_of_derived {p : Project} (hp : p.Located) {target : Nat}
    {g : Generator} : ∀ d ∈ p.derived target g, d.path.Canonical := by
  unfold derived
  simp only [List.forall_mem_map]
  intro s hs
  obtain ⟨hmem, hread⟩ := List.mem_filter.1 hs
  have hkey : (s.path, s.generated) ∈ p.keys :=
    List.mem_map_of_mem (f := fun s : Source => (s.path, s.generated)) (List.mem_filter.1 hmem).1
  have hinner := (hp.sources _ hkey).2 (by simpa using hread)
  exact p.canonical_expandTemplate g.template hinner

theorem Located.foldl_addDerived {p : Project} (hp : p.Located) (filter : Option Nat)
    {found : List Derived} (hfound : ∀ d ∈ found, d.path.Canonical) :
    (found.foldl (addDerived filter) p).Located := by
  apply List.foldlRecOn (motive := Located) _ _ hp
  intro q hq d hd
  unfold addDerived
  split
  · exact hq
  · exact hq.insertSource _ (hfound d hd) nofun

theorem Located.destination {p : Project} (hp : p.Located) (name : String) :
    (p.destination name).value.2.Located := by
  unfold Project.destination
  cases p.findFilter? name with
  | some i => exact hp
  | none => exact hp.addFilter hp.path.parentOrEmpty

theorem Located.runGenerator {p : Project} (hp : p.Located) (target : Nat) (g : Generator) :
    (runGenerator target p g).value.Located := by
  unfold Project.runGenerator
  simp only
  split
  · exact hp
  · cases g.filter with
    | none => exact hp.foldl_addDerived none hp.canonical_of_derived
    | some name =>
        exact (hp.destination name).foldl_addDerived _ hp.canonical_of_derived

theorem Located.generate {p : Project} (hp : p.Located) (targets : List Target) :
    (p.generate targets).value.Located := by
  unfold Project.generate
  simp only [Logged.foldlM_value]
  apply List.foldlRecOn (motive := Located) _ _ hp
  intro p hp entry _
  exact List.foldlRecOn (motive := Located) _ _ hp fun p hp g _ => hp.runGenerator entry.2 g

/-! ## All passes -/

theorem Located.resolve {p : Project} (hp : p.Located) (profile : Profile)
    (targets : List Target) : (p.resolve profile targets).value.Located := by
  unfold Project.resolve
  simp only [Logged.bind_value]
  have hstart : { p with profile := p.profile.inheritFrom profile }.Located := hp.congr rfl
  have hgenerated := (hstart.congr (locations_classify _ targets false)).generate targets
  exact (hgenerated.congr (locations_classify _ targets true)).congr (locations_buildDirectories _)

end Project

namespace Solution

structure Located (s : Solution) : Prop where
  path : s.path.Canonical
  directory : s.directory.Canonical
  definitions : ∀ t ∈ s.targets, ∀ definition ∈ t.definition, definition.Canonical
  projects : ∀ p ∈ s.projects, p.Located

theorem Located.resolve {s : Solution} (hs : s.Located) : s.resolve.value.Located := by
  refine ⟨hs.path, hs.directory, hs.definitions, ?_⟩
  rw [projects_resolve, List.forall_mem_map]
  intro p hp
  have hbound : (resolveIn (s.projects.map Project.name) p).value.Located :=
    (hs.projects p hp).congr rfl
  unfold resolvedProject
  simp only
  split
  · exact hbound
  · exact hbound.resolve _ _

end Solution

end SolutionPlan
