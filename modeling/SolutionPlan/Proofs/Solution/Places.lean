import Mathlib.Data.List.Nodup
import SolutionPlan.Proofs.Solution.Sources

/-!
# The places that sources refer to

A source names its filter, its target and its sub-filter by their places in lists. Lists of filters
only grow and so do the sub-filters in them, so what is in range once stays in range.
-/

namespace SolutionPlan

/-- A relation between states that each step establishes relates the first state to the last one.
What a step needs may be anything that the relation keeps. -/
theorem foldl_related {σ α : Type} {related : σ → σ → Prop} (hrefl : ∀ s, related s s)
    (htrans : ∀ {s t u}, related s t → related t u → related s u) {P : σ → Prop}
    (hkeep : ∀ s t, related s t → P s → P t) {step : σ → α → σ} {xs : List α}
    (hstep : ∀ x ∈ xs, ∀ s, P s → related s (step s x)) {s : σ} (hs : P s) :
    related s (xs.foldl step s) := by
  induction xs generalizing s with
  | nil => exact hrefl s
  | cons x rest ih =>
      have hfirst := hstep x List.mem_cons_self s hs
      have hrest := ih (fun y hy => hstep y (List.mem_cons_of_mem x hy)) (hkeep _ _ hfirst hs)
      exact htrans hfirst hrest

/-! ## One source -/

structure Source.InRange (filters : List Filter) (targets : Nat) (s : Source) : Prop where
  filter : s.filter < filters.length
  target : ∀ i ∈ s.target, i < targets
  subFilter : ∀ i ∈ s.subFilter, ∃ f, filters[s.filter]? = some f ∧ i < f.subFilters.length

/-- Every filter is still at its place and has at least as many sub-filters. -/
def FiltersGrow (old new : List Filter) : Prop :=
  ∀ (i : Nat) (f : Filter), old[i]? = some f →
    ∃ g, new[i]? = some g ∧ f.subFilters.length ≤ g.subFilters.length

theorem filtersGrow_append (old added : List Filter) : FiltersGrow old (old ++ added) := by
  intro i f hf
  have hlt := (List.getElem?_eq_some_iff.1 hf).1
  exact ⟨f, by rw [List.getElem?_append_left hlt, hf], Nat.le_refl _⟩

theorem filtersGrow_set {filters : List Filter} {i : Nat} {f g : Filter}
    (hf : filters[i]? = some f) (hg : f.subFilters.length ≤ g.subFilters.length) :
    FiltersGrow filters (filters.set i g) := by
  intro j h hh
  by_cases hij : i = j
  · subst hij
    obtain rfl := Option.some.inj (hf.symm.trans hh)
    have hlt := (List.getElem?_eq_some_iff.1 hf).1
    exact ⟨g, List.getElem?_set_self hlt, hg⟩
  · exact ⟨h, by rw [List.getElem?_set_ne hij, hh], Nat.le_refl _⟩

theorem Source.InRange.mono {old new : List Filter} {targets : Nat} {s : Source}
    (hs : s.InRange old targets) (hgrow : FiltersGrow old new) : s.InRange new targets := by
  refine ⟨?_, hs.target, ?_⟩
  · obtain ⟨g, hg, -⟩ := hgrow s.filter _ (List.getElem?_eq_getElem hs.filter)
    exact (List.getElem?_eq_some_iff.1 hg).1
  · intro i hi
    obtain ⟨f, hf, hlt⟩ := hs.subFilter i hi
    obtain ⟨g, hg, hle⟩ := hgrow s.filter f hf
    exact ⟨g, hg, Nat.lt_of_lt_of_le hlt hle⟩

structure Source.Placed (filters : List Filter) (targets : Nat) (s : Source) : Prop where
  filter : s.filter < filters.length
  target : ∃ i, s.target = some i ∧ i < targets
  subFilter : ∀ i ∈ s.subFilter, ∃ f, filters[s.filter]? = some f ∧ i < f.subFilters.length

theorem Source.InRange.placed {filters : List Filter} {targets : Nat} {s : Source}
    (hs : s.InRange filters targets) (htarget : s.target.isSome = true) :
    s.Placed filters targets := by
  obtain ⟨i, hi⟩ := Option.isSome_iff_exists.1 htarget
  exact ⟨hs.filter, ⟨i, hi, hs.target i hi⟩, hs.subFilter⟩

namespace Project

theorem mem_modifySource {p : Project} {path : Path} {f : Source → Source} {s : Source}
    (h : s ∈ (p.modifySource path f).sources) :
    s ∈ p.sources ∨ ∃ t ∈ p.sources, t.path.same path = true ∧ s = f t :=
  mem_modifyFirst h

theorem eq_of_same {p : Project} (hp : p.DistinctPaths) {s t : Source} (hs : s ∈ p.sources)
    (ht : t ∈ p.sources) (h : s.path.same t.path = true) : s = t := by
  have hfound := findSource?_of_mem hp hs (Path.same_iff.1 h)
  rw [findSource?_of_mem hp ht rfl] at hfound
  exact (Option.some.inj hfound).symm

theorem DistinctPaths.nodup_sources {p : Project} (hp : p.DistinctPaths) : p.sources.Nodup :=
  List.Nodup.of_map _ hp

/-! ## All sources -/

structure InRange (targets : Nat) (p : Project) : Prop where
  distinct : p.DistinctPaths
  sources : ∀ s ∈ p.sources, s.InRange p.filters targets

theorem InRange.modifySource {targets : Nat} {p : Project} (hp : p.InRange targets) (path : Path)
    {f : Source → Source} (hpath : ∀ s, (f s).path = s.path)
    (hf : ∀ s ∈ p.sources, s.path.same path = true → (f s).InRange p.filters targets) :
    (p.modifySource path f).InRange targets := by
  refine ⟨hp.distinct.modifySource path hpath, ?_⟩
  intro s hs
  rcases mem_modifySource hs with hold | ⟨t, ht, hsame, rfl⟩
  · exact hp.sources s hold
  · exact hf t ht hsame

theorem InRange.addFilter {targets : Nat} {p : Project} (hp : p.InRange targets) (f : Filter) :
    (p.addFilter f).InRange targets := by
  refine ⟨hp.distinct, ?_⟩
  intro s hs
  exact (hp.sources s hs).mono (filtersGrow_append p.filters [f])

theorem InRange.insertSource {targets : Nat} {p : Project} (hp : p.InRange targets) {path : Path}
    (hnew : p.hasSource path = false) {filter : Nat} (hfilter : filter < p.filters.length)
    (generated : Bool) : (p.insertSource path filter generated).InRange targets := by
  refine ⟨hp.distinct.insertSource path filter generated, ?_⟩
  intro s hs
  rw [filters_insertSource]
  unfold Project.insertSource at hs
  rw [hnew, if_neg Bool.false_ne_true] at hs
  rcases List.mem_append.1 hs with hold | hadded
  · exact hp.sources s hold
  · obtain rfl := List.mem_singleton.1 hadded
    exact ⟨hfilter, nofun, nofun⟩

/-! ## Sources with a target -/

def Settled (p : Project) (kind : Source → Prop) : Prop :=
  ∀ s ∈ p.sources, kind s → s.target.isSome = true

theorem settled_of_findSource? {p : Project} (hp : p.DistinctPaths) {path : Path}
    (h : ∀ s ∈ p.findSource? path, s.target.isSome = true) :
    p.Settled fun s => s.path.same path = true := by
  intro s hs hsame
  exact h s (findSource?_of_mem hp hs (Path.same_iff.1 hsame))

theorem Settled.setTarget {p : Project} {kind : Source → Prop} (hp : p.Settled kind)
    (path : Path) (i : Nat) :
    (p.modifySource path fun s => { s with target := some i }).Settled kind := by
  intro s hs hkinds
  rcases mem_modifySource hs with hold | ⟨t, -, -, rfl⟩
  · exact hp s hold hkinds
  · rfl

/-! ## Sources without places -/

/-- No source has a target or a sub-filter yet. -/
def Fresh (p : Project) : Prop := ∀ s ∈ p.sources, s.target = none ∧ s.subFilter = none

theorem Fresh.includeSource {p : Project} (hp : p.Fresh) (path : Path) (filter : Nat) :
    (p.includeSource path filter).Fresh := by
  unfold Project.includeSource Project.insertSource
  split
  · intro s hs
    rcases mem_modifySource hs with hold | ⟨t, ht, -, rfl⟩
    · exact hp s hold
    · exact hp t ht
  · intro s hs
    rcases List.mem_append.1 hs with hold | hadded
    · exact hp s hold
    · obtain rfl := List.mem_singleton.1 hadded
      exact ⟨rfl, rfl⟩

theorem Fresh.exclude {p : Project} (hp : p.Fresh) (path : Path) (filter : Nat) :
    (p.exclude path filter).Fresh := by
  unfold Project.exclude
  split
  · exact fun s hs => hp s (List.mem_of_mem_eraseP hs)
  · exact hp

theorem Fresh.addFiltered {p : Project} (hp : p.Fresh) (f : Filter)
    (included excluded : List Path) : (p.addFiltered f included excluded).Fresh := by
  have hadded : (p.addFilter f).Fresh := hp
  unfold Project.addFiltered includeAll excludeAll
  apply List.foldlRecOn (motive := Fresh)
  · apply List.foldlRecOn (motive := Fresh)
    · exact hadded
    · exact fun q hq file _ => hq.includeSource file _
  · exact fun q hq file _ => hq.exclude file _

theorem Fresh.inRange {p : Project} (hp : p.Fresh) (hdistinct : p.DistinctPaths)
    (hfilter : ∀ s ∈ p.sources, s.filter < p.filters.length) (targets : Nat) :
    p.InRange targets := by
  refine ⟨hdistinct, ?_⟩
  intro s hs
  obtain ⟨htarget, hsub⟩ := hp s hs
  exact ⟨hfilter s hs, by simp [htarget], by simp [hsub]⟩

end Project

end SolutionPlan
