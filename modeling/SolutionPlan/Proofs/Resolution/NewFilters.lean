import SolutionPlan.Proofs.Resolution.Generation

/-!
# Filters that generation adds

A generator that derives anything is given its filter before it is known whether any of its paths is
new, so a filter can be added for nothing. All added filters own a source exactly if every missing
name is asked for by a generator that is the first to derive some path.
-/

namespace SolutionPlan.Project

def FillsNewFilters (p : Project) (targets : List Target) : Prop :=
  let grown := (p.generate targets).value
  ∀ i, p.filters.length ≤ i → i < grown.filters.length → grown.filterSources i ≠ []

def UntouchedWithoutNewSources (p : Project) (targets : List Target) : Prop :=
  (p.generate targets).value.sources = p.sources → p.generate targets = pure p

section Grown

variable {p : Project} {turns : List Turn}

theorem findIdx?_grown_iff {k : Nat} (hk : k < (p.missingNames turns).length) {asked : String} :
    (p.grown turns).findFilter? asked = some (p.filters.length + k) ↔
      nameKey asked = nameKey (p.missingNames turns)[k] := by
  have hnames : ((p.missingNames turns).map nameKey).Nodup := nodup_map_firsts _ _
  unfold findFilter?
  rw [filters_grown]
  constructor
  · intro hfound
    obtain ⟨_, hsame, -⟩ := List.findIdx?_eq_some_iff_getElem.1 hfound
    rw [sameIgnoringCase_iff] at hsame
    simpa [Filter.rooted] using hsame.symm
  · intro hkey
    have hmissing : nameKey asked ∉ p.filterKeys := by
      rw [hkey]
      exact (mem_map_firsts.1 (List.mem_map_of_mem (List.getElem_mem hk))).2
    have hold : p.filters.findIdx? (fun f => Text.sameIgnoringCase f.name asked) = none :=
      findFilter?_eq_none_iff.2 hmissing
    have hnew : ((p.missingNames turns).map fun name => Filter.rooted name p.directory).findIdx?
        (fun f => Text.sameIgnoringCase f.name asked) = some k := by
      rw [List.findIdx?_eq_some_iff_getElem]
      refine ⟨by simpa using hk, ?_, ?_⟩
      · rw [sameIgnoringCase_iff, List.getElem_map]
        exact hkey.symm
      · intro j hj
        rw [sameIgnoringCase_iff, List.getElem_map, hkey]
        intro hsame
        have hlength : (p.missingNames turns).length =
            ((p.missingNames turns).map nameKey).length := by rw [List.length_map]
        have hkeys : ((p.missingNames turns).map nameKey)[j] =
            ((p.missingNames turns).map nameKey)[k] := by
          rw [List.getElem_map, List.getElem_map]
          exact hsame
        have hindex : j = k := hnames.getElem_inj_iff.1 hkeys
        omega
    rw [List.findIdx?_append, hold, hnew]
    simp [Nat.add_comm]

variable (hp : ∀ s ∈ p.sources, s.filter < p.filters.length)

include hp

theorem origin_lt_of_mem_newDerivations {d : Derivation} (hd : d ∈ p.newDerivations turns) :
    d.origin < p.filters.length := by
  obtain ⟨turn, -, hd⟩ := List.mem_flatMap.1 ((firsts_sublist _ _).subset hd)
  obtain ⟨s, hs, rfl⟩ := List.mem_map.1 hd
  exact hp s (List.mem_filter.1 hs).1

/-- A derived source goes to an added filter if its generator asks for that name. -/
theorem filter_source_eq_iff {d : Derivation} (hd : d ∈ p.newDerivations turns) {k : Nat}
    (hk : k < (p.missingNames turns).length) :
    (d.source (p.grown turns).filters).filter = p.filters.length + k ↔
      d.filter.map nameKey = some (nameKey (p.missingNames turns)[k]) := by
  rw [Derivation.source_eq]
  cases hasked : d.filter with
  | none =>
      have horigin := origin_lt_of_mem_newDerivations hp hd
      simp only [place?, Option.map_none, Option.getD_none, reduceCtorEq, iff_false]
      omega
  | some asked =>
      obtain ⟨i, hi⟩ := p.exists_place_of_mem_newDerivations turns hd hasked
      have hplace : place? (p.grown turns).filters (some asked) = some i := by
        unfold findFilter? at hi
        simp [place?, hi]
      rw [hplace, Option.getD_some, Option.map_some, Option.some_inj, ← findIdx?_grown_iff hk, hi,
        Option.some_inj]

theorem filterSources_grown_ne_nil_iff {k : Nat} (hk : k < (p.missingNames turns).length) :
    (p.grown turns).filterSources (p.filters.length + k) ≠ [] ↔
      ∃ d ∈ p.newDerivations turns,
        d.filter.map nameKey = some (nameKey (p.missingNames turns)[k]) := by
  unfold filterSources
  rw [sources_grown, ne_eq, List.filter_eq_nil_iff]
  simp only [not_forall, not_not, exists_prop]
  constructor
  · rintro ⟨s, hs, hfilter⟩
    rw [beq_iff_eq] at hfilter
    rcases List.mem_append.1 hs with hs | hs
    · have hlt := hp s hs
      omega
    · obtain ⟨d, hd, rfl⟩ := List.mem_map.1 hs
      exact ⟨d, hd, (filter_source_eq_iff hp hd hk).1 hfilter⟩
  · rintro ⟨d, hd, hasked⟩
    refine ⟨_, List.mem_append_right _ (List.mem_map_of_mem hd), ?_⟩
    rw [beq_iff_eq]
    exact (filter_source_eq_iff hp hd hk).2 hasked

end Grown

/--
The generators add no empty filter, and leave a project alone to which they add no source, exactly
if every missing name that is asked for is asked for by a generator that derives some path as the
first of all, one that is no source yet. The sources have to be in filters that are there.
-/
theorem fillsNewFilters_iff {p : Project} (hp : ∀ s ∈ p.sources, s.filter < p.filters.length)
    (targets : List Target) :
    p.FillsNewFilters targets ∧ p.UntouchedWithoutNewSources targets ↔
      ∀ name ∈ p.missingNames (turns targets), ∃ d ∈ p.newDerivations (turns targets),
        d.filter.map nameKey = some (nameKey name) := by
  unfold FillsNewFilters UntouchedWithoutNewSources
  rw [generate_eq, foldlM_runGenerator]
  simp only
  have hlength : (p.grown (turns targets)).filters.length =
      p.filters.length + (p.missingNames (turns targets)).length := by
    rw [filters_grown, List.length_append, List.length_map]
  constructor
  · rintro ⟨hfills, -⟩ name hname
    obtain ⟨k, hk, rfl⟩ := List.getElem_of_mem hname
    exact (filterSources_grown_ne_nil_iff hp hk).1 (hfills _ (by omega) (by omega))
  · intro hasked
    constructor
    · intro i hi hlt
      obtain ⟨k, rfl⟩ := Nat.exists_eq_add_of_le hi
      have hk : k < (p.missingNames (turns targets)).length := by omega
      exact (filterSources_grown_ne_nil_iff hp hk).2 (hasked _ (List.getElem_mem hk))
    · intro hsources
      have hnew : p.newDerivations (turns targets) = [] := by
        rw [sources_grown, List.append_right_eq_self] at hsources
        exact List.map_eq_nil_iff.1 hsources
      have hnames : p.missingNames (turns targets) = [] := by
        rw [List.eq_nil_iff_forall_not_mem]
        intro name hname
        obtain ⟨d, hd, -⟩ := hasked name hname
        rw [hnew] at hd
        cases hd
      have hgrown : p.grown (turns targets) = p := by simp [grown, hnames, hnew]
      rw [hgrown, hnames]
      rfl

def withHeader : Project :=
  { authored "Net" .cpp ⟨"/out/net.vcxproj"⟩ ⟨"/src"⟩ with
    filters := [.rooted "Source" ⟨"/src"⟩]
    sources :=
      [⟨⟨"/src/m.idl"⟩, 0, some 0, false, none⟩, ⟨⟨"/src/m.h"⟩, 0, some 0, false, none⟩] }

/-- One target with generators that ask for the same missing filter in two spellings. -/
def headerTargets (templates : List String) : List Target :=
  [⟨"Midl", ["idl"], none, none,
    templates.zipIdx.map fun t => ⟨t.1, some (if t.2 = 0 then "Generated" else "generated")⟩⟩]

/-- The first generator derives only what is there, the second one fills the filter. -/
theorem fillsNewFilters_iff_second :
    (∀ s ∈ withHeader.sources, s.filter < withHeader.filters.length) ∧
      withHeader.missingNames (turns (headerTargets ["m.h", "m_i.c"])) = ["Generated"] ∧
      withHeader.FillsNewFilters (headerTargets ["m.h", "m_i.c"]) ∧
      withHeader.UntouchedWithoutNewSources (headerTargets ["m.h", "m_i.c"]) := by
  have hfilters : ∀ s ∈ withHeader.sources, s.filter < withHeader.filters.length := by decide
  refine ⟨hfilters, by decide +kernel, ?_⟩
  rw [fillsNewFilters_iff hfilters]
  decide +kernel

/-- What is derived is there already, but the filter for it is added and recorded. -/
theorem not_fillsNewFilters_present :
    ¬ withHeader.FillsNewFilters (headerTargets ["m.h"]) ∧
      ¬ withHeader.UntouchedWithoutNewSources (headerTargets ["m.h"]) := by
  constructor
  · intro hfills
    exact hfills 1 (by decide) (by decide +kernel) (by decide +kernel)
  · intro huntouched
    have hgenerated := huntouched (by decide +kernel)
    have hrecorded : (withHeader.generate (headerTargets ["m.h"])).problems = [] :=
      congrArg Logged.problems hgenerated
    exact absurd hrecorded (by decide +kernel)

end SolutionPlan.Project
