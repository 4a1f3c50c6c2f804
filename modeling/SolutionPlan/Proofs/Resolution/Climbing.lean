import SolutionPlan.Proofs.Resolution.Nesting

/-!
# Sub-filters for sources outside of the root

The way to a source outside of the filter's root starts with steps up. The first of them is left
out, so sub-filters lead up exactly for the sources that are reached by two steps up or more.
-/

namespace SolutionPlan

namespace Text

def StepsUp (sep : Char) (text : String) : Prop :=
  ['.', '.'] ∈ splitWhere (· == sep) text.toList

instance (sep : Char) (text : String) : Decidable (StepsUp sep text) :=
  inferInstanceAs (Decidable (_ ∈ _))

end Text

theorem Filter.stepsUp_name_subFilterFor {f : Filter} {directory : String}
    (h : '\\' ∉ directory.toList) :
    Text.StepsUp '\\' (f.subFilterFor directory).name ↔
      Text.StepsUp '\\' f.name ∨ Text.StepsUp '/' directory := by
  have hname : (f.subFilterFor directory).name.toList =
      f.name.toList ++ '\\' :: Text.replaceChar '/' '\\' directory.toList := by
    simp [subFilterFor]
  unfold Text.StepsUp
  rw [hname, Text.splitWhere_append (· == '\\') (beq_self_eq_true '\\'),
    Text.splitWhere_replaceChar h, List.mem_append]

/-! ## Chains that lead up -/

namespace Project

theorem stepsUp_intercalate_iff {directories : List String}
    (h : ∀ directory ∈ directories, '/' ∉ directory.toList) :
    Text.StepsUp '/' (String.intercalate "/" directories) ↔ ".." ∈ directories := by
  cases directories with
  | nil => decide
  | cons first rest =>
      unfold Text.StepsUp
      rw [toList_intercalate_slash, Text.splitWhere_joinWith (by simp) (by simpa using h)]
      have hup : (['.', '.'] : List Char) = "..".toList := rfl
      rw [hup, List.mem_map_of_injective (fun _ _ => String.toList_inj.1)]

/-- The first step decides: the names behind the steps up lead down. -/
theorem stepsUp_iff_of_mem_directoryChain {k : Nat} {names : List String}
    (hnames : ∀ name ∈ names, name ≠ ".." ∧ '/' ∉ name.toList) {directory : String}
    (h : directory ∈ directoryChain (List.replicate k ".." ++ names)) :
    Text.StepsUp '/' directory ↔ 0 < k := by
  have hslash : ∀ part ∈ List.replicate k ".." ++ names, '/' ∉ part.toList := by
    intro part hpart
    rcases List.mem_append.1 hpart with hup | hname
    · rw [List.eq_of_mem_replicate hup]
      decide
    · exact (hnames part hname).2
  obtain ⟨i, -, rfl⟩ := List.mem_map.1 h
  rw [stepsUp_intercalate_iff fun part hpart => hslash part (List.mem_of_mem_take hpart)]
  cases k with
  | zero =>
      rw [List.replicate_zero, List.nil_append]
      have hnone : ".." ∉ names.take (i + 1) := fun hup =>
        (hnames _ (List.mem_of_mem_take hup)).1 rfl
      simp [hnone]
  | succ k =>
      rw [List.replicate_succ, List.cons_append, List.take_succ_cons]
      simp

theorem map_eq_map_shownStep {shown : Component → String}
    (hparent : shown .parent = shownStep .parent)
    (hname : ∀ text, shown (.name text) = shownStep (.name text)) {way : List Component}
    (hsteps : ∀ c ∈ way, c.IsStep) : way.map shown = way.map shownStep := by
  apply List.map_congr_left
  intro c hc
  rcases hsteps c hc with rfl | hc
  · exact hparent
  · cases c with
    | name text => exact hname text
    | root | current | parent => exact hc.elim

/-- Where the source lies. The root of the disk counts as the root of the filter. -/
def directoryIn (f : Filter) (s : Source) : Path := s.path.parent?.getD f.root

/-- The steps from the filter's root to the source, without a step up in front. -/
def shownWay (f : Filter) (s : Source) : List Component :=
  let way := ((directoryIn f s).relativeTo f.root).components
  if way.head? = some .parent then way.tail else way

/-- How many levels the way from the filter's root to the source goes up. -/
def stepsOutside (f : Filter) (s : Source) : Nat := Path.climb f.root (directoryIn f s)

section Climb

variable {f : Filter} {s : Source}

theorem directoriesOf_eq {way : List Component}
    (hway : ((directoryIn f s).relativeTo f.root).components = way)
    (hsteps : ∀ c ∈ way, c.IsStep) :
    directoriesOf f s =
      (if way.head? = some .parent then way.tail else way).map shownStep := by
  unfold directoryIn at hway
  unfold directoriesOf placement
  simp only [hway]
  split
  · next rest =>
      rw [List.head?_cons, if_pos rfl, List.tail_cons]
      change rest.map _ = rest.map shownStep
      exact map_eq_map_shownStep (by rfl) (by intro; rfl) fun c hc =>
        hsteps c (List.mem_cons_of_mem _ hc)
  · next hnone =>
      have hhead : way.head? ≠ some .parent := by
        intro hup
        obtain ⟨rest, rfl⟩ := List.head?_eq_some_iff.1 hup
        exact hnone rest rfl
      rw [if_neg hhead]
      change way.map _ = way.map shownStep
      exact map_eq_map_shownStep (by rfl) (by intro; rfl) hsteps

variable (hroot : f.root.isAbsolute = true)
  (hpath : s.path.isAbsolute = true)

include hroot hpath

theorem isAbsolute_directoryIn : (directoryIn f s).isAbsolute = true := by
  unfold directoryIn
  cases hparent : s.path.parent? with
  | none => exact hroot
  | some directory => exact Path.isAbsolute_of_parent? hpath hparent

theorem directoriesOf_eq_shownWay : directoriesOf f s = (shownWay f s).map shownStep := by
  have hsteps := (Path.isWay_way (isAbsolute_directoryIn hroot hpath) hroot).isStep
  have hway : ((directoryIn f s).relativeTo f.root).components =
      Path.way f.root (directoryIn f s) := Path.components_ofComponents hsteps
  exact directoriesOf_eq rfl (hway ▸ hsteps)

theorem getLast?_chainOf (h : shownWay f s ≠ []) : (chainOf f s).getLast? =
    some (String.intercalate "/" ((shownWay f s).map shownStep)) := by
  rw [chainOf, directoriesOf_eq_shownWay hroot hpath]
  exact getLast?_directoryChain (mt List.map_eq_nil_iff.1 h)

/-- Of the steps up the first one is left out. -/
theorem exists_directoriesOf_eq : ∃ names : List String,
    directoriesOf f s = List.replicate (stepsOutside f s - 1) ".." ++ names ∧
      ∀ name ∈ names, name ≠ ".." ∧ '/' ∉ name.toList := by
  have hdirectory := isAbsolute_directoryIn hroot hpath
  obtain ⟨shared, up, down, hseen⟩ := Path.exists_seen hroot hdirectory
  have hsteps := (Path.isWay_way hdirectory hroot).isStep
  have hway : ((directoryIn f s).relativeTo f.root).components =
      Path.way f.root (directoryIn f s) := Path.components_ofComponents hsteps
  refine ⟨down.map shownStep, ?_, ?_⟩
  · rw [directoriesOf_eq hway hsteps, stepsOutside, hseen.climb_eq, hseen.way]
    cases up with
    | nil =>
        have hnone : down.head? ≠ some .parent := fun hup =>
          hseen.names _ (List.mem_of_head? hup)
        simp [hnone]
    | cons c up =>
        have hup : shownStep .parent = ".." := rfl
        simp [List.replicate_succ, hup]
  · intro name hname
    obtain ⟨c, hc, rfl⟩ := List.mem_map.1 hname
    have hc := hseen.names c hc
    cases c with
    | name text =>
        have htext : shownStep (.name text) = text := String.ofList_toList
        rw [htext]
        refine ⟨?_, hc.1⟩
        rintro rfl
        exact hc.2 (by decide)
    | root | current | parent => exact hc.elim

/-- What a source asks for leads up exactly if the source lies more than one step outside. -/
theorem stepsUp_iff_of_mem_chainOf {directory : String} (h : directory ∈ chainOf f s) :
    Text.StepsUp '/' directory ↔ 1 < stepsOutside f s := by
  obtain ⟨names, hdirectories, hnames⟩ := exists_directoriesOf_eq hroot hpath
  rw [chainOf, hdirectories] at h
  rw [stepsUp_iff_of_mem_directoryChain hnames h]
  omega

theorem chainOf_ne_nil (h : 1 < stepsOutside f s) : chainOf f s ≠ [] := by
  obtain ⟨names, hdirectories, -⟩ := exists_directoriesOf_eq hroot hpath
  have hlength := length_directoryChain (directoriesOf f s)
  apply List.ne_nil_of_length_pos
  rw [chainOf, hlength, hdirectories, List.length_append, List.length_replicate]
  omega

end Climb

/-! ## Sub-filters that lead up -/

theorem exists_created (p : Project) (i : Nat) (f : Filter) : ∃ created : List SubFilter,
    p.mirrored i f = { f with subFilters := f.subFilters ++ created } ∧
      ∀ sub ∈ created, sub = f.subFilterFor sub.directory ∧ f.directories = true ∧
        ∃ s ∈ p.filterSources i, sub.directory ∈ chainOf f s := by
  unfold mirrored
  split
  · next hshows =>
      refine ⟨_, rfl, ?_⟩
      rw [List.forall_mem_map]
      intro directory hdirectory
      refine ⟨rfl, hshows, ?_⟩
      rw [← List.mem_flatMap]
      have hfirsts : directory ∈
          (firsts id f.shown ((p.filterSources i).flatMap (chainOf f))).map id := by
        rwa [List.map_id]
      have hmem := (mem_map_firsts.1 hfirsts).1
      rwa [List.map_id] at hmem
  · exact ⟨[], by rw [List.append_nil], nofun⟩

/--
In a project with absolute filter roots and source paths a source is in the sub-filter for the way
to it from the filter's root, of which only a step up in front is left out. A sub-filter is added
for a directory with a step up only if it holds a source that lies more than one step outside of the
filter's root, and every such source is in a sub-filter for a directory with a step up. Unless a
directory is named with a backslash, the displayed name of a sub-filter steps up exactly if its
directory or the name of its filter does.
-/
theorem subFilters_step_up_from_outside {p : Project} (hdistinct : p.DistinctPaths)
    (hroots : ∀ f ∈ p.filters, f.root.isAbsolute = true)
    (hpaths : ∀ s ∈ p.sources, s.path.isAbsolute = true) {i : Nat} {f : Filter}
    (hf : p.filters[i]? = some f) :
    let q := p.buildDirectories.value
    ∃ (created : List SubFilter) (g : Filter),
      g = { f with subFilters := f.subFilters ++ created } ∧ q.filters[i]? = some g ∧
      (∀ sub ∈ created, Text.StepsUp '/' sub.directory →
        ∃ s ∈ q.filterSources i, 1 < stepsOutside f s ∧ g.Covers sub.directory s) ∧
      (∀ sub ∈ created, '\\' ∉ sub.directory.toList → (Text.StepsUp '\\' sub.name ↔
        Text.StepsUp '\\' f.name ∨ Text.StepsUp '/' sub.directory)) ∧
      (f.directories = true → ∀ s ∈ q.filterSources i, shownWay f s ≠ [] →
        ∃ k, s.subFilter = some k ∧
          g.shown[k]? = some (String.intercalate "/" ((shownWay f s).map shownStep))) ∧
      (f.directories = true → ∀ s ∈ q.filterSources i, 1 < stepsOutside f s →
        ∃ k directory, s.subFilter = some k ∧ g.shown[k]? = some directory ∧
          Text.StepsUp '/' directory) := by
  intro q
  have hroot := hroots f (List.mem_of_getElem? hf)
  have hq : q = p.mirror := by
    simp only [q, buildDirectories_eq hdistinct]
  have hpath : ∀ s ∈ p.filterSources i, s.path.isAbsolute = true :=
    fun s hs => hpaths s (mem_filterSources.1 hs).1
  have houtside (s : Source) : stepsOutside f (p.reseated s) = stepsOutside f s := by
    unfold stepsOutside directoryIn
    rw [path_reseated]
  have hshownWay (s : Source) : shownWay f (p.reseated s) = shownWay f s := by
    unfold shownWay directoryIn
    rw [path_reseated]
  obtain ⟨created, hg, hcreated⟩ := exists_created p i f
  refine ⟨created, p.mirrored i f, hg, ?_, ?_, ?_, ?_, ?_⟩
  · rw [hq, getElem?_filters_mirror, hf, Option.map_some]
  · intro sub hsub hup
    obtain ⟨-, hshows, s, hs, hdirectory⟩ := hcreated sub hsub
    refine ⟨p.reseated s, ?_, ?_, covers_reseated hf hshows hs hdirectory⟩
    · rw [hq, filterSources_mirror]
      exact List.mem_map_of_mem hs
    · rw [houtside]
      exact (stepsUp_iff_of_mem_chainOf hroot (hpath s hs) hdirectory).1 hup
  · intro sub hsub hplain
    rw [(hcreated sub hsub).1]
    exact Filter.stepsUp_name_subFilterFor hplain
  · intro hshows s hs hway
    rw [hq, filterSources_mirror] at hs
    obtain ⟨t, ht, rfl⟩ := List.mem_map.1 hs
    rw [hshownWay] at hway ⊢
    exact exists_subFilter_reseated hf hshows ht (getLast?_chainOf hroot (hpath t ht) hway)
  · intro hshows s hs hfar
    rw [hq, filterSources_mirror] at hs
    obtain ⟨t, ht, rfl⟩ := List.mem_map.1 hs
    rw [houtside] at hfar
    obtain ⟨directory, hlast⟩ := Option.ne_none_iff_exists'.1 fun hnone =>
      chainOf_ne_nil hroot (hpath t ht) hfar (List.getLast?_eq_none_iff.1 hnone)
    obtain ⟨k, hk, hget⟩ := exists_subFilter_reseated hf hshows ht hlast
    refine ⟨k, directory, hk, hget, ?_⟩
    exact (stepsUp_iff_of_mem_chainOf hroot (hpath t ht) (List.mem_of_getLast? hlast)).2 hfar

def strayFilter : Filter := ⟨"Src", ⟨"/w/a/b"⟩, true, []⟩

/-- Sources below the root of the filter, in a directory named with backslashes, one step outside
of the root and two steps outside. -/
def straying : Project :=
  { authored "P" .cpp ⟨"/w/p.vcxproj"⟩ ⟨"/w"⟩ with
    filters := [strayFilter]
    sources :=
      [⟨⟨"/w/a/b/m\\..\\n/x.c"⟩, 0, none, false, none⟩,
        ⟨⟨"/w/a/other/y.c"⟩, 0, none, false, none⟩, ⟨⟨"/w/lib/z.c"⟩, 0, none, false, none⟩] }

theorem subFilters_step_up_from_outside_straying :
    let q := straying.buildDirectories.value
    straying.DistinctPaths ∧ (∀ f ∈ straying.filters, f.root.isAbsolute = true) ∧
      (∀ s ∈ straying.sources, s.path.isAbsolute = true) ∧
      q.sources.map (stepsOutside strayFilter) = [0, 1, 2] ∧
      ∃ g : Filter, q.filters[0]? = some g ∧
        g.shown = ["m\\..\\n", "other", "..", "../lib"] ∧
        ∀ s ∈ q.filterSources 0, 1 < stepsOutside strayFilter s →
          ∃ k directory, s.subFilter = some k ∧ g.shown[k]? = some directory ∧
            Text.StepsUp '/' directory := by
  intro q
  have hdistinct : straying.DistinctPaths := by
    unfold DistinctPaths
    decide +kernel
  have hroots : ∀ f ∈ straying.filters, f.root.isAbsolute = true := by decide +kernel
  have hpaths : ∀ s ∈ straying.sources, s.path.isAbsolute = true := by decide +kernel
  have hf : straying.filters[0]? = some strayFilter := rfl
  obtain ⟨created, g, -, hg, -, -, -, hfar⟩ :=
    subFilters_step_up_from_outside hdistinct hroots hpaths hf
  refine ⟨hdistinct, hroots, hpaths, by decide +kernel, g, hg, ?_, hfar rfl⟩
  have hshown : q.filters[0]?.map Filter.shown =
      some ["m\\..\\n", "other", "..", "../lib"] := by decide +kernel
  rw [hg] at hshown
  exact Option.some.inj hshown

/-- From two steps outside one step up is left. A name with backslashes is displayed like steps. -/
theorem stepsUp_straying :
    straying.DistinctPaths ∧ (∀ f ∈ straying.filters, f.root.Canonical ∧ f.subFilters = []) ∧
      (∀ s ∈ straying.sources, s.path.Canonical) ∧
      ∃ f ∈ straying.buildDirectories.value.filters,
        (∃ sub ∈ f.subFilters, Text.StepsUp '/' sub.directory ∧ Text.StepsUp '\\' sub.name) ∧
          ∃ sub ∈ f.subFilters,
            ¬ Text.StepsUp '/' sub.directory ∧ Text.StepsUp '\\' sub.name := by
  unfold DistinctPaths
  decide +kernel

end Project

end SolutionPlan
