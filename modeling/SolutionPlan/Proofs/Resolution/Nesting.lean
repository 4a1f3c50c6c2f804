import SolutionPlan.Proofs.Resolution.Directories

/-!
# Sub-filters nest as directories do

The sub-filters of a filter are the directories of its sources below its root, each with all those
above it in front of it. A source below the root is in the sub-filter of its own directory.
-/

namespace SolutionPlan

namespace Project

/-! ## Chains -/

def Above (directory below : String) : Prop := ∃ rest, below = directory ++ "/" ++ rest

theorem toList_intercalate_slash (directories : List String) :
    (String.intercalate "/" directories).toList =
      Text.joinWith '/' (directories.map String.toList) := by
  rw [String.toList_intercalate, Text.joinWith_eq_intercalate]
  rfl

theorem exists_take_of_above {directories : List String}
    (h : ∀ directory ∈ directories, '/' ∉ directory.toList) {directory : String}
    (habove : Above directory (String.intercalate "/" directories)) :
    ∃ k, 0 < k ∧ k < directories.length ∧
      directory = String.intercalate "/" (directories.take k) := by
  obtain ⟨rest, hrest⟩ := habove
  have hjoin : Text.joinWith '/' (directories.map String.toList) =
      directory.toList ++ '/' :: rest.toList := by
    rw [← toList_intercalate_slash, hrest]
    simp
  obtain ⟨k, hpos, hlt, hfront⟩ := Text.exists_take_of_joinWith_eq (by simpa using h) hjoin
  refine ⟨k, hpos, by simpa using hlt, ?_⟩
  rw [← String.toList_inj, hfront, toList_intercalate_slash, List.map_take]

theorem getElem?_directoryChain {directories : List String} {i : Nat}
    (hi : i < directories.length) :
    (directoryChain directories)[i]? =
      some (String.intercalate "/" (directories.take (i + 1))) := by
  simp [directoryChain, hi]

theorem length_directoryChain (directories : List String) :
    (directoryChain directories).length = directories.length := by
  simp [directoryChain]

theorem downward_directoryChain {directories : List String}
    (h : ∀ directory ∈ directories, '/' ∉ directory.toList) :
    Downward Above [] (directoryChain directories) := by
  intro front below back hchain directory habove
  refine .inr ?_
  have hlen : front.length < directories.length := by
    have hlength := congrArg List.length hchain
    rw [length_directoryChain, List.length_append, List.length_cons] at hlength
    omega
  have hbelow : below = String.intercalate "/" (directories.take (front.length + 1)) := by
    have hget := getElem?_directoryChain hlen
    rw [hchain, List.getElem?_append_right (Nat.le_refl _), Nat.sub_self] at hget
    exact Option.some.inj hget
  rw [hbelow] at habove
  obtain ⟨k, hpos, hlt, rfl⟩ :=
    exists_take_of_above (fun d hd => h d (List.mem_of_mem_take hd)) habove
  rw [List.length_take] at hlt
  have hbefore : k - 1 < directories.length := by omega
  have hget := getElem?_directoryChain hbefore
  rw [hchain, List.getElem?_append_left (by omega), Nat.sub_add_cancel hpos] at hget
  rw [List.take_take, Nat.min_eq_left (by omega)]
  exact List.mem_of_getElem? hget

theorem getLast?_directoryChain {directories : List String} (h : directories ≠ []) :
    (directoryChain directories).getLast? = some (String.intercalate "/" directories) := by
  have hpos := List.length_pos_of_ne_nil h
  rw [List.getLast?_eq_getElem?, length_directoryChain, getElem?_directoryChain (by omega),
    Nat.sub_add_cancel hpos, List.take_length]

theorem exists_last_of_mem_directoryChain {directories : List String} {directory : String}
    (h : directory ∈ directoryChain directories) :
    ∃ last, (directoryChain directories).getLast? = some last ∧
      (last = directory ∨ Above directory last) := by
  obtain ⟨i, hi, rfl⟩ := List.mem_map.1 h
  have hlt := List.mem_range.1 hi
  have hne : directories ≠ [] := List.ne_nil_of_length_pos (by omega)
  refine ⟨_, getLast?_directoryChain hne, ?_⟩
  have hsplit := List.take_append_drop (i + 1) directories
  cases hrest : directories.drop (i + 1) with
  | nil =>
      rw [hrest, List.append_nil] at hsplit
      exact .inl (by rw [hsplit])
  | cons next more =>
      have htake : directories.take (i + 1) ≠ [] := by simp [hne]
      have hdrop : directories.drop (i + 1) ≠ [] := by simp [hrest]
      refine .inr ⟨String.intercalate "/" (directories.drop (i + 1)), ?_⟩
      rw [← String.intercalate_append_of_ne_nil htake hdrop, hsplit]

/-! ## Canonical paths -/

def shownStep (c : Component) : String := String.ofList c.segment

section Placement

variable {f : Filter} {s : Source} {names : List Component} {name : String}
  (hroot : f.root.isAbsolute = true) (hs : s.path.FileIn names name)

include hroot hs

theorem components_relativeTo : (s.path.parentOrEmpty.relativeTo f.root).components =
    Path.way f.root s.path.parentOrEmpty :=
  Path.components_ofComponents (Path.isWay_way hs.isAbsolute_parent hroot).isStep

theorem placement_below {below : List String}
    (h : s.path.parentOrEmpty.normal = f.root.normal ++ below.map .name) :
    placement f s = ⟨⟨s.path, below⟩, []⟩ := by
  have hway := components_relativeTo hroot hs
  rw [Path.way_of_normal_append h] at hway
  unfold placement
  rw [hs.parent?_eq]
  have htexts : below.map (fun text => shownStep (.name text)) = below := by
    simp [shownStep, Component.segment]
  cases below with
  | nil => simp only [Option.getD_some, hway, List.map_nil]; rfl
  | cons first rest =>
      simp only [Option.getD_some, hway, List.map_cons]
      refine congrArg (fun shown => Logged.mk (Placement.mk s.path shown) []) ?_
      rw [← List.map_cons, ← List.map_cons, List.map_map]
      exact htexts

/-- A source that is not below the root goes where the way leads after its first step up. -/
theorem placement_outside (h : ¬ f.root.normal <+: s.path.parentOrEmpty.normal) :
    ∃ rest : List Component, (∀ c ∈ rest, c.IsStep) ∧ placement f s =
      ⟨⟨s.path, rest.map shownStep⟩, [.outsideRoot f.name s.path f.root]⟩ := by
  have hsteps := (Path.isWay_way hs.isAbsolute_parent hroot).isStep
  have hcomponents := components_relativeTo hroot hs
  cases hway : Path.way f.root s.path.parentOrEmpty with
  | nil => exact absurd (Path.way_eq_nil_iff.1 hway ▸ List.prefix_refl _) h
  | cons c rest =>
      by_cases hc : c = .parent
      · subst hc
        rw [hway] at hsteps hcomponents
        refine ⟨rest, fun d hd => hsteps d (List.mem_cons_of_mem _ hd), ?_⟩
        unfold placement
        rw [hs.parent?_eq]
        simp only [Option.getD_some, hcomponents]
        refine congrArg (fun shown => Logged.mk (Placement.mk s.path shown) _)
          (List.map_congr_left fun c hc => ?_)
        rcases hsteps c (List.mem_cons_of_mem _ hc) with rfl | hname
        · rfl
        · cases c with
          | name text => rfl
          | root | current | parent => exact hname.elim
      · have hnormal := Path.normal_of_way_eq_cons hs.isAbsolute_parent hroot hway hc
        exact absurd ⟨_, hnormal.symm⟩ h

theorem exists_below (h : f.root.normal <+: s.path.parentOrEmpty.normal) :
    ∃ below : List String, s.path.parentOrEmpty.normal = f.root.normal ++ below.map .name := by
  obtain ⟨cs, hcs⟩ := h
  have hnames := Path.isName_of_normal_append hs.isAbsolute_parent hroot hcs.symm
  have hshown : ∀ c ∈ cs, Component.name (shownStep c) = c := by
    intro c hc
    cases c with
    | name text => simp [shownStep, Component.segment]
    | root | current | parent => exact (hnames _ hc).elim
  refine ⟨cs.map shownStep, ?_⟩
  rw [← hcs, List.map_map, List.append_cancel_left_eq]
  exact ((List.map_congr_left hshown).trans (List.map_id' cs)).symm

theorem slash_not_mem_directoriesOf :
    ∀ directory ∈ directoriesOf f s, '/' ∉ directory.toList := by
  intro directory hdirectory
  by_cases h : f.root.normal <+: s.path.parentOrEmpty.normal
  · obtain ⟨below, hbelow⟩ := exists_below hroot hs h
    have hnames := Path.isName_of_normal_append hs.isAbsolute_parent hroot hbelow
    rw [directoriesOf, placement_below hroot hs hbelow] at hdirectory
    exact (hnames _ (List.mem_map_of_mem hdirectory)).isStep.slash_not_mem
  · obtain ⟨rest, hrest, hplacement⟩ := placement_outside hroot hs h
    rw [directoriesOf, hplacement] at hdirectory
    obtain ⟨c, hc, rfl⟩ := List.mem_map.1 hdirectory
    rw [shownStep, String.toList_ofList]
    exact (hrest c hc).slash_not_mem

theorem problems_placement :
    (placement f s).problems =
      if f.root.normal <+: s.path.parentOrEmpty.normal then []
      else [.outsideRoot f.name s.path f.root] := by
  split
  · next h =>
      obtain ⟨below, hbelow⟩ := exists_below hroot hs h
      rw [placement_below hroot hs hbelow]
  · next h =>
      obtain ⟨rest, -, hplacement⟩ := placement_outside hroot hs h
      rw [hplacement]

end Placement

end Project

/-! ## The sub-filters of a filter -/

namespace Filter

/-- No directory is shown twice, and each comes behind those above it. -/
structure Nested (f : Filter) : Prop where
  distinct : f.shown.Nodup
  above : ∀ (i : Nat) (directory rest : String), f.shown[i]? = some (directory ++ "/" ++ rest) →
    ∃ j < i, f.shown[j]? = some directory

theorem nested_showing {f : Filter} (hnone : f.subFilters = []) {directories : List String}
    (h : Downward Project.Above [] directories) : (f.showing directories).Nested := by
  have hshown : (f.showing directories).shown = firsts id [] directories := by
    rw [shown_showing, shown, hnone]
    rfl
  constructor
  · rw [hshown, ← List.map_id (firsts id [] directories)]
    exact nodup_map_firsts [] directories
  · intro i directory rest hi
    rw [hshown] at hi ⊢
    obtain ⟨hlt, hget⟩ := List.getElem?_eq_some_iff.1 hi
    have hsplit : firsts id [] directories = (firsts id [] directories).take i ++
        (firsts id [] directories)[i] :: (firsts id [] directories).drop (i + 1) := by
      rw [← List.drop_eq_getElem_cons hlt, List.take_append_drop]
    rcases h.firsts _ _ _ hsplit directory ⟨rest, hget⟩ with hnil | hbefore
    · cases hnil
    · obtain ⟨j, hj, hdirectory⟩ := List.mem_take_iff_getElem.1 hbefore
      refine ⟨j, by omega, ?_⟩
      rw [List.getElem?_eq_getElem (by omega), hdirectory]

/-- The source is in the sub-filter of its directory, and in none if that is the root. -/
def Seats (f : Filter) (s : Source) : Prop :=
  ∃ below : List String, s.path.parentOrEmpty.normal = f.root.normal ++ below.map .name ∧
    if below = [] then s.subFilter = none
    else ∃ i, s.subFilter = some i ∧ f.shown[i]? = some (String.intercalate "/" below)

/-- The source is in the sub-filter of the directory or in one below that. -/
def Covers (f : Filter) (directory : String) (s : Source) : Prop :=
  ∃ i deepest, s.subFilter = some i ∧ f.shown[i]? = some deepest ∧
    (deepest = directory ∨ Project.Above directory deepest)

end Filter

/-! ## The sub-filters of a project -/

namespace Project

def flat (p : Project) : Project :=
  { p with
    filters := p.filters.map fun f => { f with subFilters := [] }
    sources := p.sources.map fun s => { s with subFilter := none } }

/-- A warning for each source of the filter whose directory is neither its root nor below that. -/
def outsiders (p : Project) (i : Nat) (f : Filter) : List Problem :=
  if f.directories then
    (p.filterSources i).flatMap fun s =>
      if f.root.normal <+: s.path.parentOrEmpty.normal then []
      else [.outsideRoot f.name s.path f.root]
  else []

section Mirror

variable {p : Project} {i : Nat} {f : Filter} {s : Source}

theorem severity_outsiders {problem : Problem} (h : problem ∈ p.outsiders i f) :
    problem.severity = .warning := by
  unfold outsiders at h
  split at h
  · obtain ⟨s, -, hproblem⟩ := List.mem_flatMap.1 h
    split at hproblem
    · cases hproblem
    · obtain rfl := List.mem_singleton.1 hproblem
      rfl
  · cases h

theorem mirrored_without (p : Project) (i : Nat) (f : Filter) :
    { p.mirrored i f with subFilters := [] } = { f with subFilters := [] } := by
  unfold mirrored
  split <;> rfl

theorem reseated_without (p : Project) (s : Source) :
    { p.reseated s with subFilter := none } = { s with subFilter := none } := by
  unfold reseated
  split
  · rfl
  · split
    · unfold seated
      split <;> rfl
    · rfl

theorem flat_mirror (hfilters : ∀ f ∈ p.filters, f.subFilters = [])
    (hsources : ∀ s ∈ p.sources, s.subFilter = none) : p.mirror.flat = p := by
  have hf : p.mirror.filters.map (fun f => { f with subFilters := [] }) = p.filters := by
    apply List.ext_getElem?
    intro i
    rw [List.getElem?_map, getElem?_filters_mirror, Option.map_map]
    cases hget : p.filters[i]? with
    | none => rfl
    | some f =>
        rw [Option.map_some, Function.comp_apply, mirrored_without,
          ← hfilters f (List.mem_of_getElem? hget)]
  have hs : p.mirror.sources.map (fun s => { s with subFilter := none }) = p.sources := by
    refine List.map_map.trans ((List.map_congr_left fun s hs => ?_).trans (List.map_id _))
    rw [Function.comp_apply, reseated_without, ← hsources s hs, id]
  unfold flat
  rw [hf, hs]
  rfl

section Seated

variable (hf : p.filters[i]? = some f) (hshows : f.directories = true) (hs : s ∈ p.filterSources i)

include hf hshows hs

theorem reseated_eq_seated : p.reseated s = seated (p.mirrored i f) s := by
  obtain ⟨-, rfl⟩ := mem_filterSources.1 hs
  rw [reseated_eq hf, if_pos hshows]

theorem exists_subFilter_reseated {directory : String}
    (hlast : (chainOf f s).getLast? = some directory) :
    ∃ k, (p.reseated s).subFilter = some k ∧ (p.mirrored i f).shown[k]? = some directory := by
  have hshown := (mem_shown_mirrored hshows).2 (.inr ⟨s, hs, List.mem_of_getLast? hlast⟩)
  rw [← chainOf_mirrored p i] at hlast
  rw [reseated_eq_seated hf hshows hs, seated_of_last hlast]
  exact Filter.exists_subFilterIndex? hshown

theorem seats_reseated (hroot : f.root.isAbsolute = true) (hnone : s.subFilter = none)
    {names : List Component} {name : String} (hpath : s.path.FileIn names name)
    (h : f.root.normal <+: s.path.parentOrEmpty.normal) :
    (p.mirrored i f).Seats (p.reseated s) := by
  obtain ⟨below, hbelow⟩ := exists_below hroot hpath h
  have hchain : chainOf f s = directoryChain below := by
    rw [chainOf, directoriesOf, placement_below hroot hpath hbelow]
  refine ⟨below, by rw [path_reseated, root_mirrored, hbelow], ?_⟩
  split
  · next hnil =>
      rw [hnil, ← chainOf_mirrored p i] at hchain
      rw [reseated_eq_seated hf hshows hs, seated_of_nil hchain, hnone]
  · next hne =>
      apply exists_subFilter_reseated hf hshows hs
      rw [hchain, getLast?_directoryChain hne]

theorem covers_reseated {directory : String} (h : directory ∈ chainOf f s) :
    (p.mirrored i f).Covers directory (p.reseated s) := by
  obtain ⟨last, hlast, hbelow⟩ := exists_last_of_mem_directoryChain h
  obtain ⟨k, hk, hget⟩ := exists_subFilter_reseated hf hshows hs hlast
  exact ⟨k, last, hk, hget, hbelow⟩

end Seated

section Filed

variable (hroot : f.root.isAbsolute = true)
  (hfile : ∀ s ∈ p.filterSources i, ∃ names name, s.path.FileIn names name)

include hroot hfile

theorem nested_mirrored (hnone : f.subFilters = []) (hshows : f.directories = true) :
    (p.mirrored i f).Nested := by
  unfold mirrored
  rw [if_pos hshows]
  apply Filter.nested_showing hnone
  apply Downward.flatMap
  intro s hs
  obtain ⟨names, name, hpath⟩ := hfile s hs
  exact downward_directoryChain (slash_not_mem_directoriesOf hroot hpath)

theorem strays_eq_outsiders : p.strays i f = p.outsiders i f := by
  unfold strays outsiders
  split
  · apply List.flatMap_congr
    intro s hs
    obtain ⟨names, name, hpath⟩ := hfile s hs
    exact problems_placement hroot hpath
  · rfl

end Filed

theorem mirror_of_not_directories (hf : p.filters[i]? = some f) (hshows : f.directories = false) :
    p.mirrored i f = f ∧ p.mirror.filterSources i = p.filterSources i := by
  constructor
  · simp [mirrored, hshows]
  · rw [filterSources_mirror]
    refine (List.map_congr_left fun s hs => ?_).trans (List.map_id _)
    obtain ⟨-, rfl⟩ := mem_filterSources.1 hs
    rw [reseated_eq hf, hshows, id]
    rfl

end Mirror

/--
In a project whose sources and filter roots are written canonically, building the sub-filters
changes nothing but the sub-filters and the places of sources among them. A filter that shows
directories shows each of them once and behind those above it, and none without a source in it or
below it. Every source whose directory is the root of the filter or below that is in the sub-filter
of its directory. A warning is recorded for every other source of the filter, and nothing else is
recorded. Filters that show no directories stay as they are, and so do their sources. Building the
sub-filters again changes nothing.
-/
theorem subFilters_mirror_directories {p : Project} (hpaths : p.DistinctPaths)
    (hfilters : ∀ f ∈ p.filters, f.root.Canonical ∧ f.subFilters = [])
    (hsources : ∀ s ∈ p.sources,
      s.path.Canonical ∧ s.path.fileName?.isSome = true ∧ s.subFilter = none) :
    let q := p.buildDirectories.value
    q.flat = p ∧
      (∀ i f, q.filters[i]? = some f → f.directories = true →
        f.Nested ∧
          (∀ s ∈ q.filterSources i,
            f.root.normal <+: s.path.parentOrEmpty.normal → f.Seats s) ∧
          ∀ directory ∈ f.shown, ∃ s ∈ q.filterSources i, f.Covers directory s) ∧
      (∀ i f, q.filters[i]? = some f → f.directories = false →
        p.filters[i]? = some f ∧ q.filterSources i = p.filterSources i) ∧
      p.buildDirectories.problems =
        p.filters.zipIdx.flatMap (fun entry => p.outsiders entry.2 entry.1) ∧
      (∀ problem ∈ p.buildDirectories.problems, problem.severity = .warning) ∧
      q.buildDirectories.value = q := by
  have hbuilt := buildDirectories_eq hpaths
  have hfile : ∀ s ∈ p.sources, ∃ names name, s.path.FileIn names name := by
    intro s hs
    obtain ⟨hcanonical, hname, -⟩ := hsources s hs
    obtain ⟨name, hname⟩ := Option.isSome_iff_exists.1 hname
    obtain ⟨names, hpath⟩ := Path.exists_fileIn hcanonical hname
    exact ⟨names, name, hpath⟩
  have hfiled (i : Nat) : ∀ s ∈ p.filterSources i, ∃ names name, s.path.FileIn names name :=
    fun s hs => hfile s (mem_filterSources.1 hs).1
  have hproblems : p.buildDirectories.problems =
      p.filters.zipIdx.flatMap fun entry => p.outsiders entry.2 entry.1 := by
    rw [hbuilt]
    apply List.flatMap_congr
    rintro ⟨f, i⟩ hentry
    have hf := List.mem_of_getElem? (List.mem_zipIdx_iff_getElem?.1 hentry)
    exact strays_eq_outsiders (hfilters f hf).1.absolute (hfiled i)
  rw [hproblems, hbuilt]
  refine ⟨?flat, ?shown, ?others, rfl, ?warnings, ?again⟩
  case flat =>
    exact flat_mirror (fun f hf => (hfilters f hf).2) fun s hs => (hsources s hs).2.2
  case shown =>
    intro i g hg hshows
    rw [getElem?_filters_mirror] at hg
    obtain ⟨f, hf, rfl⟩ := Option.map_eq_some_iff.1 hg
    rw [directories_mirrored] at hshows
    obtain ⟨hroot, hnone⟩ := hfilters f (List.mem_of_getElem? hf)
    rw [filterSources_mirror]
    refine ⟨nested_mirrored hroot.absolute (hfiled i) hnone hshows, ?_, ?_⟩
    · intro t ht hbelow
      obtain ⟨s, hs, rfl⟩ := List.mem_map.1 ht
      have hfree := (hsources s (mem_filterSources.1 hs).1).2.2
      obtain ⟨names, name, hpath⟩ := hfiled i s hs
      rw [path_reseated, root_mirrored] at hbelow
      exact seats_reseated hf hshows hs hroot.absolute hfree hpath hbelow
    · intro directory hdirectory
      obtain hold | ⟨s, hs, hchain⟩ := (mem_shown_mirrored hshows).1 hdirectory
      · rw [Filter.shown, hnone] at hold
        cases hold
      · exact ⟨_, List.mem_map_of_mem hs, covers_reseated hf hshows hs hchain⟩
  case others =>
    intro i g hg hshows
    rw [getElem?_filters_mirror] at hg
    obtain ⟨f, hf, rfl⟩ := Option.map_eq_some_iff.1 hg
    rw [directories_mirrored] at hshows
    obtain ⟨hself, hstay⟩ := mirror_of_not_directories hf hshows
    exact ⟨by rw [hself, hf], hstay⟩
  case warnings =>
    intro problem hproblem
    obtain ⟨⟨f, i⟩, -, hproblem⟩ := List.mem_flatMap.1 hproblem
    exact severity_outsiders hproblem
  case again => rw [buildDirectories_eq hpaths.mirror, mirror_mirror]

/-- Two filters, of which one shows directories: those of sources in its root, below it and beside
it. -/
def mirroring : Project :=
  { authored "P" .cpp ⟨"/w/p.vcxproj"⟩ ⟨"/w"⟩ with
    filters := [⟨"Src", ⟨"/w/src"⟩, true, []⟩, .rooted "Flat" ⟨"/w"⟩]
    sources :=
      [⟨⟨"/w/src/top.cpp"⟩, 0, none, false, none⟩,
        ⟨⟨"/w/src/math/vec/v3.cpp"⟩, 0, none, false, none⟩,
        ⟨⟨"/w/src/math/m.cpp"⟩, 0, none, false, none⟩,
        ⟨⟨"/w/other/x.cpp"⟩, 0, none, false, none⟩,
        ⟨⟨"/w/deep/y.cpp"⟩, 1, none, false, none⟩] }

theorem subFilters_mirror_directories_mirroring :
    let q := mirroring.buildDirectories.value
    mirroring.DistinctPaths ∧
      (∀ f ∈ mirroring.filters, f.root.Canonical ∧ f.subFilters = []) ∧
      (∀ s ∈ mirroring.sources,
        s.path.Canonical ∧ s.path.fileName?.isSome = true ∧ s.subFilter = none) ∧
      q.flat = mirroring ∧ q.buildDirectories.value = q ∧
      mirroring.buildDirectories.problems =
        [.outsideRoot "Src" ⟨"/w/other/x.cpp"⟩ ⟨"/w/src"⟩] ∧
      q.filters.map Filter.shown = [["math", "math/vec", "other"], []] ∧
      q.sources.map Source.subFilter = [none, some 1, some 0, some 2, none] := by
  intro q
  have hpaths : mirroring.DistinctPaths := by
    unfold DistinctPaths
    decide +kernel
  have hfilters : ∀ f ∈ mirroring.filters, f.root.Canonical ∧ f.subFilters = [] := by
    decide +kernel
  have hsources : ∀ s ∈ mirroring.sources,
      s.path.Canonical ∧ s.path.fileName?.isSome = true ∧ s.subFilter = none := by
    decide +kernel
  obtain ⟨hflat, -, -, hproblems, -, hagain⟩ :=
    subFilters_mirror_directories hpaths hfilters hsources
  refine ⟨hpaths, hfilters, hsources, hflat, hagain, ?_, by decide +kernel, by decide +kernel⟩
  rw [hproblems]
  decide +kernel

end Project

end SolutionPlan
