import SolutionPlan.Proofs.Diagnostics
import SolutionPlan.Proofs.Path.Slash
import SolutionPlan.Proofs.Solution.Arena
import SolutionPlan.Proofs.Solution.SubFilters
import SolutionPlan.Resolution.Directories

/-!
# Sub-filters that mirror directories

A filter that shows directories shows those of its sources, the outer ones before the inner ones and
each of them once. Every source is seated in the sub-filter of its own directory, whose place later
sources do not change.
-/

namespace SolutionPlan.Project

/-! ## One source -/

def directoriesOf (f : Filter) (s : Source) : List String := (placement f s).value.directories

def chainOf (f : Filter) (s : Source) : List String := directoryChain (directoriesOf f s)

/-- The source with its place among the sub-filters. A source in the root of the filter has none. -/
def seated (f : Filter) (s : Source) : Source :=
  match (chainOf f s).getLast? with
  | none => s
  | some directory => { s with subFilter := f.subFilterIndex? directory }

theorem seated_of_nil {f : Filter} {s : Source} (h : chainOf f s = []) : seated f s = s := by
  unfold seated
  rw [h]
  rfl

theorem seated_of_last {f : Filter} {s : Source} {directory : String}
    (h : (chainOf f s).getLast? = some directory) :
    seated f s = { s with subFilter := f.subFilterIndex? directory } := by
  unfold seated
  rw [h]

theorem placement_value (f : Filter) (s : Source) :
    (placement f s).value = ⟨s.path, directoriesOf f s⟩ := by
  have hpath : (placement f s).value.path = s.path := by
    unfold placement
    simp only
    split <;> rfl
  rw [← hpath]
  rfl

theorem directoriesOf_congr {f g : Filter} {s t : Source} (hroot : f.root = g.root)
    (hpath : s.path = t.path) : directoriesOf f s = directoriesOf g t := by
  unfold directoriesOf placement
  rw [hroot, hpath]
  simp only
  split <;> rfl

theorem chainOf_showing (f : Filter) (directories : List String) (s : Source) :
    chainOf (f.showing directories) s = chainOf f s := by
  unfold chainOf
  rw [directoriesOf_congr (f := f.showing directories) (g := f) rfl rfl]

theorem path_seated (f : Filter) (s : Source) : (seated f s).path = s.path := by
  unfold seated
  split <;> rfl

theorem filter_seated (f : Filter) (s : Source) : (seated f s).filter = s.filter := by
  unfold seated
  split <;> rfl

theorem chainOf_seated (f g : Filter) (s : Source) : chainOf f (seated g s) = chainOf f s := by
  unfold chainOf
  rw [directoriesOf_congr rfl (path_seated g s)]

theorem seated_showing {f : Filter} {s : Source}
    (h : ∀ directory ∈ chainOf f s, directory ∈ f.shown) (more : List String) :
    seated (f.showing more) s = seated f s := by
  have hchain := chainOf_showing f more s
  cases hlast : (chainOf f s).getLast? with
  | none =>
      have hnil := List.getLast?_eq_none_iff.1 hlast
      rw [seated_of_nil hnil, seated_of_nil (hchain.trans hnil)]
  | some directory =>
      rw [seated_of_last hlast, seated_of_last (hchain ▸ hlast),
        Filter.subFilterIndex?_showing (h directory (List.mem_of_getLast? hlast))]

theorem seated_seated (f : Filter) (s : Source) : seated f (seated f s) = seated f s := by
  have hchain := chainOf_seated f f s
  cases hlast : (chainOf f s).getLast? with
  | none => rw [seated_of_nil (hchain.trans (List.getLast?_eq_none_iff.1 hlast))]
  | some directory =>
      rw [seated_of_last (hchain.symm ▸ hlast), seated_of_last hlast]

theorem ensureChain_eq (f : Filter) (chain : List String) :
    ensureChain f chain =
      (chain.getLast?.bind (f.showing chain).subFilterIndex?, f.showing chain) := by
  induction chain using List.reverseRecOn with
  | nil =>
      rw [Filter.showing_nil]
      rfl
  | append_singleton front directory ih =>
      obtain ⟨i, hi, hensure⟩ := (f.showing front).ensureSubFilter_eq directory
      rw [Filter.showing_showing] at hi hensure
      unfold ensureChain at ih ⊢
      rw [List.foldl_append, ih]
      simp only [List.foldl_cons, List.foldl_nil, hensure, List.getLast?_concat, Option.bind_some,
        hi]

/-! ## The sources of one filter -/

section Filter

variable {p : Project} {i : Nat} {f : Filter} {s : Source}

theorem place_eq (hp : p.DistinctPaths) (hf : p.filters[i]? = some f) (hs : s ∈ p.sources) :
    let showing := f.showing (chainOf f s)
    place i p ⟨s.path, directoriesOf f s⟩ =
      { p with
        filters := p.filters.set i showing
        sources := p.sources.map fun t => if t = s then seated showing t else t } := by
  intro showing
  have hchain : ensureChain f (directoryChain (directoriesOf f s)) =
      ((chainOf f s).getLast?.bind showing.subFilterIndex?, showing) := ensureChain_eq f _
  unfold place
  simp only [hf, hchain]
  cases hlast : (chainOf f s).getLast? with
  | none =>
      -- Nothing is asked for: the filter is put back as it was, and the source keeps its place.
      have hnil := List.getLast?_eq_none_iff.1 hlast
      have hshowing : showing = f := by
        simp only [showing, hnil, Filter.showing_nil]
      have hstays (t : Source) : (if t = s then seated f t else t) = t := by
        split
        · next hts => rw [hts, seated_of_nil hnil]
        · rfl
      have hset : p.filters.set i f = p.filters := by
        obtain ⟨hi, rfl⟩ := List.getElem?_eq_some_iff.1 hf
        exact List.set_getElem_self hi
      simp only [Option.bind_none, hshowing, hset, hstays, List.map_id']
  | some directory =>
      have hshown : directory ∈ showing.shown :=
        Filter.mem_shown_showing.2 (.inr (List.mem_of_getLast? hlast))
      obtain ⟨k, hk, -⟩ := Filter.exists_subFilterIndex? hshown
      have hseated : seated showing s = { s with subFilter := some k } := by
        rw [seated_of_last ((chainOf_showing f _ s).symm ▸ hlast), hk]
      -- The source is looked up by its path, which no other source has.
      have hdistinct : { p with filters := p.filters.set i showing }.DistinctPaths := hp
      simp only [Option.bind_some, hk, modifySource_eq_map hdistinct]
      congr 1
      apply List.map_congr_left
      intro t ht
      by_cases hts : t = s
      · subst hts
        rw [if_pos (Path.same_iff.2 rfl), if_pos rfl, hseated]
      · have hdiffers : ¬ t.path.same s.path = true := fun hsame => hts (eq_of_same hp ht hs hsame)
        rw [if_neg hdiffers, if_neg hts]

def arrangedSource (f : Filter) (done : List Source) (s : Source) : Source :=
  if s ∈ done then seated (f.showing (done.flatMap (chainOf f))) s else s

def arranged (p : Project) (i : Nat) (f : Filter) (done : List Source) : Project :=
  { p with
    filters := p.filters.set i (f.showing (done.flatMap (chainOf f)))
    sources := p.sources.map (arrangedSource f done) }

theorem arranged_nil (hf : p.filters[i]? = some f) : p.arranged i f [] = p := by
  obtain ⟨hi, rfl⟩ := List.getElem?_eq_some_iff.1 hf
  have hstays : arrangedSource p.filters[i] [] = id := funext fun s => if_neg List.not_mem_nil
  simp [arranged, hstays, Filter.showing_nil]

theorem path_arrangedSource (f : Filter) (done : List Source) (s : Source) :
    (arrangedSource f done s).path = s.path := by
  unfold arrangedSource
  split
  · exact path_seated _ s
  · rfl

theorem DistinctPaths.map (hp : p.DistinctPaths) {change : Source → Source}
    (hpath : ∀ s, (change s).path = s.path) :
    { p with sources := p.sources.map change }.DistinctPaths := by
  unfold DistinctPaths at *
  simp only [List.map_map, Function.comp_def, hpath]
  exact hp

theorem DistinctPaths.arranged (hp : p.DistinctPaths) (done : List Source) :
    (p.arranged i f done).DistinctPaths :=
  DistinctPaths.map (p := { p with filters := p.filters.set i _ }) hp (path_arrangedSource f done)

/-- Sources are seated for good: the next one is seated, and those before it keep their places. -/
theorem arrangedSource_concat (hp : p.DistinctPaths) {done : List Source} {t : Source}
    (hs : s ∈ p.sources) (hnew : s ∉ done) (ht : t ∈ p.sources) :
    (if arrangedSource f done t = s then
        seated (f.showing ((done ++ [s]).flatMap (chainOf f))) (arrangedSource f done t)
      else arrangedSource f done t) = arrangedSource f (done ++ [s]) t := by
  by_cases hts : t = s
  · subst hts
    have hthere : arrangedSource f done t = t := if_neg hnew
    rw [hthere, if_pos rfl, arrangedSource, if_pos (by simp)]
  · have hother : arrangedSource f done t ≠ s := by
      intro hsame
      have hpath : t.path = s.path := by rw [← path_arrangedSource f done t, hsame]
      exact hts (eq_of_same hp ht hs (Path.same_iff.2 (congrArg Path.components hpath)))
    rw [if_neg hother]
    unfold arrangedSource
    by_cases htdone : t ∈ done
    · have hshown : ∀ directory ∈ chainOf (f.showing (done.flatMap (chainOf f))) t,
          directory ∈ (f.showing (done.flatMap (chainOf f))).shown := by
        intro directory hdirectory
        rw [chainOf_showing] at hdirectory
        exact Filter.mem_shown_showing.2 (.inr (List.mem_flatMap.2 ⟨t, htdone, hdirectory⟩))
      rw [if_pos htdone, if_pos (List.mem_append_left _ htdone), List.flatMap_append,
        ← Filter.showing_showing, seated_showing hshown]
    · rw [if_neg htdone, if_neg (by simp [htdone, hts])]

theorem place_arranged (hp : p.DistinctPaths) (hf : p.filters[i]? = some f) {done : List Source}
    (hs : s ∈ p.sources) (hnew : s ∉ done) :
    place i (p.arranged i f done) (placement f s).value = p.arranged i f (done ++ [s]) := by
  have hi := (List.getElem?_eq_some_iff.1 hf).1
  let front := f.showing (done.flatMap (chainOf f))
  have hfront : (p.arranged i f done).filters[i]? = some front := List.getElem?_set_self hi
  have hmem : s ∈ (p.arranged i f done).sources := List.mem_map.2 ⟨s, hs, if_neg hnew⟩
  have hdirectories : directoriesOf front s = directoriesOf f s := directoriesOf_congr rfl rfl
  have hmore : front.showing (chainOf front s) =
      f.showing ((done ++ [s]).flatMap (chainOf f)) := by
    rw [chainOf_showing, Filter.showing_showing, List.flatMap_append, List.flatMap_singleton]
  have hplaced := place_eq (hp.arranged done) hfront hmem
  simp only [hdirectories, ← placement_value, hmore] at hplaced
  rw [hplaced]
  unfold arranged
  simp only [List.set_set, List.map_map]
  congr 1
  exact List.map_congr_left fun t ht => arrangedSource_concat hp hs hnew ht

theorem foldl_place (hp : p.DistinctPaths) (hf : p.filters[i]? = some f) {done rest : List Source}
    (hsources : ∀ s ∈ done ++ rest, s ∈ p.sources) (hnodup : (done ++ rest).Nodup) :
    rest.foldl (fun p s => place i p (placement f s).value) (p.arranged i f done) =
      p.arranged i f (done ++ rest) := by
  induction rest generalizing done with
  | nil => rw [List.foldl_nil, List.append_nil]
  | cons s rest ih =>
      have hs : s ∈ p.sources := hsources s (by simp)
      have hnew : s ∉ done := fun hmem =>
        List.disjoint_of_nodup_append hnodup hmem List.mem_cons_self
      rw [List.append_cons] at hsources hnodup ⊢
      rw [List.foldl_cons, place_arranged hp hf hs hnew, ih hsources hnodup]

theorem showDirectories_eq_arranged (hp : p.DistinctPaths) (hf : p.filters[i]? = some f)
    (hshows : f.directories = true) :
    p.showDirectories i =
      ⟨p.arranged i f (p.filterSources i),
        (p.filterSources i).flatMap fun s => (placement f s).problems⟩ := by
  have hsources : ∀ s ∈ [] ++ p.filterSources i, s ∈ p.sources :=
    fun s hs => (List.mem_filter.1 hs).1
  have hnodup : ([] ++ p.filterSources i).Nodup := hp.nodup_sources.filter _
  have hplaced := foldl_place hp hf hsources hnodup
  rw [arranged_nil hf] at hplaced
  have hplacements : (p.filterSources i).mapM (placement f) =
      ⟨(p.filterSources i).map fun s => (placement f s).value,
        (p.filterSources i).flatMap fun s => (placement f s).problems⟩ := by
    rw [← Logged.mapM_value, ← Logged.problems_mapM]
  unfold showDirectories
  simp only [hf, hshows, if_true]
  rw [Logged.bind_eq hplacements rfl, List.foldl_map, List.append_nil]
  exact congrArg (Logged.mk · _) hplaced

/-! ## All filters -/

def mirrored (p : Project) (i : Nat) (f : Filter) : Filter :=
  if f.directories then f.showing ((p.filterSources i).flatMap (chainOf f)) else f

/-- The source in the sub-filter of its directory, if its filter shows directories. -/
def reseated (p : Project) (s : Source) : Source :=
  match p.filters[s.filter]? with
  | none => s
  | some f => if f.directories then seated (p.mirrored s.filter f) s else s

def strays (p : Project) (i : Nat) (f : Filter) : List Problem :=
  if f.directories then (p.filterSources i).flatMap fun s => (placement f s).problems else []

theorem mem_filterSources : s ∈ p.filterSources i ↔ s ∈ p.sources ∧ s.filter = i := by
  rw [filterSources, List.mem_filter, beq_iff_eq]

theorem reseated_eq (hf : p.filters[s.filter]? = some f) :
    p.reseated s = if f.directories then seated (p.mirrored s.filter f) s else s := by
  unfold reseated
  rw [hf]

theorem path_reseated (p : Project) (s : Source) : (p.reseated s).path = s.path := by
  unfold reseated
  split
  · rfl
  · split
    · exact path_seated _ s
    · rfl

theorem filter_reseated (p : Project) (s : Source) : (p.reseated s).filter = s.filter := by
  unfold reseated
  split
  · rfl
  · split
    · exact filter_seated _ s
    · rfl

theorem showDirectories_eq (hp : p.DistinctPaths) (hf : p.filters[i]? = some f) :
    p.showDirectories i =
      ⟨{ p with
          filters := p.filters.set i (p.mirrored i f)
          sources := p.sources.map fun s => if s.filter = i then p.reseated s else s },
        p.strays i f⟩ := by
  cases hshows : f.directories with
  | true =>
      have hmirrored : p.mirrored i f = f.showing ((p.filterSources i).flatMap (chainOf f)) :=
        if_pos hshows
      have hseated : ∀ s ∈ p.sources, arrangedSource f (p.filterSources i) s =
          if s.filter = i then p.reseated s else s := by
        intro s hs
        unfold arrangedSource
        simp only [mem_filterSources, hs, true_and, ← hmirrored]
        split
        · next hsi =>
            subst hsi
            rw [reseated_eq hf, if_pos hshows]
        · rfl
      rw [showDirectories_eq_arranged hp hf hshows, strays, if_pos hshows, arranged, ← hmirrored,
        List.map_congr_left hseated]
  | false =>
      have hstays (s : Source) : (if s.filter = i then p.reseated s else s) = s := by
        split
        · next hsi =>
            subst hsi
            rw [reseated_eq hf, hshows]
            rfl
        · rfl
      have hset : p.filters.set i (p.mirrored i f) = p.filters := by
        obtain ⟨hi, rfl⟩ := List.getElem?_eq_some_iff.1 hf
        simp [mirrored, hshows]
      unfold showDirectories strays
      simp only [hf, hshows, hset, hstays, List.map_id']
      rfl

def mirroredTo (p : Project) (n : Nat) : Project :=
  { p with
    filters := p.filters.mapIdx fun i f => if i < n then p.mirrored i f else f
    sources := p.sources.map fun s => if s.filter < n then p.reseated s else s }

theorem mirroredTo_zero (p : Project) : p.mirroredTo 0 = p := by
  have hfilters : (p.filters.mapIdx fun i f => if i < 0 then p.mirrored i f else f) = p.filters :=
    List.ext_getElem? fun i => by simp
  unfold mirroredTo
  rw [hfilters]
  simp

theorem DistinctPaths.mirroredTo (hp : p.DistinctPaths) (n : Nat) :
    (p.mirroredTo n).DistinctPaths := by
  refine DistinctPaths.map (p := { p with filters := _ }) hp fun s => ?_
  split
  · exact path_reseated p s
  · rfl

theorem filterSources_mirroredTo (p : Project) (n : Nat) :
    (p.mirroredTo n).filterSources n = p.filterSources n := by
  have hfilter (s : Source) :
      (if s.filter < n then p.reseated s else s).filter = s.filter := by
    split
    · exact filter_reseated p s
    · rfl
  unfold filterSources mirroredTo
  simp only [List.filter_map, Function.comp_def, hfilter]
  rw [List.map_congr_left (g := id), List.map_id]
  intro s hs
  have hsn : s.filter = n := (mem_filterSources.1 hs).2
  rw [if_neg (by omega), id]

theorem showDirectories_mirroredTo (hp : p.DistinctPaths) {n : Nat} (hf : p.filters[n]? = some f) :
    (p.mirroredTo n).showDirectories n = ⟨p.mirroredTo (n + 1), p.strays n f⟩ := by
  have hsame : (p.mirroredTo n).filters[n]? = some f := by
    simp [mirroredTo, hf]
  have hmirrored : (p.mirroredTo n).mirrored n f = p.mirrored n f := by
    rw [mirrored, mirrored, filterSources_mirroredTo]
  have hstrays : (p.mirroredTo n).strays n f = p.strays n f := by
    rw [strays, strays, filterSources_mirroredTo]
  rw [showDirectories_eq (hp.mirroredTo n) hsame, hmirrored, hstrays]
  have hfilters : (p.mirroredTo n).filters.set n (p.mirrored n f) =
      (p.mirroredTo (n + 1)).filters := by
    apply List.ext_getElem?
    intro i
    by_cases hin : i = n
    · obtain ⟨hi, hget⟩ := List.getElem?_eq_some_iff.1 hf
      simp [mirroredTo, hin, hi, hget]
    · have hbefore : i < n ↔ i < n + 1 := by omega
      simp [mirroredTo, List.getElem?_set_ne (Ne.symm hin), hbefore]
  have hsources : ((p.mirroredTo n).sources.map fun t =>
      if t.filter = n then (p.mirroredTo n).reseated t else t) =
        (p.mirroredTo (n + 1)).sources := by
    refine List.map_map.trans (List.map_congr_left fun s _ => ?_)
    rw [Function.comp_apply]
    rcases Nat.lt_trichotomy s.filter n with hlt | rfl | hgt
    · rw [if_pos hlt, filter_reseated, if_neg (Nat.ne_of_lt hlt), if_pos (by omega)]
    · rw [if_neg (Nat.lt_irrefl _), if_pos rfl, if_pos (Nat.lt_succ_self _), reseated_eq hsame,
        reseated_eq hf, hmirrored]
    · rw [if_neg (Nat.lt_asymm hgt), if_neg (Nat.ne_of_gt hgt), if_neg (by omega)]
  rw [hfilters, hsources]
  rfl

def mirror (p : Project) : Project :=
  { p with filters := p.filters.mapIdx p.mirrored, sources := p.sources.map p.reseated }

theorem mirroredTo_length (p : Project) : p.mirroredTo p.filters.length = p.mirror := by
  have hfilters : (p.filters.mapIdx fun i f => if i < p.filters.length then p.mirrored i f else f) =
      p.filters.mapIdx p.mirrored := by
    apply List.ext_getElem
    · simp
    · intro i hi _
      simp only [List.length_mapIdx] at hi
      simp [hi]
  have hsources (s : Source) :
      (if s.filter < p.filters.length then p.reseated s else s) = p.reseated s := by
    split
    · rfl
    · next hge =>
        unfold reseated
        rw [List.getElem?_eq_none (by omega)]
  unfold mirroredTo mirror
  simp only [hfilters, hsources]

theorem foldlM_showDirectories (hp : p.DistinctPaths) {n : Nat} (hn : n ≤ p.filters.length) :
    (List.range n).foldlM showDirectories p =
      ⟨p.mirroredTo n,
        (p.filters.zipIdx.take n).flatMap fun entry => p.strays entry.2 entry.1⟩ := by
  induction n with
  | zero =>
      rw [mirroredTo_zero]
      rfl
  | succ n ih =>
      have hf : p.filters[n]? = some p.filters[n] := List.getElem?_eq_getElem hn
      have hone : [n].foldlM showDirectories (p.mirroredTo n) =
          ⟨p.mirroredTo (n + 1), p.strays n p.filters[n]⟩ := by
        rw [← showDirectories_mirroredTo hp hf]
        exact bind_pure _
      have hentry : p.filters.zipIdx[n]? = some (p.filters[n], n) := by
        rw [List.getElem?_zipIdx, hf, Option.map_some, Nat.zero_add]
      rw [List.range_succ, List.foldlM_append, Logged.bind_eq (ih (by omega)) hone,
        List.take_add_one, hentry, List.flatMap_append, Option.toList_some, List.flatMap_singleton]

/-- The sub-filters that are built, and what is recorded. -/
theorem buildDirectories_eq (hp : p.DistinctPaths) :
    p.buildDirectories =
      ⟨p.mirror, p.filters.zipIdx.flatMap fun entry => p.strays entry.2 entry.1⟩ := by
  unfold buildDirectories
  rw [foldlM_showDirectories hp (Nat.le_refl _), mirroredTo_length, List.take_of_length_le]
  rw [List.length_zipIdx]

end Filter

/-! ## What is built -/

section Mirror

variable {p : Project} {i : Nat} {f : Filter} {s : Source}

theorem directories_mirrored (p : Project) (i : Nat) (f : Filter) :
    (p.mirrored i f).directories = f.directories := by
  unfold mirrored
  split <;> rfl

theorem root_mirrored (p : Project) (i : Nat) (f : Filter) : (p.mirrored i f).root = f.root := by
  unfold mirrored
  split <;> rfl

theorem chainOf_mirrored (p : Project) (i : Nat) (f : Filter) (s : Source) :
    chainOf (p.mirrored i f) s = chainOf f s := by
  unfold mirrored
  split
  · exact chainOf_showing f _ s
  · rfl

theorem chainOf_reseated (p : Project) (f : Filter) (s : Source) :
    chainOf f (p.reseated s) = chainOf f s := by
  unfold chainOf
  rw [directoriesOf_congr rfl (path_reseated p s)]

theorem filterSources_mirror (p : Project) (i : Nat) :
    p.mirror.filterSources i = (p.filterSources i).map p.reseated := by
  unfold filterSources mirror
  simp only [List.filter_map, Function.comp_def, filter_reseated]

theorem getElem?_filters_mirror (p : Project) (i : Nat) :
    p.mirror.filters[i]? = p.filters[i]?.map (p.mirrored i) := by
  unfold mirror
  rw [List.getElem?_mapIdx]

theorem mem_shown_mirrored (hshows : f.directories = true) {directory : String} :
    directory ∈ (p.mirrored i f).shown ↔
      directory ∈ f.shown ∨ ∃ s ∈ p.filterSources i, directory ∈ chainOf f s := by
  unfold mirrored
  rw [if_pos hshows, Filter.mem_shown_showing, List.mem_flatMap]

theorem mirrored_mirrored (p : Project) (i : Nat) (f : Filter) :
    p.mirror.mirrored i (p.mirrored i f) = p.mirrored i f := by
  have hshows := directories_mirrored p i f
  have hchain := chainOf_mirrored p i f
  have hshown (hf : f.directories = true) (s : Source) (hs : s ∈ p.filterSources i) :
      ∀ directory ∈ chainOf f s, directory ∈ (p.mirrored i f).shown :=
    fun directory h => (mem_shown_mirrored hf).2 (.inr ⟨s, hs, h⟩)
  generalize p.mirrored i f = g at *
  unfold mirrored
  split
  · next hg =>
      apply Filter.showing_eq_self
      intro directory hdirectory
      obtain ⟨t, ht, hmem⟩ := List.mem_flatMap.1 hdirectory
      rw [filterSources_mirror] at ht
      obtain ⟨s, hs, rfl⟩ := List.mem_map.1 ht
      rw [chainOf_reseated, hchain] at hmem
      exact hshown (hshows ▸ hg) s hs directory hmem
  · rfl

theorem reseated_reseated (p : Project) (s : Source) :
    p.mirror.reseated (p.reseated s) = p.reseated s := by
  have hget := getElem?_filters_mirror p (p.reseated s).filter
  rw [filter_reseated] at hget
  cases hf : p.filters[s.filter]? with
  | none =>
      rw [hf] at hget
      unfold reseated
      simp only [hf, hget, Option.map_none]
  | some f =>
      rw [hf, Option.map_some, ← filter_reseated p s] at hget
      rw [reseated_eq hget, directories_mirrored, filter_reseated, mirrored_mirrored,
        reseated_eq hf]
      split
      · rw [seated_seated]
      · rfl

theorem mirror_mirror (p : Project) : p.mirror.mirror = p.mirror := by
  have hfilters : p.mirror.filters.mapIdx p.mirror.mirrored = p.mirror.filters := by
    apply List.ext_getElem?
    intro i
    rw [List.getElem?_mapIdx, getElem?_filters_mirror]
    cases p.filters[i]? with
    | none => rfl
    | some f => simp only [Option.map_some, mirrored_mirrored]
  have hsources : p.mirror.sources.map p.mirror.reseated = p.mirror.sources := by
    refine List.map_map.trans (List.map_congr_left fun s _ => ?_)
    exact reseated_reseated p s
  rw [mirror, hfilters, hsources]

theorem DistinctPaths.mirror (hp : p.DistinctPaths) : p.mirror.DistinctPaths :=
  DistinctPaths.map (p := { p with filters := _ }) hp (path_reseated p)

end Mirror

end SolutionPlan.Project
