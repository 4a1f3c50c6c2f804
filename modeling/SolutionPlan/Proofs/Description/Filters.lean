import SolutionPlan.Proofs.Description.Projects

/-!
# The files of the filters

A filter takes every file that it includes from the filters before it, and then drops those that it
excludes. So a file is a source exactly if the last filter that includes it keeps it, and that
filter owns it.
-/

namespace SolutionPlan

/-- A filter with the files that its element includes and those that it excludes. -/
structure DeclaredFilter where
  filter : Filter
  included : List Path
  excluded : List Path
deriving DecidableEq

/-- The filter at this place is the last one that includes the path, and it keeps it. -/
def LastToInclude (declared : List DeclaredFilter) (path : Path) (i : Nat) : Prop :=
  ∃ d, declared[i]? = some d ∧ path.ListedIn d.included ∧ ¬ path.ListedIn d.excluded ∧
    ∀ j later, i < j → declared[j]? = some later → ¬ path.ListedIn later.included

theorem LastToInclude.lt_length {declared : List DeclaredFilter} {path : Path} {i : Nat}
    (h : LastToInclude declared path i) : i < declared.length := by
  obtain ⟨d, hd, -⟩ := h
  exact (List.getElem?_eq_some_iff.1 hd).1

private theorem getElem?_concat_eq_some {α : Type} {l : List α} {a b : α} {j : Nat} :
    (l ++ [a])[j]? = some b ↔ l[j]? = some b ∨ (j = l.length ∧ b = a) := by
  rcases Nat.lt_trichotomy j l.length with h | h | h
  · rw [List.getElem?_append_left h]
    constructor
    · exact .inl
    · rintro (hb | ⟨rfl, -⟩)
      · exact hb
      · omega
  · subst h
    simp [eq_comm]
  · rw [List.getElem?_append_right (by omega), List.getElem?_eq_none (by simp; omega),
      List.getElem?_eq_none (by omega)]
    simp
    omega

/-- A further filter takes over if it includes the path, and changes nothing if it does not. -/
theorem lastToInclude_append {declared : List DeclaredFilter} {d : DeclaredFilter} {path : Path}
    {i : Nat} :
    LastToInclude (declared ++ [d]) path i ↔
      if path.ListedIn d.included then
        ¬ path.ListedIn d.excluded ∧ i = declared.length
      else LastToInclude declared path i := by
  have hlast : (declared ++ [d])[declared.length]? = some d := by simp
  by_cases hincluded : path.ListedIn d.included
  · rw [if_pos hincluded]
    constructor
    · rintro ⟨own, hown, -, hkept, hlater⟩
      rcases getElem?_concat_eq_some.1 hown with hold | ⟨rfl, rfl⟩
      · have hlt := (List.getElem?_eq_some_iff.1 hold).1
        exact absurd hincluded (hlater declared.length d hlt hlast)
      · exact ⟨hkept, rfl⟩
    · rintro ⟨hkept, rfl⟩
      refine ⟨d, hlast, hincluded, hkept, ?_⟩
      intro j later hj hget
      have hlt := (List.getElem?_eq_some_iff.1 hget).1
      simp at hlt
      omega
  · rw [if_neg hincluded]
    constructor
    · rintro ⟨own, hown, hin, hkept, hlater⟩
      rcases getElem?_concat_eq_some.1 hown with hold | ⟨-, rfl⟩
      · refine ⟨own, hold, hin, hkept, ?_⟩
        intro j later hj hget
        exact hlater j later hj (getElem?_concat_eq_some.2 (.inl hget))
      · exact absurd hin hincluded
    · rintro ⟨own, hown, hin, hkept, hlater⟩
      refine ⟨own, getElem?_concat_eq_some.2 (.inl hown), hin, hkept, ?_⟩
      intro j later hj hget
      rcases getElem?_concat_eq_some.1 hget with hold | ⟨-, rfl⟩
      · exact hlater j later hj hold
      · exact hincluded

namespace Project

/-- The project has these filters, and each source belongs to the last filter that includes it. -/
structure Holds (p : Project) (declared : List DeclaredFilter) : Prop where
  filters : p.filters = declared.map DeclaredFilter.filter
  distinct : p.DistinctPaths
  owner : ∀ path i, p.owner? path = some i ↔ LastToInclude declared path i

theorem Holds.filter_lt {p : Project} {declared : List DeclaredFilter} (h : p.Holds declared) :
    ∀ s ∈ p.sources, s.filter < p.filters.length := by
  intro s hs
  have howner : p.owner? s.path = some s.filter :=
    (owner?_eq_some_iff h.distinct).2 ⟨s, hs, rfl, rfl⟩
  have hlt := ((h.owner s.path s.filter).1 howner).lt_length
  rw [h.filters, List.length_map]
  exact hlt

theorem Holds.addFiltered {p : Project} {declared : List DeclaredFilter} (h : p.Holds declared)
    (d : DeclaredFilter) :
    (p.addFiltered d.filter d.included d.excluded).Holds (declared ++ [d]) := by
  have hlength : p.filters.length = declared.length := by rw [h.filters, List.length_map]
  refine ⟨?_, h.distinct.addFiltered _ _ _, ?_⟩
  · simp [h.filters]
  · intro path i
    rw [owner?_addFiltered h.distinct h.filter_lt, lastToInclude_append, hlength]
    by_cases hincluded : path.ListedIn d.included
    · by_cases hexcluded : path.ListedIn d.excluded
      · simp [hincluded, hexcluded]
      · simp [hincluded, hexcluded, eq_comm]
    · simp only [hincluded, if_false]
      exact h.owner path i

end Project

namespace Workspace

/-! ## Reading filters -/

def declaredFilter? (w : Workspace) (sourceRoot : Path) (e : Node) : Option DeclaredFilter :=
  (e.attribute? "name").map fun name =>
    let f := e.filter sourceRoot name
    ⟨f, w.matched f "include" e, w.matched f "exclude" e⟩

def declaredFilters (w : Workspace) (sourceRoot : Path) (e : Node) : List DeclaredFilter :=
  e.elements.flatMap fun layer => (layer.named "filter").filterMap (w.declaredFilter? sourceRoot)

theorem holds_readFilter (w : Workspace) {p : Project} {declared : List DeclaredFilter}
    (h : p.Holds declared) (e : Node) :
    (w.readFilter p e).value.Holds
      (declared ++ (w.declaredFilter? p.sourceRoot e).toList) := by
  rw [readFilter_value]
  unfold declaredFilter?
  cases e.attribute? "name" with
  | none => simpa using h
  | some name =>
      let f := e.filter p.sourceRoot name
      exact h.addFiltered ⟨f, w.matched f "include" e, w.matched f "exclude" e⟩

theorem holds_readFilters (w : Workspace) (es : List Node) {p : Project}
    {declared : List DeclaredFilter} (h : p.Holds declared) :
    (es.foldl (fun p e => (w.readFilter p e).value) p).Holds
      (declared ++ es.filterMap (w.declaredFilter? p.sourceRoot)) := by
  induction es generalizing p declared with
  | nil => simpa using h
  | cons e rest ih =>
      have hroot : (w.readFilter p e).value.sourceRoot = p.sourceRoot :=
        Project.sourceRoot_of_header (Project.header_of_bare (w.bare_readFilter p e))
      have hrest := ih (w.holds_readFilter h e)
      rw [hroot] at hrest
      rw [List.foldl_cons, List.filterMap_cons]
      cases hdeclared : w.declaredFilter? p.sourceRoot e <;>
        simpa [hdeclared] using hrest

theorem holds_readProjectLayer (w : Workspace) (origin : Path) (layer : Node) {p : Project}
    {declared : List DeclaredFilter} (h : p.Holds declared) :
    (w.readProjectLayer origin layer p).value.Holds
      (declared ++ (layer.named "filter").filterMap (w.declaredFilter? p.sourceRoot)) := by
  obtain ⟨macros, references, heq⟩ := w.readProjectLayer_value origin layer p
  rw [heq]
  have hstart : { p with
      profile := p.profile.writeAll (layer.layerWrites ⟨w.parameters, origin, p.name⟩),
      macros := macros }.Holds declared := ⟨h.filters, h.distinct, h.owner⟩
  have hread := w.holds_readFilters (layer.named "filter") hstart
  exact ⟨hread.filters, hread.distinct, hread.owner⟩

theorem holds_readProjectLayers (w : Workspace) (origin : Path) (layers : List Node) {p : Project}
    {declared : List DeclaredFilter} (h : p.Holds declared) :
    (layers.foldl (fun p layer => (w.readProjectLayer origin layer p).value) p).Holds
      (declared ++ layers.flatMap fun layer =>
        (layer.named "filter").filterMap (w.declaredFilter? p.sourceRoot)) := by
  induction layers generalizing p declared with
  | nil => simpa using h
  | cons layer rest ih =>
      have hroot : (w.readProjectLayer origin layer p).value.sourceRoot = p.sourceRoot :=
        Project.sourceRoot_of_header (w.header_readProjectLayer origin layer p).1
      have hrest := ih (w.holds_readProjectLayer origin layer h)
      rw [hroot] at hrest
      simpa using hrest

theorem holds_declared (w : Workspace) (name : String) (e : Node) :
    (w.declared name e).Holds [] := by
  refine ⟨rfl, Project.distinctPaths_authored _ _ _ _, ?_⟩
  intro path i
  simp [LastToInclude, Project.owner?, Project.findSource?, declared, Project.authored]

theorem holds_readAuthored {w : Workspace} {e : Node} {p : Project}
    (h : (w.readAuthored e).value = some p) : p.Holds (w.declaredFilters p.sourceRoot e) := by
  obtain ⟨name, hname, hheader, -⟩ := readAuthored_spec h
  have hroot : p.sourceRoot = (w.declared name e).sourceRoot :=
    Project.sourceRoot_of_header hheader
  rw [hroot]
  rw [readAuthored_value, hname] at h
  obtain rfl := Option.some.inj h
  have hread := w.holds_readProjectLayers e.directory e.elements (w.holds_declared name e)
  rwa [List.nil_append] at hread

/--
A path is a source of an authored project that is owned by a filter exactly if that is the last
filter that includes the path, and this filter does not exclude it.
-/
theorem sources_iff_lastToInclude (w : Workspace) (e : Node) (p : Project)
    (hread : (w.readAuthored e).value = some p) :
    let declared := w.declaredFilters p.sourceRoot e
    p.filters = declared.map DeclaredFilter.filter ∧ p.DistinctPaths ∧
      ∀ path i, (∃ s ∈ p.sources, s.path.components = path.components ∧ s.filter = i) ↔
        LastToInclude declared path i := by
  intro declared
  have h : p.Holds declared := holds_readAuthored hread
  refine ⟨h.filters, h.distinct, ?_⟩
  intro path i
  rw [← Project.owner?_eq_some_iff h.distinct]
  exact h.owner path i

def includingFilter : Node :=
  .plain ⟨"/w"⟩ "filter" [("name", "First")] "" [.plain ⟨"/w"⟩ "include" [("files", "x.c")] "" []]

/-- A filter that includes the same file and excludes it again. -/
def cancellingFilter : Node :=
  .plain ⟨"/w"⟩ "filter" [("name", "Second")] ""
    [.plain ⟨"/w"⟩ "include" [("files", "x.c")] "" [],
      .plain ⟨"/w"⟩ "exclude" [("files", "x.c")] "" []]

def twiceIncluded (filters : List Node) : Node :=
  .plain ⟨"/w"⟩ "project" [("name", "P")] "" filters

def readTwiceIncluded (filters : List Node) : Project :=
  ((literal ⟨"/w"⟩).readAuthored (twiceIncluded filters)).value.getD
    (.authored "" .cpp ⟨""⟩ ⟨""⟩)

theorem sources_iff_lastToInclude_twice :
    let p := readTwiceIncluded [cancellingFilter, includingFilter]
    ((literal ⟨"/w"⟩).readAuthored (twiceIncluded [cancellingFilter, includingFilter])).value =
        some p ∧
      ∀ path i, (∃ s ∈ p.sources, s.path.components = path.components ∧ s.filter = i) ↔
        LastToInclude ((literal ⟨"/w"⟩).declaredFilters p.sourceRoot
          (twiceIncluded [cancellingFilter, includingFilter])) path i := by
  have hread :
      ((literal ⟨"/w"⟩).readAuthored (twiceIncluded [cancellingFilter, includingFilter])).value =
        some (readTwiceIncluded [cancellingFilter, includingFilter]) := by decide +kernel
  exact ⟨hread, (sources_iff_lastToInclude _ _ _ hread).2.2⟩

/-- The first filter includes the file and does not exclude it, and yet it is no source: the second
filter takes it over before it excludes it. -/
theorem cancelled_by_later_filter :
    let p := readTwiceIncluded [includingFilter, cancellingFilter]
    ((literal ⟨"/w"⟩).readAuthored (twiceIncluded [includingFilter, cancellingFilter])).value =
        some p ∧
      (∃ d ∈ (literal ⟨"/w"⟩).declaredFilters p.sourceRoot
          (twiceIncluded [includingFilter, cancellingFilter]),
        Path.ListedIn ⟨"/w/x.c"⟩ d.included ∧ ¬ Path.ListedIn ⟨"/w/x.c"⟩ d.excluded) ∧
      ¬ ∃ s ∈ p.sources, s.path.components = (Path.mk "/w/x.c").components := by
  decide +kernel

example :
    (readTwiceIncluded [cancellingFilter, includingFilter]).sources.map (fun s => s.filter) =
      [1] := by
  decide +kernel

end Workspace

end SolutionPlan
