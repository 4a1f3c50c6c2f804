import SolutionPlan.Proofs.Resolution.Firsts
import SolutionPlan.Solution.Project

/-!
# Sub-filters

A filter shows directories in the order in which they are first asked for. Showing more of them
keeps the places of those that are shown, and showing them again changes nothing.
-/

namespace SolutionPlan.Filter

def subFilterFor (f : Filter) (directory : String) : SubFilter :=
  ⟨f.name ++ "\\" ++ String.ofList (Text.replaceChar '/' '\\' directory.toList), directory⟩

def shown (f : Filter) : List String := f.subFilters.map SubFilter.directory

def showing (f : Filter) (directories : List String) : Filter :=
  { f with subFilters := f.subFilters ++ (firsts id f.shown directories).map f.subFilterFor }

variable {f : Filter} {directory : String} {directories more : List String}

theorem shown_showing (f : Filter) (directories : List String) :
    (f.showing directories).shown = f.shown ++ firsts id f.shown directories := by
  simp [shown, showing, subFilterFor, Function.comp_def]

theorem mem_shown_showing :
    directory ∈ (f.showing directories).shown ↔ directory ∈ f.shown ∨ directory ∈ directories := by
  rw [shown_showing, List.mem_append]
  have hfirsts : directory ∈ (firsts id f.shown directories).map id ↔
      directory ∈ directories.map id ∧ directory ∉ f.shown := mem_map_firsts
  rw [List.map_id, List.map_id] at hfirsts
  rw [hfirsts]
  tauto

theorem showing_showing (f : Filter) (directories more : List String) :
    (f.showing directories).showing more = f.showing (directories ++ more) := by
  have hshown := shown_showing f directories
  unfold showing at hshown ⊢
  simp only [hshown, firsts_append, List.map_append, List.map_id, List.append_assoc]
  rfl

theorem showing_eq_self (h : ∀ directory ∈ directories, directory ∈ f.shown) :
    f.showing directories = f := by
  have hnone : firsts id f.shown directories = [] := firsts_eq_nil_iff.2 h
  unfold showing
  rw [hnone, List.map_nil, List.append_nil]

theorem showing_nil (f : Filter) : f.showing [] = f := showing_eq_self nofun

/-! ## Places -/

theorem subFilterIndex?_eq (f : Filter) (directory : String) :
    f.subFilterIndex? directory = f.shown.findIdx? (· == directory) := by
  unfold subFilterIndex? shown
  rw [List.findIdx?_map]
  rfl

theorem subFilterIndex?_eq_none_iff :
    f.subFilterIndex? directory = none ↔ directory ∉ f.shown := by
  rw [subFilterIndex?_eq, List.findIdx?_eq_none_iff]
  simp only [beq_eq_false_iff_ne]
  exact ⟨fun h hmem => h directory hmem rfl, fun h other hother heq => h (heq ▸ hother)⟩

theorem getElem?_of_subFilterIndex? {i : Nat} (h : f.subFilterIndex? directory = some i) :
    f.shown[i]? = some directory := by
  rw [subFilterIndex?_eq] at h
  obtain ⟨hlt, hsame, -⟩ := List.findIdx?_eq_some_iff_getElem.1 h
  rw [List.getElem?_eq_getElem hlt, beq_iff_eq.1 hsame]

theorem exists_subFilterIndex? (h : directory ∈ f.shown) :
    ∃ i, f.subFilterIndex? directory = some i ∧ f.shown[i]? = some directory := by
  obtain ⟨i, hi⟩ := Option.ne_none_iff_exists'.1 fun hnone => subFilterIndex?_eq_none_iff.1 hnone h
  exact ⟨i, hi, getElem?_of_subFilterIndex? hi⟩

theorem subFilterIndex?_showing (h : directory ∈ f.shown) :
    (f.showing more).subFilterIndex? directory = f.subFilterIndex? directory := by
  obtain ⟨i, hi, -⟩ := exists_subFilterIndex? h
  rw [hi, subFilterIndex?_eq, shown_showing, List.findIdx?_append, ← subFilterIndex?_eq, hi,
    Option.some_or]

theorem ensureSubFilter_eq (f : Filter) (directory : String) :
    ∃ i, (f.showing [directory]).subFilterIndex? directory = some i ∧
      f.ensureSubFilter directory = (i, f.showing [directory]) := by
  unfold ensureSubFilter
  cases hfound : f.subFilterIndex? directory with
  | some i =>
      have hmem := List.mem_of_getElem? (getElem?_of_subFilterIndex? hfound)
      have hself : f.showing [directory] = f := showing_eq_self (by simpa using hmem)
      exact ⟨i, by rw [hself, hfound], by rw [hself]⟩
  | none =>
      have hnew : firsts id f.shown [directory] = [directory] := by
        simp [firsts, subFilterIndex?_eq_none_iff.1 hfound]
      have hshowing : f.showing [directory] =
          { f with subFilters := f.subFilters ++ [f.subFilterFor directory] } := by
        unfold showing
        rw [hnew]
        rfl
      refine ⟨f.subFilters.length, ?_, by rw [hshowing]; rfl⟩
      rw [subFilterIndex?_eq, shown_showing, hnew, List.findIdx?_append, ← subFilterIndex?_eq,
        hfound]
      simp [shown]

end SolutionPlan.Filter
