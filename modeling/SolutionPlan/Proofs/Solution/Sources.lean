import SolutionPlan.Solution.Project

/-!
# The sources of a project

Each operation on sources is described by what it does to looking a path up, and by the paths and
filters that are left. Everything else that a project says stays as it is.
-/

namespace SolutionPlan

theorem Path.same_iff {p q : Path} : p.same q = true ↔ p.components = q.components := by
  simp [Path.same]

/-- The path is among the files, however they are written. -/
def Path.ListedIn (path : Path) (files : List Path) : Prop :=
  ∃ file ∈ files, file.components = path.components

instance (path : Path) (files : List Path) : Decidable (path.ListedIn files) :=
  inferInstanceAs (Decidable (∃ file ∈ files, file.components = path.components))

theorem Path.listedIn_cons {path file : Path} {files : List Path} :
    path.ListedIn (file :: files) ↔
      file.components = path.components ∨ path.ListedIn files := by
  simp [Path.ListedIn]

theorem foldl_keeps {σ α β : Type} {step : σ → α → σ} {g : σ → β}
    (hstep : ∀ s x, g (step s x) = g s) (xs : List α) (s : σ) :
    g (xs.foldl step s) = g s := by
  induction xs generalizing s with
  | nil => rfl
  | cons x rest ih => rw [List.foldl_cons, ih, hstep]

namespace Project

def bare (p : Project) : Project := { p with filters := [], sources := [] }

/-- What the project is from the start; the layers of its description do not change it. -/
def header (p : Project) : Project :=
  { p.bare with profile := .empty, macros := [], references := [] }

theorem header_of_bare {p q : Project} (h : p.bare = q.bare) : p.header = q.header := by
  unfold header
  rw [h]

theorem name_of_header {p q : Project} (h : p.header = q.header) : p.name = q.name := by
  have hname := congrArg Project.name h
  exact hname

theorem path_of_header {p q : Project} (h : p.header = q.header) : p.path = q.path := by
  have hpath := congrArg Project.path h
  exact hpath

theorem sourceRoot_of_header {p q : Project} (h : p.header = q.header) :
    p.sourceRoot = q.sourceRoot := by
  have hroot := congrArg Project.sourceRoot h
  exact hroot

def DistinctPaths (p : Project) : Prop := (p.sources.map fun s => s.path.components).Nodup

/-! ## What stays -/

@[simp] theorem bare_addFilter (p : Project) (f : Filter) : (p.addFilter f).bare = p.bare := rfl

@[simp] theorem bare_modifySource (p : Project) (path : Path) (f : Source → Source) :
    (p.modifySource path f).bare = p.bare := rfl

@[simp] theorem bare_insertSource (p : Project) (path : Path) (filter : Nat) (generated : Bool) :
    (p.insertSource path filter generated).bare = p.bare := by
  unfold insertSource
  split <;> rfl

@[simp] theorem bare_exclude (p : Project) (path : Path) (filter : Nat) :
    (p.exclude path filter).bare = p.bare := by
  unfold exclude
  split <;> rfl

@[simp] theorem filters_insertSource (p : Project) (path : Path) (filter : Nat)
    (generated : Bool) : (p.insertSource path filter generated).filters = p.filters := by
  unfold insertSource
  split <;> rfl

@[simp] theorem filters_exclude (p : Project) (path : Path) (filter : Nat) :
    (p.exclude path filter).filters = p.filters := by
  unfold exclude
  split <;> rfl

/-! ## Looking a path up -/

theorem findSource?_congr {path other : Path} (h : path.components = other.components)
    (p : Project) : p.findSource? path = p.findSource? other := by
  unfold findSource? Path.same
  rw [h]

theorem findSource?_eq_none_iff {p : Project} {path : Path} :
    p.findSource? path = none ↔ path.components ∉ p.sources.map fun s => s.path.components := by
  simp [findSource?, Path.same]

theorem path_of_findSource? {p : Project} {path : Path} {s : Source}
    (h : p.findSource? path = some s) : s.path.components = path.components := by
  have hsame := List.find?_some (p := fun s : Source => s.path.same path) h
  exact Path.same_iff.1 hsame

theorem findSource?_of_mem {p : Project} (hp : p.DistinctPaths) {s : Source} {path : Path}
    (hs : s ∈ p.sources) (hpath : s.path.components = path.components) :
    p.findSource? path = some s := by
  unfold DistinctPaths at hp
  unfold findSource?
  generalize p.sources = sources at hp hs
  induction sources with
  | nil => simp at hs
  | cons first rest ih =>
      rw [List.map_cons, List.nodup_cons] at hp
      rcases List.mem_cons.1 hs with rfl | hs
      · simp [Path.same_iff.2 hpath]
      · have hne : first.path.same path = false := by
          rw [Bool.eq_false_iff, ne_eq, Path.same_iff, ← hpath]
          intro hsame
          exact hp.1 (hsame ▸ List.mem_map_of_mem hs)
        rw [List.find?_cons, hne]
        exact ih hp.2 hs

private theorem same_of_same_of_ne {path other : Path}
    (h : ¬ path.components = other.components) (s : Source) :
    s.path.same path = true → s.path.same other = false := by
  intro hs
  rw [Path.same_iff] at hs
  simp [Path.same, hs, h]

theorem findSource?_modifySource {p : Project} {path : Path} {f : Source → Source}
    (hf : ∀ s, (f s).path = s.path) (other : Path) :
    (p.modifySource path f).findSource? other =
      if path.components = other.components then (p.findSource? path).map f
      else p.findSource? other := by
  split
  · next h =>
      rw [← findSource?_congr h]
      exact find?_modifyFirst_self (fun s => by rw [hf]) p.sources
  · next h =>
      exact find?_modifyFirst_of_disjoint (fun s => by rw [hf])
        (same_of_same_of_ne h) p.sources

def inserted (p : Project) (path : Path) (filter : Nat) (generated : Bool) : Source :=
  match p.findSource? path with
  | some s => { s with filter := filter }
  | none => ⟨path, filter, none, generated, none⟩

theorem findSource?_insertSource (p : Project) (path : Path) (filter : Nat) (generated : Bool)
    (other : Path) :
    (p.insertSource path filter generated).findSource? other =
      if path.components = other.components then some (p.inserted path filter generated)
      else p.findSource? other := by
  unfold insertSource hasSource inserted
  cases hfound : p.findSource? path with
  | some s =>
      rw [Option.isSome_some, if_pos rfl,
        findSource?_modifySource (f := fun s => { s with filter := filter }) (fun _ => rfl), hfound]
      rfl
  | none =>
      rw [Option.isSome_none, if_neg Bool.false_ne_true]
      simp only [findSource?, List.find?_append]
      split
      · next h =>
          have hnone : p.findSource? other = none := by rw [← findSource?_congr h, hfound]
          unfold findSource? at hnone
          rw [hnone]
          simp [Path.same, h]
      · next h => simp [Path.same, h]

private theorem components_not_mem_eraseP {sources : List Source} {path : Path}
    (hsources : (sources.map fun s => s.path.components).Nodup) :
    path.components ∉
      (sources.eraseP fun s => s.path.same path).map fun s => s.path.components := by
  induction sources with
  | nil => simp
  | cons first rest ih =>
      rw [List.map_cons, List.nodup_cons] at hsources
      by_cases hfirst : first.path.same path = true
      · rw [List.eraseP_cons_of_pos (p := fun s : Source => s.path.same path) hfirst,
          ← Path.same_iff.1 hfirst]
        exact hsources.1
      · rw [List.eraseP_cons_of_neg (p := fun s : Source => s.path.same path) hfirst,
          List.map_cons, List.mem_cons, not_or]
        constructor
        · intro hpath
          exact hfirst (Path.same_iff.2 hpath.symm)
        · exact ih hsources.2

private theorem find?_eraseP_of_ne {path other : Path}
    (h : ¬ path.components = other.components) (sources : List Source) :
    (sources.eraseP fun s => s.path.same path).find? (fun s => s.path.same other) =
      sources.find? fun s => s.path.same other := by
  induction sources with
  | nil => rfl
  | cons first rest ih =>
      by_cases hfirst : first.path.same path = true
      · rw [List.eraseP_cons_of_pos (p := fun s : Source => s.path.same path) hfirst,
          List.find?_cons, same_of_same_of_ne h first hfirst]
      · rw [List.eraseP_cons_of_neg (p := fun s : Source => s.path.same path) hfirst,
          List.find?_cons, List.find?_cons, ih]

theorem findSource?_exclude {p : Project} (hp : p.DistinctPaths) (path : Path) (filter : Nat)
    (other : Path) :
    (p.exclude path filter).findSource? other =
      if path.components = other.components ∧ p.owns filter path = true then none
      else p.findSource? other := by
  unfold exclude
  by_cases howns : p.owns filter path = true
  · rw [if_pos howns]
    by_cases h : path.components = other.components
    · rw [if_pos ⟨h, howns⟩, findSource?_eq_none_iff, ← h]
      exact components_not_mem_eraseP hp
    · rw [if_neg fun hboth => h hboth.1]
      exact find?_eraseP_of_ne h p.sources
  · rw [if_neg howns, if_neg fun hboth => howns hboth.2]

/-! ## Distinct paths -/

theorem distinctPaths_authored (name : String) (kind : ProjectKind) (path root : Path) :
    (authored name kind path root).DistinctPaths := List.nodup_nil

theorem DistinctPaths.modifySource {p : Project} (hp : p.DistinctPaths) (path : Path)
    {f : Source → Source} (hf : ∀ s, (f s).path = s.path) :
    (p.modifySource path f).DistinctPaths := by
  unfold DistinctPaths Project.modifySource
  rw [map_modifyFirst (fun s => by rw [hf])]
  exact hp

theorem DistinctPaths.insertSource {p : Project} (hp : p.DistinctPaths) (path : Path)
    (filter : Nat) (generated : Bool) : (p.insertSource path filter generated).DistinctPaths := by
  unfold Project.insertSource
  split
  · exact hp.modifySource path fun _ => rfl
  · next hnew =>
      have hnone : p.findSource? path = none := by simpa [hasSource] using hnew
      rw [findSource?_eq_none_iff] at hnone
      unfold DistinctPaths at hp ⊢
      simp only [List.map_append, List.map_cons, List.map_nil]
      refine List.nodup_append.2 ⟨hp, by simp, ?_⟩
      rintro key hkey other hother rfl
      exact hnone (List.mem_singleton.1 hother ▸ hkey)

theorem DistinctPaths.exclude {p : Project} (hp : p.DistinctPaths) (path : Path)
    (filter : Nat) : (p.exclude path filter).DistinctPaths := by
  unfold Project.exclude
  split
  · exact List.Nodup.sublist ((List.eraseP_sublist).map _) hp
  · exact hp

/-! ## Owners -/

def owner? (p : Project) (path : Path) : Option Nat := (p.findSource? path).map Source.filter

theorem owner?_congr {path other : Path} (h : path.components = other.components)
    (p : Project) : p.owner? path = p.owner? other := by
  unfold owner?
  rw [findSource?_congr h]

theorem owner?_eq_some_iff {p : Project} (hp : p.DistinctPaths) {path : Path} {i : Nat} :
    p.owner? path = some i ↔
      ∃ s ∈ p.sources, s.path.components = path.components ∧ s.filter = i := by
  constructor
  · intro h
    obtain ⟨s, hs, rfl⟩ := Option.map_eq_some_iff.1 h
    exact ⟨s, List.mem_of_find?_eq_some hs, path_of_findSource? hs, rfl⟩
  · rintro ⟨s, hs, hpath, rfl⟩
    rw [owner?, findSource?_of_mem hp hs hpath]
    rfl

theorem owner?_includeSource (p : Project) (path : Path) (i : Nat) (other : Path) :
    (p.includeSource path i).owner? other =
      if path.components = other.components then some i else p.owner? other := by
  unfold owner? includeSource
  rw [findSource?_insertSource]
  split
  · unfold inserted
    cases p.findSource? path <;> rfl
  · rfl

theorem owner?_exclude {p : Project} (hp : p.DistinctPaths) (path : Path) (i : Nat)
    (other : Path) :
    (p.exclude path i).owner? other =
      if path.components = other.components ∧ p.owner? other = some i then none
      else p.owner? other := by
  have howns (h : path.components = other.components) :
      p.owns i path = true ↔ p.owner? other = some i := by
    rw [← owner?_congr h, owner?, owns]
    cases p.findSource? path <;> simp
  unfold owner?
  rw [findSource?_exclude hp]
  by_cases h : path.components = other.components
  · by_cases hi : p.owns i path = true
    · rw [if_pos ⟨h, hi⟩, if_pos ⟨h, (howns h).1 hi⟩]
      rfl
    · rw [if_neg fun hboth => hi hboth.2, if_neg fun hboth => hi ((howns h).2 hboth.2)]
  · rw [if_neg fun hboth => h hboth.1, if_neg fun hboth => h hboth.1]

/-! ## Adding a filter with its files -/

def includeAll (p : Project) (i : Nat) (files : List Path) : Project :=
  files.foldl (fun p file => p.includeSource file i) p

def excludeAll (p : Project) (i : Nat) (files : List Path) : Project :=
  files.foldl (fun p file => p.exclude file i) p

def addFiltered (p : Project) (f : Filter) (included excluded : List Path) : Project :=
  ((p.addFilter f).includeAll p.filters.length included).excludeAll p.filters.length excluded

@[simp] theorem bare_includeAll (p : Project) (i : Nat) (files : List Path) :
    (p.includeAll i files).bare = p.bare :=
  foldl_keeps (fun p file => p.bare_insertSource file i false) files p

@[simp] theorem bare_excludeAll (p : Project) (i : Nat) (files : List Path) :
    (p.excludeAll i files).bare = p.bare :=
  foldl_keeps (fun p file => p.bare_exclude file i) files p

@[simp] theorem bare_addFiltered (p : Project) (f : Filter) (included excluded : List Path) :
    (p.addFiltered f included excluded).bare = p.bare := by
  simp [addFiltered]

@[simp] theorem filters_includeAll (p : Project) (i : Nat) (files : List Path) :
    (p.includeAll i files).filters = p.filters :=
  foldl_keeps (fun p file => p.filters_insertSource file i false) files p

@[simp] theorem filters_excludeAll (p : Project) (i : Nat) (files : List Path) :
    (p.excludeAll i files).filters = p.filters :=
  foldl_keeps (fun p file => p.filters_exclude file i) files p

@[simp] theorem filters_addFiltered (p : Project) (f : Filter) (included excluded : List Path) :
    (p.addFiltered f included excluded).filters = p.filters ++ [f] := by
  simp [addFiltered, addFilter]

theorem DistinctPaths.includeAll {p : Project} (hp : p.DistinctPaths) (i : Nat)
    (files : List Path) : (p.includeAll i files).DistinctPaths := by
  induction files generalizing p with
  | nil => exact hp
  | cons file rest ih => exact ih (hp.insertSource file i false)

theorem DistinctPaths.excludeAll {p : Project} (hp : p.DistinctPaths) (i : Nat)
    (files : List Path) : (p.excludeAll i files).DistinctPaths := by
  induction files generalizing p with
  | nil => exact hp
  | cons file rest ih => exact ih (hp.exclude file i)

theorem DistinctPaths.addFiltered {p : Project} (hp : p.DistinctPaths) (f : Filter)
    (included excluded : List Path) : (p.addFiltered f included excluded).DistinctPaths := by
  have hadded : (p.addFilter f).DistinctPaths := hp
  exact (hadded.includeAll _ included).excludeAll _ excluded

theorem owner?_includeAll (i : Nat) (files : List Path) (p : Project) (path : Path) :
    (p.includeAll i files).owner? path =
      if path.ListedIn files then some i else p.owner? path := by
  induction files generalizing p with
  | nil => simp [includeAll, Path.ListedIn]
  | cons file rest ih =>
      have hstep : (p.includeAll i (file :: rest)).owner? path = _ := ih (p.includeSource file i)
      rw [hstep, owner?_includeSource]
      simp only [Path.listedIn_cons]
      by_cases hrest : path.ListedIn rest
      · simp [hrest]
      · simp [hrest]

theorem owner?_excludeAll (i : Nat) (files : List Path) {p : Project} (hp : p.DistinctPaths)
    (path : Path) :
    (p.excludeAll i files).owner? path =
      if path.ListedIn files ∧ p.owner? path = some i then none else p.owner? path := by
  induction files generalizing p with
  | nil => simp [excludeAll, Path.ListedIn]
  | cons file rest ih =>
      have hstep : (p.excludeAll i (file :: rest)).owner? path = _ := ih (hp.exclude file i)
      rw [hstep, owner?_exclude hp]
      simp only [Path.listedIn_cons]
      by_cases howned : p.owner? path = some i
      · by_cases hfile : file.components = path.components <;> simp [howned, hfile]
      · simp [howned]

/-- A new filter takes what it includes from the others and then drops what it excludes of that.
No filter had its number before. -/
theorem owner?_addFiltered {p : Project} (hp : p.DistinctPaths)
    (hfilters : ∀ s ∈ p.sources, s.filter < p.filters.length) (f : Filter)
    (included excluded : List Path) (path : Path) :
    (p.addFiltered f included excluded).owner? path =
      if path.ListedIn included then
        if path.ListedIn excluded then none else some p.filters.length
      else p.owner? path := by
  have hadded : (p.addFilter f).DistinctPaths := hp
  have hsame : (p.addFilter f).owner? path = p.owner? path := rfl
  unfold addFiltered
  rw [owner?_excludeAll _ _ (hadded.includeAll _ included), owner?_includeAll, hsame]
  by_cases hincluded : path.ListedIn included
  · simp [hincluded]
  · have hold : p.owner? path ≠ some p.filters.length := by
      intro h
      obtain ⟨s, hs, -, hi⟩ := (owner?_eq_some_iff hp).1 h
      have := hfilters s hs
      omega
    simp [hincluded, hold]

end Project

end SolutionPlan
