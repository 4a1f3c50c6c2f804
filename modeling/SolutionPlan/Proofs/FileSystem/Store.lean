import Mathlib.Data.List.Basic
import SolutionPlan.FileSystem.Store
import SolutionPlan.Proofs.Path.Canonical

/-!
# The files of a store

A store is filled by adding files. It knows a file by the normal components of its path, and so a
search in an absolute directory lists canonical paths.
-/

namespace SolutionPlan

/-- The root is no document, so each document lies in a directory. -/
def FileSystem.HasInnerDocuments (fs : FileSystem) : Prop :=
  ∀ p, (fs.read p).isOk → p.normal ≠ [.root]

structure FileSystem.HasInnerFiles (fs : FileSystem) : Prop where
  read : fs.HasInnerDocuments
  find : ∀ root pattern recursive found, root.isAbsolute = true →
    fs.find root pattern recursive = .ok found → ∀ p ∈ found, p.Inner

theorem Search.canonical_directory {root : Path} {pattern : String} {search : Search}
    (hroot : root.isAbsolute = true) (h : ofPattern root pattern = .ok search) :
    search.directory.Canonical := by
  unfold ofPattern at h
  simp only at h
  cases hnames : nameTokens ((Path.ofDocument pattern).fileName?.getD "*") with
  | error e =>
      rw [hnames] at h
      cases h
  | ok names =>
      rw [hnames] at h
      obtain rfl := Except.ok.inj h
      simp only
      split
      · exact Path.canonical_normalize (Path.isAbsolute_join hroot _)
      · exact Path.canonical_normalize hroot

namespace FileStore

/-- The store of these files. If two of them have one path, the later one counts. -/
def ofFiles (files : List (Path × String)) : FileStore :=
  files.foldl (fun store file => store.add file.1 file.2) .empty

theorem mem_add {store : FileStore} {p : Path} {text : String} {key : List Component}
    (h : key ∈ (store.add p text).files) : key = p.normal ∨ key ∈ store.files := by
  rcases Std.TreeMap.mem_insert.1 h with heq | hold
  · exact .inl (Std.LawfulEqCmp.eq_of_compare heq).symm
  · exact .inr hold

theorem mem_ofFiles {files : List (Path × String)} {key : List Component}
    (h : key ∈ (ofFiles files).files) : ∃ file ∈ files, key = file.1.normal := by
  have hall : ∀ key ∈ (ofFiles files).files, ∃ file ∈ files, key = file.1.normal := by
    apply List.foldlRecOn (motive := fun store : FileStore =>
      ∀ key ∈ store.files, ∃ file ∈ files, key = file.1.normal)
    · intro key hkey
      exact absurd hkey Std.TreeMap.not_mem_emptyc
    · intro store hstore file hfile key hkey
      rcases mem_add hkey with rfl | hold
      · exact ⟨file, hfile, rfl⟩
      · exact hstore key hold
  exact hall key h

theorem inner_of_matchesSearch {p : Path} {search : Search} {recursive : Bool}
    (hdirectory : search.directory.Canonical)
    (h : matchesSearch search recursive p.normal = true) : (Path.ofComponents p.normal).Inner := by
  unfold matchesSearch at h
  split at h
  · next rest name hbelow hlast =>
      obtain ⟨names, hnormal, -⟩ := hdirectory.exists_names
      have hfile : search.directory.components ++ rest = p.normal :=
        List.isPrefixOf?_eq_some_iff_append_eq.1 hbelow
      rw [hdirectory.components_eq, hnormal, List.cons_append] at hfile
      exact Path.inner_normalize (Path.isAbsolute_of_normal hfile.symm)
        (Path.ne_root_of_getLast? hlast)
  · cases h

theorem inner_of_find (store : FileStore) (hstore : ∀ key ∈ store.files, ∃ p : Path, key = p.normal)
    {root : Path} {pattern : String} {recursive : Bool} {found : List Path}
    (hroot : root.isAbsolute = true) (h : store.find root pattern recursive = .ok found) :
    ∀ p ∈ found, p.Inner := by
  unfold find at h
  split at h
  · cases h
  · next search hsearch =>
      split at h
      · obtain rfl := Except.ok.inj h
        rw [List.forall_mem_map]
        intro key hkey
        obtain ⟨hmem, hmatches⟩ := List.mem_filter.1 hkey
        obtain ⟨p, rfl⟩ := hstore key (Std.TreeMap.mem_keys.1 hmem)
        exact inner_of_matchesSearch (Search.canonical_directory hroot hsearch) hmatches
      · cases h

theorem hasInnerFiles_ofFiles {files : List (Path × String)}
    (h : ∀ file ∈ files, file.1.normal ≠ [.root]) :
    (ofFiles files).fileSystem.HasInnerFiles := by
  constructor
  · intro p hp
    obtain ⟨file, hfile, hsame⟩ := mem_ofFiles (mem_of_read_isOk hp)
    rw [hsame]
    exact h file hfile
  · intro root pattern recursive found hroot hfound
    refine inner_of_find (ofFiles files) ?_ hroot hfound
    intro key hkey
    obtain ⟨file, -, hsame⟩ := mem_ofFiles hkey
    exact ⟨file.1, hsame⟩

end FileStore

end SolutionPlan
