import Mathlib.Data.List.Dedup
import SolutionPlan.Proofs.FileSystem.Store

/-!
# Looking up files

A store is a map over normal paths: reading gives what was added last under the same normal path,
and each normal path counts once. Whether the store contains a file is asked of the path as it is
written, so that agrees with reading only where this makes no difference.
-/

namespace SolutionPlan

namespace FileStore

/-- The text that was added last under the normal path of `p`. -/
def lastText? (files : List (Path × String)) (p : Path) : Option String :=
  (files.filter fun file => file.1.normalize == p.normalize).getLast?.map Prod.snd

def ContainsWhatItReads (store : FileStore) (p : Path) : Prop :=
  store.contains p = true ↔ (store.read p).isOk = true

variable {files : List (Path × String)} {p : Path}

theorem lastText?_eq_none_iff :
    lastText? files p = none ↔ ∀ file ∈ files, file.1.normalize ≠ p.normalize := by
  simp [lastText?]

theorem read?_add (store : FileStore) (q : Path) (text : String) :
    (store.add q text).read? p = if q.normal = p.normal then some text else store.read? p := by
  unfold read? add
  simp only [Std.TreeMap.getElem?_insert, Std.compare_eq_iff_eq]

theorem read?_ofFiles (files : List (Path × String)) (p : Path) :
    (ofFiles files).read? p = lastText? files p := by
  induction files using List.reverseRecOn with
  | nil => rfl
  | append_singleton files file ih =>
      have hadd : ofFiles (files ++ [file]) = (ofFiles files).add file.1 file.2 :=
        List.foldl_concat ..
      rw [hadd, read?_add, ih]
      unfold lastText?
      by_cases h : file.1.normalize = p.normalize
      · rw [if_pos (Path.normalize_eq_iff.1 h)]
        simp [List.filter_append, h]
      · rw [if_neg (fun hsame => h (Path.normalize_eq_iff.2 hsame))]
        simp [List.filter_append, h]

theorem read_ofFiles (files : List (Path × String)) (p : Path) :
    (ofFiles files).read p =
      ((lastText? files p).map Except.ok).getD (.error (.fileNotFound p)) := by
  unfold read
  rw [read?_ofFiles]
  cases lastText? files p <;> rfl

theorem isOk_read_ofFiles_iff :
    ((ofFiles files).read p).isOk = true ↔ ∃ file ∈ files, file.1.normalize = p.normalize := by
  have hnone : lastText? files p = none ↔ ∀ file ∈ files, file.1.normalize ≠ p.normalize :=
    lastText?_eq_none_iff
  rw [read_ofFiles]
  cases htext : lastText? files p with
  | none =>
      simp only [htext, true_iff] at hnone
      simpa [Except.isOk, Except.toBool] using hnone
  | some text => simpa [Except.isOk, Except.toBool, htext] using hnone

theorem mem_ofFiles_iff {key : List Component} :
    key ∈ (ofFiles files).files ↔ ∃ file ∈ files, file.1.normal = key := by
  constructor
  · intro hkey
    obtain ⟨file, hfile, hsame⟩ := mem_ofFiles hkey
    exact ⟨file, hfile, hsame.symm⟩
  · rintro ⟨file, hfile, rfl⟩
    exact mem_of_read_isOk (isOk_read_ofFiles_iff.2 ⟨file, hfile, rfl⟩)

theorem contains_ofFiles_iff : (ofFiles files).contains p = true ↔
    p.components = p.normal ∧ ((ofFiles files).read p).isOk = true := by
  have hmem : (ofFiles files).contains p = true ↔ ∃ file ∈ files, file.1.normal = p.components :=
    mem_ofFiles_iff
  rw [hmem, isOk_read_ofFiles_iff]
  constructor
  · rintro ⟨file, hfile, hsame⟩
    -- Stored components are normal, and those of the path are stored.
    have hnormal : p.components = p.normal := by
      rw [Path.normal, ← hsame, Path.normalComponents_normal]
    exact ⟨hnormal, file, hfile, Path.normalize_eq_iff.2 (hsame.trans hnormal)⟩
  · rintro ⟨hnormal, file, hfile, hsame⟩
    exact ⟨file, hfile, by rw [hnormal, Path.normalize_eq_iff.1 hsame]⟩

theorem size_ofFiles (files : List (Path × String)) :
    (ofFiles files).size = (files.map fun file => file.1.normalize).dedup.length := by
  -- The keys, written out, are the normal paths without repetition.
  have hkeys : ∀ key ∈ (ofFiles files).files.keys, ∃ q : Path, key = q.normal := by
    intro key hkey
    obtain ⟨file, -, hsame⟩ := mem_ofFiles (Std.TreeMap.mem_keys.1 hkey)
    exact ⟨file.1, hsame⟩
  have hinjective : ∀ key ∈ (ofFiles files).files.keys, ∀ other ∈ (ofFiles files).files.keys,
      Path.ofComponents key = Path.ofComponents other → key = other := by
    intro key hkey other hother hsame
    obtain ⟨q, rfl⟩ := hkeys key hkey
    obtain ⟨r, rfl⟩ := hkeys other hother
    exact Path.normalize_eq_iff.1 hsame
  have hwritten : ((ofFiles files).files.keys.map Path.ofComponents).Perm
      (files.map fun file => file.1.normalize).dedup := by
    rw [List.perm_ext_iff_of_nodup
      (Std.TreeMap.nodup_keys.map_on hinjective) (List.nodup_dedup _)]
    intro q
    simp only [List.mem_map, List.mem_dedup, Std.TreeMap.mem_keys, mem_ofFiles_iff]
    constructor
    · rintro ⟨-, ⟨file, hfile, rfl⟩, rfl⟩
      exact ⟨file, hfile, rfl⟩
    · rintro ⟨file, hfile, rfl⟩
      exact ⟨_, ⟨file, hfile, rfl⟩, rfl⟩
  have hlength := hwritten.length_eq
  rwa [List.length_map, Std.TreeMap.length_keys] at hlength

/--
After any files were added, reading a path gives the text that was added last under the same normal
path, and fails if there is none, and the size is the number of normal paths that were added. The
store contains what it reads at a path exactly if nothing was added under its normal path or the
path is written with its normal components.
-/
theorem containsWhatItReads_iff (files : List (Path × String)) (p : Path) :
    (ofFiles files).read p =
        ((lastText? files p).map Except.ok).getD (.error (.fileNotFound p)) ∧
      (ofFiles files).size = (files.map fun file => file.1.normalize).dedup.length ∧
      ((ofFiles files).ContainsWhatItReads p ↔
        (∀ file ∈ files, file.1.normalize ≠ p.normalize) ∨ p.components = p.normal) := by
  refine ⟨read_ofFiles files p, size_ofFiles files, ?_⟩
  have hnone : (∀ file ∈ files, file.1.normalize ≠ p.normalize) ↔
      ¬ ((ofFiles files).read p).isOk = true := by
    rw [isOk_read_ofFiles_iff]
    push Not
    rfl
  unfold ContainsWhatItReads
  rw [contains_ofFiles_iff, hnone]
  tauto

/-- What was added is read under a path that goes up and down again, but is not contained. -/
theorem not_containsWhatItReads_roundabout :
    ¬ (ofFiles [(⟨"/doc/build.xml"⟩, "<build/>")]).ContainsWhatItReads
      ⟨"/doc/parts/../build.xml"⟩ := by
  unfold ContainsWhatItReads
  decide +kernel

end FileStore

end SolutionPlan
