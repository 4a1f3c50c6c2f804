import SolutionPlan.Proofs.FileSystem.Lookup
import SolutionPlan.Proofs.Glob.Wildcards
import SolutionPlan.Proofs.Path.Joining

/-!
# Listing files

A search lists the files below its directory whose names fit the last component of its pattern, in
the order of their paths. It fails only if there is no such directory, which is the case if no file
lies below it.
-/

namespace SolutionPlan

open Glob

/-! ## Searches -/

namespace Search

theorem nameTokens_eq {name : String} (h : ¬ ['*', '*'] <:+: name.toList) :
    nameTokens name = .ok (name.toList.map plainToken) := by
  unfold nameTokens compile
  rw [String.toList_ofList]
  exact compileFrom_plainText h 0 none []

/-- A pattern that ends in a name is searched for in the directory that stands in front of it. -/
theorem ofPattern_eq {pattern name : String} {part : Path}
    (hparts : (Path.ofDocument pattern).components = part.components ++ [.name name])
    (hstars : ¬ ['*', '*'] <:+: name.toList) (root : Path) :
    ofPattern root pattern = .ok ⟨(root.join part).normalize, name.toList.map plainToken⟩ := by
  have hname := Path.fileName?_of_components hparts
  obtain ⟨written, hwritten, hcomponents⟩ := Path.exists_parent? hname
  have hsame : written.components = part.components :=
    List.append_cancel_right (hcomponents.symm.trans hparts)
  unfold ofPattern
  simp only [hwritten, hname, Option.getD_some, nameTokens_eq hstars]
  rw [Path.normalize_eq_iff.2 (Path.normal_join_congr hsame root)]
  rfl

theorem accepts_iff {directory : Path} {name text : String} (hname : '/' ∉ name.toList)
    (htext : '/' ∉ text.toList) :
    accepts ⟨directory, name.toList.map plainToken⟩ text = true ↔
      Fits .ignoring name.toList text.toList := by
  unfold accepts
  rw [accepts_eq_matchTokens, matchTokens_read (forall₂_reads reads_plainToken _) hname,
    and_iff_right htext]

end Search

namespace FileStore

variable {files : List (Path × String)} {directory : Path}

/-! ## Found files -/

/-- The file lies in the directory, or deeper if the search is recursive, and the name of the
pattern stands for its name. -/
structure Found (directory : Path) (name : String) (recursive : Bool) (file : Path) : Prop where
  below : file.Below directory
  direct : recursive = true ∨ ∃ c, file.normal = directory.normal ++ [c]
  named : ∃ text, file.fileName? = some text ∧ Fits .ignoring name.toList text.toList

structure Lists (files : List (Path × String)) (directory : Path) (name : String)
    (recursive : Bool) (listed : List Path) : Prop where
  nodup : listed.Nodup
  ordered : listed.Pairwise fun p q => compare p q = .lt
  mem_iff : ∀ p, p ∈ listed ↔
    (∃ file ∈ files, file.1.normalize = p) ∧ Found directory name recursive p

theorem hasDirectory_ofFiles_iff :
    (ofFiles files).hasDirectory directory.normal = true ↔
      ∃ file ∈ files, file.1.Below directory := by
  unfold hasDirectory
  simp only [List.any_eq_true, Bool.and_eq_true, bne_iff_ne, List.isPrefixOf_iff_prefix,
    Std.TreeMap.mem_keys, mem_ofFiles_iff, Path.below_iff]
  constructor
  · rintro ⟨-, ⟨file, hfile, rfl⟩, hne, habove⟩
    exact ⟨file, hfile, habove, hne.symm⟩
  · rintro ⟨file, hfile, habove, hne⟩
    exact ⟨_, ⟨file, hfile, rfl⟩, hne.symm, habove⟩

theorem matchesSearch_iff {search : Search} {recursive : Bool} {key : List Component} :
    matchesSearch search recursive key = true ↔
      ∃ rest text, search.directory.components ++ rest = key ∧ key.getLast? = some (.name text) ∧
        (recursive = true ∨ rest.length = 1) ∧ search.accepts text = true := by
  unfold matchesSearch below?
  constructor
  · intro h
    split at h
    · next rest text hrest htext =>
        simp only [Bool.and_eq_true, Bool.or_eq_true, beq_iff_eq] at h
        exact ⟨rest, text, List.isPrefixOf?_eq_some_iff_append_eq.1 hrest, htext, h.1, h.2⟩
    · cases h
  · rintro ⟨rest, text, hrest, htext, hdirect, haccepts⟩
    rw [List.isPrefixOf?_eq_some_iff_append_eq.2 hrest, htext]
    simpa using ⟨hdirect, haccepts⟩

/-- The search takes a file that is not the directory itself exactly if it is to be found. -/
theorem matchesSearch_normal_iff {name : String} (hname : '/' ∉ name.toList)
    (hdirectory : directory.components = directory.normal) (recursive : Bool) {p : Path}
    (hne : p.normal ≠ directory.normal) :
    matchesSearch ⟨directory, name.toList.map plainToken⟩ recursive p.normal = true ↔
      Found directory name recursive p.normalize := by
  have hlast (text : String) :
      p.normalize.fileName? = some text ↔ p.normal.getLast? = some (.name text) := by
    unfold Path.fileName?
    rw [Path.components_normalize]
    split
    · next other hother => simp [hother]
    · next hother => exact ⟨nofun, fun htext => absurd htext (hother text)⟩
  have haccepts (text : String) (htext : p.normal.getLast? = some (.name text)) :
      Search.accepts ⟨directory, name.toList.map plainToken⟩ text = true ↔
        Fits .ignoring name.toList text.toList :=
    Search.accepts_iff hname (Path.isName_of_fileName? ((hlast text).2 htext)).1
  rw [matchesSearch_iff]
  constructor
  · rintro ⟨rest, text, hrest, htext, hdirect, hfits⟩
    rw [hdirectory] at hrest
    refine ⟨⟨rest, ?_, ?_⟩, ?_, text, (hlast text).2 htext, (haccepts text htext).1 hfits⟩
    · rintro rfl
      exact hne (by rw [← hrest, List.append_nil])
    · rw [Path.normal_normalize, hrest]
    · rw [Path.normal_normalize, ← hrest]
      refine hdirect.imp id fun hlength => ?_
      obtain ⟨c, rfl⟩ := List.length_eq_one_iff.1 hlength
      exact ⟨c, rfl⟩
  · rintro ⟨⟨rest, -, hrest⟩, hdirect, text, htext, hfits⟩
    rw [Path.normal_normalize] at hrest hdirect
    rw [hlast] at htext
    refine ⟨rest, text, by rw [hdirectory, hrest], htext, ?_, (haccepts text htext).2 hfits⟩
    refine hdirect.imp id ?_
    rintro ⟨c, hc⟩
    rw [hrest, List.append_cancel_left_eq] at hc
    rw [hc, List.length_singleton]

/-! ## Listed files -/

/-- The stored files that the search takes, in the order of the keys. -/
def listing (store : FileStore) (search : Search) (recursive : Bool) : List Path :=
  (store.files.keys.filter (matchesSearch search recursive)).map Path.ofComponents

theorem compare_ofComponents_normal (p q : Path) :
    compare (Path.ofComponents p.normal) (Path.ofComponents q.normal) =
      compare p.normal q.normal := by
  have hcompare : compare p.normalize q.normalize =
      compare p.normalize.components q.normalize.components := rfl
  rwa [Path.components_normalize, Path.components_normalize] at hcompare

theorem pairwise_listing (files : List (Path × String)) (search : Search) (recursive : Bool) :
    (listing (ofFiles files) search recursive).Pairwise fun p q => compare p q = .lt := by
  unfold listing
  rw [List.pairwise_map]
  have hkeys := (Std.TreeMap.ordered_keys (t := (ofFiles files).files)).filter
    (matchesSearch search recursive)
  refine hkeys.imp_of_mem ?_
  intro key other hkey hother hlt
  obtain ⟨p, -, rfl⟩ := mem_ofFiles_iff.1 (Std.TreeMap.mem_keys.1 (List.mem_of_mem_filter hkey))
  obtain ⟨q, -, rfl⟩ := mem_ofFiles_iff.1 (Std.TreeMap.mem_keys.1 (List.mem_of_mem_filter hother))
  rw [compare_ofComponents_normal, hlt]

theorem sublist_listing (store : FileStore) (search : Search) :
    (listing store search false).Sublist (listing store search true) := by
  apply List.Sublist.map
  apply List.monotone_filter_right
  intro key hkey
  rw [matchesSearch_iff] at hkey ⊢
  obtain ⟨rest, text, hrest, htext, -, haccepts⟩ := hkey
  exact ⟨rest, text, hrest, htext, .inl rfl, haccepts⟩

theorem mem_listing_iff {search : Search} {recursive : Bool} {p : Path} :
    p ∈ listing (ofFiles files) search recursive ↔ ∃ file ∈ files, file.1.normalize = p ∧
      matchesSearch search recursive file.1.normal = true := by
  unfold listing
  simp only [List.mem_map, List.mem_filter, Std.TreeMap.mem_keys, mem_ofFiles_iff]
  constructor
  · rintro ⟨-, ⟨⟨file, hfile, rfl⟩, hmatches⟩, rfl⟩
    exact ⟨file, hfile, rfl, hmatches⟩
  · rintro ⟨file, hfile, rfl, hmatches⟩
    exact ⟨_, ⟨⟨file, hfile, rfl⟩, hmatches⟩, rfl⟩

theorem find_ofFiles (files : List (Path × String)) {root : Path} {pattern : String}
    {search : Search} (hsearch : Search.ofPattern root pattern = .ok search)
    (hdirectory : search.directory.components = search.directory.normal) (recursive : Bool) :
    (ofFiles files).find root pattern recursive =
      if ∃ file ∈ files, file.1.Below search.directory then
        .ok (listing (ofFiles files) search recursive)
      else .error (.directoryNotFound search.directory) := by
  unfold find
  rw [hsearch]
  simp only [hdirectory, hasDirectory_ofFiles_iff]
  rfl

theorem Lists.of_listing {name : String} (hname : '/' ∉ name.toList)
    (hdirectory : directory.components = directory.normal)
    (hne : ∀ file ∈ files, file.1.normal ≠ directory.normal) (recursive : Bool) :
    Lists files directory name recursive
      (listing (ofFiles files) ⟨directory, name.toList.map plainToken⟩ recursive) := by
  have hordered := pairwise_listing files ⟨directory, name.toList.map plainToken⟩ recursive
  refine ⟨hordered.imp ?_, hordered, ?_⟩
  · intro p q hlt
    rintro rfl
    have hself : compare p.components p.components = .lt := hlt
    rw [Std.compare_self] at hself
    cases hself
  · intro p
    rw [mem_listing_iff]
    constructor
    · rintro ⟨file, hfile, rfl, hmatches⟩
      exact ⟨⟨file, hfile, rfl⟩,
        (matchesSearch_normal_iff hname hdirectory recursive (hne file hfile)).1 hmatches⟩
    · rintro ⟨⟨file, hfile, rfl⟩, hfound⟩
      exact ⟨file, hfile, rfl,
        (matchesSearch_normal_iff hname hdirectory recursive (hne file hfile)).2 hfound⟩

/--
If no file lies below another one, then a search whose pattern is a directory part and a name
without `**` fails exactly if no file lies below the directory that the part denotes from the root.
Otherwise it lists the files below the directory whose names fit, where all characters but `*` and
`?` are literal and ASCII case is ignored, and without recursion it lists some of what it lists with
it.
-/
theorem find_lists_fitting {files : List (Path × String)}
    (hseparate : ∀ file ∈ files, ∀ other ∈ files, ¬ file.1.Below other.1) (root : Path)
    {pattern name : String} {part : Path}
    (hparts : (Path.ofDocument pattern).components = part.components ++ [.name name])
    (hstars : ¬ ['*', '*'] <:+: name.toList) :
    let directory := (root.join part).normalize
    (∀ recursive, (ofFiles files).find root pattern recursive =
        .error (.directoryNotFound directory) ↔ ∀ file ∈ files, ¬ file.1.Below directory) ∧
      ((∃ file ∈ files, file.1.Below directory) → ∃ listed : Bool → List Path,
        (∀ recursive, (ofFiles files).find root pattern recursive = .ok (listed recursive)) ∧
        (∀ recursive, Lists files directory name recursive (listed recursive)) ∧
        (listed false).Sublist (listed true)) := by
  intro directory
  have hdirectory : directory.components = directory.normal := by
    rw [Path.components_normalize, Path.normal_normalize]
  have hsearch : Search.ofPattern root pattern = .ok ⟨directory, name.toList.map plainToken⟩ :=
    Search.ofPattern_eq hparts hstars root
  have hfind := find_ofFiles files hsearch hdirectory
  constructor
  · intro recursive
    rw [hfind]
    split
    · next hbelow => simpa using hbelow
    · next hbelow => simpa using hbelow
  · intro hbelow
    -- A stored file in place of the directory would have other files below it.
    have hne : ∀ file ∈ files, file.1.normal ≠ directory.normal := by
      intro file hfile hsame
      obtain ⟨other, hother, rest, hrest, hnormal⟩ := hbelow
      exact hseparate other hother file hfile ⟨rest, hrest, by rw [hsame, hnormal]⟩
    have hslash : '/' ∉ name.toList :=
      (Path.isName_of_fileName? (Path.fileName?_of_components hparts)).1
    refine ⟨listing (ofFiles files) ⟨directory, name.toList.map plainToken⟩, ?_,
      Lists.of_listing hslash hdirectory hne, sublist_listing _ _⟩
    intro recursive
    rw [hfind, if_pos hbelow]

def printedFiles : List (Path × String) :=
  [(⟨"/print/Page[1].H"⟩, ""), (⟨"/print/page1.h"⟩, ""), (⟨"/print/old/page[2].h"⟩, ""),
    (⟨"/printer/page[3].h"⟩, "")]

theorem find_lists_fitting_printed :
    (∀ file ∈ printedFiles, ∀ other ∈ printedFiles, ¬ file.1.Below other.1) ∧
      (ofFiles printedFiles).find ⟨"/print/new"⟩ " ..\\*[?].h" false =
        .ok [⟨"/print/Page[1].H"⟩] ∧
      Lists printedFiles ⟨"/print"⟩ "*[?].h" false [⟨"/print/Page[1].H"⟩] := by
  have hseparate : ∀ file ∈ printedFiles, ∀ other ∈ printedFiles, ¬ file.1.Below other.1 := by
    decide +kernel
  have hparts : (Path.ofDocument " ..\\*[?].h").components =
      (Path.mk "..").components ++ [.name "*[?].h"] := by decide +kernel
  have hbelow : ∃ file ∈ printedFiles,
      file.1.Below ((Path.mk "/print/new").join ⟨".."⟩).normalize := by decide +kernel
  have hprint : ((Path.mk "/print/new").join ⟨".."⟩).normalize = ⟨"/print"⟩ := by decide +kernel
  obtain ⟨listed, hfind, hlists, -⟩ :=
    (find_lists_fitting hseparate ⟨"/print/new"⟩ hparts (by decide)).2 hbelow
  have hfound : (ofFiles printedFiles).find ⟨"/print/new"⟩ " ..\\*[?].h" false =
      .ok [⟨"/print/Page[1].H"⟩] := by decide +kernel
  refine ⟨hseparate, hfound, ?_⟩
  have hlisted : listed false = [⟨"/print/Page[1].H"⟩] :=
    Except.ok.inj ((hfind false).symm.trans hfound)
  rw [← hlisted, ← hprint]
  exact hlists false

end FileStore

end SolutionPlan
