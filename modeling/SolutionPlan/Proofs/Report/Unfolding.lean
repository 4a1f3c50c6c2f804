import Mathlib.Data.List.Forall2
import Mathlib.Data.List.Nodup
import Mathlib.Data.List.Perm.Subperm
import SolutionPlan.Report

/-!
# The folders of a report

Folders say what their parent is, and a report nests them the other way round: below a folder stand
the folders that have it as their parent. Starting outside all folders this ends however the parents
are arranged, and it reaches exactly the folders whose chain of parents ends outside all folders,
each of them once. Folders that lie in themselves, over however many others, are never reached.
-/

namespace SolutionPlan

inductive Item where
  | folder (i : Nat)
  | project (j : Nat)
deriving DecidableEq, Repr

inductive Content where
  | folder (i : Nat) (contents : List Content)
  | project (j : Nat)

namespace Content

mutual

/-- The nodes of the tree: what is shown, with the folder below whose node it stands. -/
def placed (parent : Option Nat) : Content → List (Option Nat × Item)
  | .folder i contents => (parent, .folder i) :: placements (some i) contents
  | .project j => [(parent, .project j)]

def placements (parent : Option Nat) : List Content → List (Option Nat × Item)
  | [] => []
  | c :: rest => placed parent c ++ placements parent rest

end

theorem placements_eq_flatMap (parent : Option Nat) (contents : List Content) :
    placements parent contents = contents.flatMap (placed parent) := by
  induction contents with
  | nil => rfl
  | cons c rest ih => rw [placements, ih, List.flatMap_cons]

end Content

namespace Solution

variable {s : Solution} {parent q : Option Nat} {above : List (Option Nat)} {i : Nat}

/-! ## What lies in a folder -/

/-- The item lies directly in the folder, or outside all folders. -/
def Holds (s : Solution) (parent : Option Nat) : Item → Prop
  | .folder i => ∃ f, s.folders[i]? = some f ∧ f.parent = parent
  | .project j => ∃ p, s.projects[j]? = some p ∧ p.folder = parent

def foldersIn (s : Solution) (parent : Option Nat) : List Nat :=
  s.folders.findIdxs fun f => f.parent == parent

def projectsIn (s : Solution) (parent : Option Nat) : List Nat :=
  s.projects.findIdxs fun p => p.folder == parent

private theorem mem_findIdxs {α : Type} {p : α → Bool} {l : List α} :
    i ∈ l.findIdxs p ↔ ∃ x, l[i]? = some x ∧ p x = true := by
  rw [List.mem_findIdxs_iff_exists_getElem_pos]
  constructor
  · rintro ⟨hi, hp⟩
    exact ⟨l[i], List.getElem?_eq_getElem hi, hp⟩
  · rintro ⟨x, hx, hp⟩
    obtain ⟨hi, rfl⟩ := List.getElem?_eq_some_iff.1 hx
    exact ⟨hi, hp⟩

theorem mem_foldersIn : i ∈ s.foldersIn parent ↔ s.Holds parent (.folder i) := by
  rw [foldersIn, mem_findIdxs]
  simp only [Holds, beq_iff_eq]

theorem mem_projectsIn : i ∈ s.projectsIn parent ↔ s.Holds parent (.project i) := by
  rw [projectsIn, mem_findIdxs]
  simp only [Holds, beq_iff_eq]

theorem Holds.parent_unique {item : Item} (h : s.Holds parent item) (k : s.Holds q item) :
    parent = q := by
  cases item with
  | folder i =>
      obtain ⟨f, hf, rfl⟩ := h
      obtain ⟨g, hg, rfl⟩ := k
      rw [Option.some.inj (hf.symm.trans hg)]
  | project j =>
      obtain ⟨p, hp, rfl⟩ := h
      obtain ⟨r, hr, rfl⟩ := k
      rw [Option.some.inj (hp.symm.trans hr)]

/-! ## Chains of parents -/

/-- From the folder its parents lead out of all folders, over these, nearest first. -/
inductive Chain (s : Solution) : List (Option Nat) → Option Nat → Prop
  | outside : Chain s [] none
  | inside {i : Nat} {above : List (Option Nat)} {parent : Option Nat} :
      s.Holds parent (.folder i) → Chain s above parent → Chain s (parent :: above) (some i)

def Grounded (s : Solution) (q : Option Nat) : Prop := ∃ above, s.Chain above q

namespace Chain

theorem unique {other : List (Option Nat)} (h : s.Chain above q) (k : s.Chain other q) :
    above = other := by
  induction h generalizing other with
  | outside =>
      cases k
      rfl
  | inside hholds _ ih =>
      cases k with
      | inside hother k =>
          obtain rfl := hholds.parent_unique hother
          rw [ih k]

theorem of_mem (h : s.Chain above q) {p : Option Nat} (hp : p ∈ above) :
    ∃ rest, s.Chain rest p ∧ rest.length < above.length := by
  induction h with
  | outside => cases hp
  | inside _ hparent ih =>
      rcases List.mem_cons.1 hp with rfl | hp
      · exact ⟨_, hparent, Nat.lt_succ_self _⟩
      · obtain ⟨rest, hrest, hlt⟩ := ih hp
        exact ⟨rest, hrest, Nat.lt_succ_of_lt hlt⟩

theorem not_mem (h : s.Chain above q) : q ∉ above := by
  intro hq
  obtain ⟨rest, hrest, hlt⟩ := h.of_mem hq
  rw [hrest.unique h] at hlt
  exact Nat.lt_irrefl _ hlt

theorem nodup (h : s.Chain above q) : above.Nodup := by
  induction h with
  | outside => exact List.nodup_nil
  | inside _ hparent ih => exact List.nodup_cons.2 ⟨hparent.not_mem, ih⟩

theorem valid (h : s.Chain above q) :
    q ∈ none :: (List.range s.folders.length).map some := by
  cases h with
  | outside => exact List.mem_cons_self
  | inside hholds _ =>
      obtain ⟨f, hf, -⟩ := hholds
      have hlt := (List.getElem?_eq_some_iff.1 hf).1
      exact List.mem_cons_of_mem _ (List.mem_map_of_mem (List.mem_range.2 hlt))

/-- There are no more parents than folders: none occurs twice. -/
theorem length_le (h : s.Chain above q) : above.length ≤ s.folders.length := by
  have hnodup : (q :: above).Nodup := List.nodup_cons.2 ⟨h.not_mem, h.nodup⟩
  have hsubset : q :: above ⊆ none :: (List.range s.folders.length).map some := by
    intro p hp
    rcases List.mem_cons.1 hp with rfl | hp
    · exact h.valid
    · obtain ⟨rest, hrest, -⟩ := h.of_mem hp
      exact hrest.valid
  have hlength := (List.subperm_of_subset hnodup hsubset).length_le
  simpa using hlength

end Chain

/-! ## Unfolding a folder -/

/-- Unfolding the folder ends with these contents: the folders whose parent it is, in their order
and with their own contents, and then its projects. -/
inductive Unfolds (s : Solution) : Option Nat → List Content → Prop
  | mk {parent : Option Nat} (below : Nat → List Content) :
      (∀ i ∈ s.foldersIn parent, Unfolds s (some i) (below i)) →
      Unfolds s parent ((s.foldersIn parent).map (fun i => .folder i (below i)) ++
        (s.projectsIn parent).map .project)

/-- Unfolding ends at every folder whose chain of parents does. It goes one parent deeper with
every step, and no chain has more parents than there are folders. -/
theorem Chain.exists_unfolds (h : s.Chain above q) : ∃ contents, s.Unfolds q contents := by
  generalize hroom : s.folders.length + 1 - above.length = room
  induction room generalizing above q with
  | zero =>
      have hle := h.length_le
      omega
  | succ room ih =>
      have hbelow : ∀ i, ∃ contents, i ∈ s.foldersIn q → s.Unfolds (some i) contents := by
        intro i
        by_cases hi : i ∈ s.foldersIn q
        · have hchain : s.Chain (q :: above) (some i) := .inside (mem_foldersIn.1 hi) h
          obtain ⟨contents, hcontents⟩ := ih hchain (by simp only [List.length_cons]; omega)
          exact ⟨contents, fun _ => hcontents⟩
        · exact ⟨[], fun hmem => absurd hmem hi⟩
      choose below hbelow using hbelow
      exact ⟨_, .mk below hbelow⟩

/-! ## Where things are shown -/

theorem mem_placements {below : Nat → List Content} {place : Option Nat × Item} :
    place ∈ Content.placements q ((s.foldersIn q).map (fun i => .folder i (below i)) ++
        (s.projectsIn q).map .project) ↔
      (∃ i ∈ s.foldersIn q, place = (q, .folder i) ∨
          place ∈ Content.placements (some i) (below i)) ∨
        ∃ j ∈ s.projectsIn q, place = (q, .project j) := by
  simp [Content.placements_eq_flatMap, Content.placed, List.flatMap_map, List.mem_append]

/-- What stands below a node lies in the folder of that node or deeper in it. -/
theorem Unfolds.sound {contents : List Content} (h : s.Unfolds q contents)
    (hchain : s.Chain above q) {r : Option Nat} {item : Item}
    (hmem : (r, item) ∈ Content.placements q contents) :
    s.Holds r item ∧ ∃ deeper, s.Chain deeper r ∧ q :: above <:+ r :: deeper := by
  induction h generalizing above with
  | @mk q below _ ih =>
      rcases mem_placements.1 hmem with ⟨i, hi, hfolder | hbelow⟩ | ⟨j, hj, hproject⟩
      · obtain ⟨rfl, rfl⟩ := Prod.mk.inj hfolder
        exact ⟨mem_foldersIn.1 hi, above, hchain, List.suffix_refl _⟩
      · obtain ⟨hholds, deeper, hdeeper, hsuffix⟩ :=
          ih i hi (.inside (mem_foldersIn.1 hi) hchain) hbelow
        exact ⟨hholds, deeper, hdeeper, (List.suffix_cons _ _).trans hsuffix⟩
      · obtain ⟨rfl, rfl⟩ := Prod.mk.inj hproject
        exact ⟨mem_projectsIn.1 hj, above, hchain, List.suffix_refl _⟩

theorem Unfolds.holds_mem {contents : List Content} (h : s.Unfolds q contents) {item : Item}
    (hholds : s.Holds q item) : (q, item) ∈ Content.placements q contents := by
  cases h with
  | mk below _ =>
      apply mem_placements.2
      cases item with
      | folder i => exact .inl ⟨i, mem_foldersIn.2 hholds, .inl rfl⟩
      | project j => exact .inr ⟨j, mem_projectsIn.2 hholds, rfl⟩

/-- The contents of a folder are part of those of every folder above it, in the end of those that
lie outside all folders. -/
theorem Chain.complete (h : s.Chain above q) {contents : List Content}
    (hcontents : s.Unfolds none contents) :
    ∃ inner, s.Unfolds q inner ∧ Content.placements q inner ⊆ Content.placements none contents := by
  induction h with
  | outside => exact ⟨contents, hcontents, fun _ => id⟩
  | @inside i above parent hholds _ ih =>
      obtain ⟨outer, houter, hsubset⟩ := ih
      cases houter with
      | mk below hbelow =>
          have hi := mem_foldersIn.2 hholds
          refine ⟨below i, hbelow i hi, ?_⟩
          intro place hplace
          exact hsubset (mem_placements.2 (.inl ⟨i, hi, .inr hplace⟩))

theorem mem_placements_iff {contents : List Content} (h : s.Unfolds none contents)
    (r : Option Nat) (item : Item) :
    (r, item) ∈ Content.placements none contents ↔ s.Holds r item ∧ s.Grounded r := by
  constructor
  · intro hmem
    obtain ⟨hholds, deeper, hdeeper, -⟩ := h.sound .outside hmem
    exact ⟨hholds, deeper, hdeeper⟩
  · rintro ⟨hholds, above, habove⟩
    obtain ⟨inner, hinner, hsubset⟩ := habove.complete h
    exact hsubset (hinner.holds_mem hholds)

section

variable {below : Nat → List Content} (hchain : s.Chain above q)
  (hbelow : ∀ i ∈ s.foldersIn q, s.Unfolds (some i) (below i))

include hchain hbelow

private theorem way_up (hi : i ∈ s.foldersIn q) {r : Option Nat} {item : Item}
    (hmem : (r, item) ∈ Content.placements (some i) (below i)) :
    ∃ deeper, s.Chain deeper r ∧ some i :: q :: above <:+ r :: deeper :=
  ((hbelow i hi).sound (.inside (mem_foldersIn.1 hi) hchain) hmem).2

private theorem not_mem_below (hi : i ∈ s.foldersIn q) (item : Item) :
    (q, item) ∉ Content.placements (some i) (below i) := by
  intro hmem
  obtain ⟨deeper, hdeeper, hsuffix⟩ := way_up hchain hbelow hi hmem
  have hle := hsuffix.length_le
  rw [hdeeper.unique hchain] at hle
  simp only [List.length_cons] at hle
  omega

private theorem below_disjoint {j : Nat} (hi : i ∈ s.foldersIn q) (hj : j ∈ s.foldersIn q)
    (hij : i ≠ j) : (Content.placements (some i) (below i)).Disjoint
      (Content.placements (some j) (below j)) := by
  rintro ⟨r, item⟩ hmem hother
  obtain ⟨deeper, hdeeper, hsuffix⟩ := way_up hchain hbelow hi hmem
  obtain ⟨others, hothers, hsuffixOther⟩ := way_up hchain hbelow hj hother
  rw [hothers.unique hdeeper] at hsuffixOther
  have hway : some i :: q :: above <:+ some j :: q :: above :=
    List.suffix_of_suffix_length_le hsuffix hsuffixOther (Nat.le_refl _)
  obtain ⟨hsame, -⟩ := List.cons.inj (hway.eq_of_length rfl)
  exact hij (Option.some.inj hsame)

private theorem folder_disjoint {j : Nat} (hi : i ∈ s.foldersIn q) (hj : j ∈ s.foldersIn q)
    (hij : i ≠ j) : (Content.placed q (.folder i (below i))).Disjoint
      (Content.placed q (.folder j (below j))) := by
  intro place hplace hother
  rw [Content.placed] at hplace hother
  rcases List.mem_cons.1 hplace with rfl | hplace
  · rcases List.mem_cons.1 hother with heq | hother
    · cases heq
      exact hij rfl
    · exact not_mem_below hchain hbelow hj _ hother
  · rcases List.mem_cons.1 hother with rfl | hother
    · exact not_mem_below hchain hbelow hi _ hplace
    · exact below_disjoint hchain hbelow hi hj hij hplace hother

end

theorem Unfolds.nodup {contents : List Content} (h : s.Unfolds q contents)
    (hchain : s.Chain above q) : (Content.placements q contents).Nodup := by
  induction h generalizing above with
  | @mk q below hbelow ih =>
      rw [Content.placements_eq_flatMap, List.flatMap_append, List.flatMap_map, List.flatMap_map]
      apply List.nodup_append'.2
      refine ⟨?_, ?_, ?_⟩
      · apply List.nodup_flatMap.2
        constructor
        · intro i hi
          have hinner := ih i hi (.inside (mem_foldersIn.1 hi) hchain)
          exact List.nodup_cons.2 ⟨not_mem_below hchain hbelow hi _, hinner⟩
        · apply (List.nodup_findIdxs (s := 0)).imp_of_mem
          exact fun hi hj hij => folder_disjoint hchain hbelow hi hj hij
      · have hinjective : Function.Injective fun j => (q, Item.project j) := by
          intro j k hjk
          cases hjk
          rfl
        simp only [Content.placed, ← List.map_eq_flatMap]
        exact (List.nodup_findIdxs (s := 0)).map hinjective
      · intro place hfolder hproject
        obtain ⟨j, -, hj⟩ := List.mem_flatMap.1 hproject
        obtain rfl := List.mem_singleton.1 hj
        obtain ⟨i, hi, hmem⟩ := List.mem_flatMap.1 hfolder
        rcases List.mem_cons.1 hmem with heq | hmem
        · cases heq
        · exact not_mem_below hchain hbelow hi _ hmem

/-! ## The trees of a report -/

/-- The tree shows the contents: a folder by its name, over the trees of what lies in it. -/
inductive Shows (s : Solution) : Content → Tree → Prop
  | folder {i : Nat} {f : Folder} {contents : List Content} {trees : List Tree} :
      s.folders[i]? = some f → List.Forall₂ (Shows s) contents trees →
      Shows s (.folder i contents) (.node s!"Folder {f.name}" trees)
  | project {j : Nat} {p : Project} :
      s.projects[j]? = some p → Shows s (.project j) (projectTree s p)

private theorem map_filter {α β : Type} (p : α → Bool) (f : α → β) (l : List α) :
    (l.filter p).map f = l.filterMap fun x => if p x = true then some (f x) else none := by
  rw [← List.filterMap_eq_map, List.filterMap_filter]
  rfl

private theorem findIdxs_eq_map {α : Type} (p : α → Bool) (l : List α) :
    l.findIdxs p = (l.zipIdx.filter fun x => p x.1).map Prod.snd := by
  rw [List.findIdxs_eq_filterMap_zipIdx, map_filter]
  simp only [cond_eq_ite]

private theorem filter_eq_map {α : Type} (p : α → Bool) (l : List α) :
    l.filter p = (l.zipIdx.filter fun x => p x.1).map Prod.fst := by
  conv_lhs => rw [← List.zipIdx_map_fst 0 l, List.filter_map]
  rfl

theorem contentTrees_eq (s : Solution) (available : List (Folder × Nat)) (parent : Option Nat) :
    contentTrees s available parent =
      ((available.filter fun f => f.1.parent == parent).map fun f =>
          .node s!"Folder {f.1.name}"
            (contentTrees s (outside parent available) (some f.2))) ++
        (s.projects.filter fun p => p.folder == parent).map (projectTree s) := by
  rw [contentTrees, List.filterMap_subtype (g := fun f => if f.1.parent = parent then
    some (Tree.node s!"Folder {f.1.name}" (contentTrees s (outside parent available) (some f.2)))
    else none), List.unattach_attach]
  · congr 1
    rw [map_filter]
    simp only [beq_iff_eq]
  · exact fun f _ => dite_eq_ite

def remaining (s : Solution) (above : List (Option Nat)) : List (Folder × Nat) :=
  s.folders.zipIdx.filter fun f => !above.contains f.1.parent

theorem outside_remaining (s : Solution) (above : List (Option Nat)) (parent : Option Nat) :
    outside parent (s.remaining above) = s.remaining (parent :: above) := by
  unfold outside remaining
  rw [List.filter_filter]
  congr 1
  funext f
  rw [List.contains_cons, Bool.not_or]
  rfl

/-- As no folder lies above itself, all that lies in it remains when it is shown. -/
theorem filter_remaining (hchain : s.Chain above q) :
    ((s.remaining above).filter fun f => f.1.parent == q) =
      s.folders.zipIdx.filter fun f => f.1.parent == q := by
  unfold remaining
  rw [List.filter_filter]
  apply List.filter_congr
  intro f _
  by_cases hf : f.1.parent = q
  · simp [hf, hchain.not_mem]
  · simp [hf]

theorem Unfolds.shows {contents : List Content} (h : s.Unfolds q contents)
    (hchain : s.Chain above q) :
    List.Forall₂ s.Shows contents (contentTrees s (s.remaining above) q) := by
  induction h generalizing above with
  | @mk q below hbelow ih =>
      rw [contentTrees_eq, outside_remaining, filter_remaining hchain]
      apply List.rel_append
      · have hplaces : s.foldersIn q = _ := findIdxs_eq_map _ s.folders
        rw [hplaces, List.map_map, List.forall₂_map_left_iff, List.forall₂_map_right_iff,
          List.forall₂_same]
        rintro ⟨f, i⟩ hf
        have hget := List.mem_zipIdx_iff_getElem?.1 (List.mem_filter.1 hf).1
        have hi : i ∈ s.foldersIn q := by
          rw [hplaces]
          exact List.mem_map_of_mem hf
        exact .folder hget (ih i hi (.inside (mem_foldersIn.1 hi) hchain))
      · have hplaces : s.projectsIn q = _ := findIdxs_eq_map _ s.projects
        rw [hplaces, filter_eq_map _ s.projects, List.map_map, List.map_map,
          List.forall₂_map_left_iff, List.forall₂_map_right_iff, List.forall₂_same]
        rintro ⟨p, j⟩ hp
        exact .project (List.mem_zipIdx_iff_getElem?.1 (List.mem_filter.1 hp).1)

end Solution

end SolutionPlan
