import Mathlib.Algebra.BigOperators.Group.Finset.Piecewise
import SolutionPlan.FileSystem.Store
import SolutionPlan.Proofs.Build
import SolutionPlan.Proofs.Description.Folders
import SolutionPlan.Proofs.Description.Trees
import SolutionPlan.Proofs.Report.Unfolding

/-!
# What a report shows

A report shows every folder and every project that is not cut off by folders that lie in themselves,
and it shows each of them once, where it lies. In a solution that was read nothing is cut off, and
after resolution the sources of a project are counted once among its filters and once among the
targets.
-/

namespace SolutionPlan

open Finset

/-! ## Nothing is cut off -/

namespace Solution

variable {s : Solution}

theorem Nested.grounded_of_hasFolder (hs : s.Nested) {folder : Option Nat}
    (h : s.HasFolder folder) : s.Grounded folder := by
  cases folder with
  | none => exact ⟨[], .outside⟩
  | some i =>
      have hlt : i < s.folders.length := h i rfl
      clear h
      induction i using Nat.strongRecOn with
      | ind i ih =>
          have hget : s.folders[i]? = some s.folders[i] := List.getElem?_eq_getElem hlt
          have hparent : s.Holds s.folders[i].parent (.folder i) := ⟨_, hget, rfl⟩
          cases habove : s.folders[i].parent with
          | none =>
              rw [habove] at hparent
              exact ⟨_, .inside hparent .outside⟩
          | some j =>
              have hbefore : j < i := hs.folders i _ hget j habove
              obtain ⟨above, hchain⟩ := ih j hbefore (Nat.lt_trans hbefore hlt)
              rw [habove] at hparent
              exact ⟨_, .inside hparent hchain⟩

theorem Nested.grounded (hs : s.Nested) {q : Option Nat} {item : Item} (h : s.Holds q item) :
    s.Grounded q := by
  apply hs.grounded_of_hasFolder
  cases item with
  | folder i =>
      obtain ⟨f, hf, rfl⟩ := h
      have hi := (List.getElem?_eq_some_iff.1 hf).1
      exact fun parent hparent => Nat.lt_trans (hs.folders i f hf parent hparent) hi
  | project j =>
      obtain ⟨p, hp, rfl⟩ := h
      exact hs.projects p (List.mem_of_getElem? hp)

theorem Nested.resolve (hs : s.Nested) : s.resolve.value.Nested := by
  have hfolders : s.resolve.value.folders = s.folders := rfl
  constructor
  · rw [hfolders]
    exact hs.folders
  · rw [projects_resolve, List.forall_mem_map]
    intro p hp
    have hfolder := congrArg Project.folder (s.bare_resolvedProject p)
    have hplace : (s.resolvedProject p).folder = p.folder := hfolder
    rw [hplace]
    exact hs.projects p hp

end Solution

/-! ## Sources are counted once -/

theorem sum_length_filter {α : Type} {place : α → Option Nat} {n : Nat} {l : List α}
    (h : ∀ x ∈ l, ∃ i, place x = some i ∧ i < n) :
    ∑ i ∈ range n, (l.filter fun x => place x == some i).length = l.length := by
  induction l with
  | nil => simp
  | cons x rest ih =>
      obtain ⟨k, hk, hlt⟩ := h x List.mem_cons_self
      have hrest := ih fun y hy => h y (List.mem_cons_of_mem x hy)
      have hstep (i : Nat) : ((x :: rest).filter fun y => place y == some i).length =
          (if k = i then 1 else 0) + (rest.filter fun y => place y == some i).length := by
        by_cases hki : k = i
        · simp [hk, hki, Nat.add_comm]
        · simp [hk, hki]
      simp only [hstep, sum_add_distrib, hrest, sum_ite_eq, mem_range.2 hlt, if_true,
        List.length_cons, Nat.add_comm]

/-- The report of a project gives the number of sources in each filter, the numbers of sources that
targets have, and these numbers add up. -/
structure CountsAddUp (s : Solution) (p : Project) : Prop where
  shown : ∃ rest, (projectTree s p).children =
    (p.filters.mapIdx fun i f =>
        .node s!"Filter {f.name} ({(p.filterSources i).length} sources)"
          (f.subFilters.map fun sub => .leaf sub.name)) ++
      (s.targets.mapIdx fun i t =>
        if (p.targetSources i).length = 0 then []
        else [.leaf s!"{t.name}: {(p.targetSources i).length} source(s)"]).flatten ++ rest
  filters : ∑ i ∈ range p.filters.length, (p.filterSources i).length = p.sources.length
  targets : ∑ i ∈ range s.targets.length, (p.targetSources i).length = p.sources.length

theorem countsAddUp_of_placed {s : Solution} {p : Project} (hauthored : p.external = false)
    (h : ∀ source ∈ p.sources, source.Placed p.filters s.targets.length) : CountsAddUp s p := by
  refine ⟨?_, ?_, ?_⟩
  · unfold projectTree
    simp only [hauthored, Bool.false_eq_true, if_false]
    exact ⟨_, List.append_assoc _ _ _⟩
  · have hplace : ∀ source ∈ p.sources, ∃ i, some source.filter = some i ∧ i < p.filters.length :=
      fun source hsource => ⟨_, rfl, (h source hsource).filter⟩
    simpa [Project.filterSources] using sum_length_filter hplace
  · exact sum_length_filter fun source hsource => (h source hsource).target

/-! ## Reports -/

/-- A report shows these contents: what unfolding the folders ends with, and in it every item that
lies anywhere, once, unless no chain of parents leads out from there. -/
structure ReportShows (s : Solution) (contents : List Content) : Prop where
  unfolds : s.Unfolds none contents
  trees : List.Forall₂ s.Shows contents ((solutionTree s).children.drop 3)
  once : (Content.placements none contents).Nodup
  placed_iff : ∀ (q : Option Nat) (item : Item),
    (q, item) ∈ Content.placements none contents ↔ s.Holds q item ∧ s.Grounded q

theorem exists_reportShows (s : Solution) : ∃ contents, ReportShows s contents := by
  obtain ⟨contents, hcontents⟩ := Solution.Chain.outside.exists_unfolds (s := s)
  refine ⟨contents, hcontents, ?_, hcontents.nodup .outside, ?_⟩
  · have hremaining : s.remaining [] = s.folders.zipIdx := List.filter_eq_self.2 fun _ _ => rfl
    have hshows := hcontents.shows .outside
    rw [hremaining] at hshows
    exact hshows
  · exact fun q item => Solution.mem_placements_iff hcontents q item

/-- Every report ends and shows each item that can be reached once, in its place. In the solutions
of a description folders lie in folders before them, so all items can be reached, and still so after
resolution, when the counts of every authored project add up. -/
theorem report_shows_all_once :
    (∀ s : Solution, ∃ contents, ReportShows s contents) ∧
      ∀ (fs : FileSystem) (workingDirectory path : Path) (bindings : List (String × String))
        (d : Logged Description),
        Description.read fs workingDirectory path bindings = .ok d →
          ∀ s ∈ d.value.solutions,
            (∀ (i : Nat) (f : Folder), s.folders[i]? = some f → ∀ parent ∈ f.parent, parent < i) ∧
              (∀ (q : Option Nat) (item : Item), s.Holds q item → s.Grounded q) ∧
                (∀ (q : Option Nat) (item : Item),
                  s.resolve.value.Holds q item → s.resolve.value.Grounded q) ∧
                  ∀ p ∈ s.resolve.value.projects, p.external = false →
                    CountsAddUp s.resolve.value p := by
  refine ⟨exists_reportShows, ?_⟩
  intro fs workingDirectory path bindings d h s hs
  obtain ⟨w, e, hread⟩ := Description.exists_readSolution_of_read h s hs
  have hnested := Workspace.nested_readSolution hread
  have hplaced := Solution.sources_resolve (Workspace.asRead_readSolution hread)
  refine ⟨hnested.folders, fun _ _ => hnested.grounded, fun _ _ => hnested.resolve.grounded, ?_⟩
  exact fun p hp hauthored => countsAddUp_of_placed hauthored (hplaced p hp)

def deepProject : String :=
  "<build><solution name=\"S\"><folder name=\"lib\"><folder name=\"deep\">" ++
    "<project name=\"P\"/></folder></folder></solution></build>"

def deepRoot : Xml.Element :=
  .mk (.plain "build" []) [.mk (.plain "solution" [("name", "S")])
    [.mk (.plain "folder" [("name", "lib")]) [.mk (.plain "folder" [("name", "deep")])
      [.mk (.plain "project" [("name", "P")]) []]]]]

def deepTree : Node :=
  .plain ⟨"/w"⟩ "build" [] "" [.plain ⟨"/w"⟩ "solution" [("name", "S")] ""
    [.plain ⟨"/w"⟩ "folder" [("name", "lib")] "" [.plain ⟨"/w"⟩ "folder" [("name", "deep")] ""
      [.plain ⟨"/w"⟩ "project" [("name", "P")] "" []]]]]

def FileStore.deep : FileStore := FileStore.empty.add ⟨"/w/build.xml"⟩ deepProject

theorem report_shows_all_once_deep :
    ∃ d s, Description.read FileStore.deep.fileSystem ⟨"/w"⟩ ⟨"build.xml"⟩ [] = .ok d ∧
      s ∈ d.value.solutions ∧ s.folders = [⟨"lib", none⟩, ⟨"deep", some 0⟩] ∧
        s.projects.map Project.folder = [some 1] ∧ s.Grounded (some 1) := by
  have hdocument : (Path.join ⟨"/w"⟩ ⟨"build.xml"⟩).normalize = ⟨"/w/build.xml"⟩ := by
    decide +kernel
  have hdirectory : (Path.mk "/w/build.xml").parentOrEmpty = ⟨"/w"⟩ := by
    decide +kernel
  have htext : FileStore.deep.fileSystem.read ⟨"/w/build.xml"⟩ = .ok deepProject :=
    (FileStore.read_add_empty ⟨"/w/build.xml"⟩ ⟨"/w/build.xml"⟩ deepProject).trans (if_pos rfl)
  have hparse : Xml.parse deepProject = .ok deepRoot := by
    decide +kernel
  have hparameters : Parameters.ofDocument deepRoot [] = .ok .empty := rfl
  obtain ⟨opened, hread⟩ :=
    Description.read_of_document (by decide) hdocument htext hparse hparameters
  rw [hdirectory] at hread
  have htree : Node.load .empty opened ⟨"/w"⟩ deepRoot = deepTree := by
    simp [deepRoot, Node.load_eq, Xml.Element.tag, Xml.Element.children, Xml.Element.named,
      Xml.Element.name, Xml.Tag.plain]
    rfl
  rw [htree] at hread
  have houtput : Description.outputDirectoryOf ⟨"/w"⟩ deepRoot = ⟨"/w"⟩ := rfl
  rw [houtput] at hread
  let w : Workspace := ⟨FileStore.deep.fileSystem, .empty, ⟨"/w"⟩, ⟨"/w"⟩⟩
  have hsolutions : (w.readRoot deepTree).value.map
      (fun s => (s.folders, s.projects.map Project.folder)) =
        [([⟨"lib", none⟩, ⟨"deep", some 0⟩], [some 1])] := rfl
  obtain ⟨s, hs, hshape⟩ := List.mem_map.1 (hsolutions ▸ List.mem_singleton_self _)
  obtain ⟨hfolders, hprojects⟩ := Prod.mk.inj hshape
  obtain ⟨-, hgrounded, -⟩ := report_shows_all_once.2 _ _ _ _ _ hread s hs
  refine ⟨_, s, hread, hs, hfolders, hprojects, ?_⟩
  obtain ⟨p, hp, hfolder⟩ := List.mem_map.1 (hprojects ▸ List.mem_singleton_self _)
  obtain ⟨j, hj⟩ := List.mem_iff_getElem?.1 hp
  exact hgrounded (some 1) (.project j) ⟨p, hj, hfolder⟩

end SolutionPlan
