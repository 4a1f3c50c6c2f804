import SolutionPlan.Proofs.Description.Located
import SolutionPlan.Proofs.Description.Trees

/-!
# All paths are canonical

Whatever a description says and wherever it says so, each path in the solutions that are read from
files in memory is absolute and normal, and so it is after resolution. Sources of one project have
different paths, so they are different files.
-/

namespace SolutionPlan

structure Project.Canonical (p : Project) : Prop where
  path : p.path.Canonical
  sourceRoot : p.sourceRoot.Canonical
  filters : ∀ f ∈ p.filters, f.root.Canonical
  sources : ∀ s ∈ p.sources, s.path.Canonical
  distinct : (p.sources.map fun s => s.path.normal).Nodup

theorem Project.Located.canonical {p : Project} (hp : p.Located) (hdistinct : p.DistinctPaths) :
    p.Canonical := by
  have hsources : ∀ s ∈ p.sources, s.path.Canonical := by
    intro s hs
    have hkey : (s.path, s.generated) ∈ p.keys :=
      List.mem_map_of_mem (f := fun s : Source => (s.path, s.generated)) hs
    exact (hp.sources _ hkey).1
  refine ⟨hp.path.toCanonical, hp.sourceRoot, ?_, hsources, ?_⟩
  · exact fun f hf => hp.filters f.root (List.mem_map_of_mem hf)
  · have hnormal : (p.sources.map fun s => s.path.normal) =
        p.sources.map fun s => s.path.components :=
      List.map_congr_left fun s hs => (hsources s hs).components_eq.symm
    rw [hnormal]
    exact hdistinct

namespace Solution

structure Canonical (s : Solution) : Prop where
  path : s.path.Canonical
  directory : s.directory.Canonical
  definitions : ∀ t ∈ s.targets, ∀ definition ∈ t.definition, definition.Canonical
  projects : ∀ p ∈ s.projects, p.Canonical

theorem Located.canonical {s : Solution} (hs : s.Located)
    (hdistinct : ∀ p ∈ s.projects, p.DistinctPaths) : s.Canonical :=
  ⟨hs.path, hs.directory, hs.definitions,
    fun p hp => (hs.projects p hp).canonical (hdistinct p hp)⟩

theorem distinct_resolve {s : Solution} (hs : s.AsRead) :
    ∀ p ∈ s.resolve.value.projects, p.DistinctPaths := by
  rw [projects_resolve, List.forall_mem_map]
  intro p hp
  have hrange := (hs.projects p hp).inRange s.targets.length
  have hbound : (resolveIn (s.projects.map Project.name) p).value.InRange s.targets.length :=
    ⟨hrange.distinct, hrange.sources⟩
  unfold resolvedProject
  simp only
  split
  · exact hbound.distinct
  · exact (Project.placed_resolve hs.targets hbound _).1.distinct

end Solution

/--
In files in memory, none of which is the root itself, every solution of a description at an absolute
path has only canonical paths, before and after it is resolved.
-/
theorem Description.paths_canonical (files : List (Path × String))
    (hfiles : ∀ file ∈ files, file.1.normal ≠ [.root]) (workingDirectory path : Path)
    (hpath : path.isAbsolute = true) (bindings : List (String × String)) (d : Logged Description)
    (h : read (FileStore.ofFiles files).fileSystem workingDirectory path bindings = .ok d) :
    ∀ s ∈ d.value.solutions, s.Canonical ∧ s.resolve.value.Canonical := by
  intro s hs
  have hjoin : (workingDirectory.join path).isAbsolute = true := by
    rwa [Path.join_of_isAbsolute hpath]
  have hlocated := located_of_read hjoin h (FileStore.hasInnerFiles_ofFiles hfiles) s hs
  obtain ⟨opened, e, hread⟩ := exists_load_of_read h hs
  have hasRead := Workspace.asRead_readSolution hread
  constructor
  · exact hlocated.canonical fun p hp => ((hasRead.projects p hp).inRange 0).distinct
  · exact hlocated.resolve.canonical (Solution.distinct_resolve hasRead)

/-- A project that finds one source by a roundabout way and generates another from it. -/
def roundabout : String :=
  "<build><solution name=\"S\"><targets><custom name=\"Gen\"><extension>c</extension>" ++
    "<generate>../gen/./$(FileBasename).h</generate></custom></targets>" ++
    "<project name=\"P\" root=\"../w/src/\"><filter name=\"F\"><include files=\"./*.c\"/>" ++
    "</filter></project></solution></build>"

def roundaboutRoot : Xml.Element :=
  .mk (.plain "build" []) [.mk (.plain "solution" [("name", "S")])
    [.mk (.plain "targets" []) [.mk (.plain "custom" [("name", "Gen")])
      [.mk { Xml.Tag.plain "extension" [] with text := "c" } [],
        .mk { Xml.Tag.plain "generate" [] with text := "../gen/./$(FileBasename).h" } []]],
    .mk (.plain "project" [("name", "P"), ("root", "../w/src/")])
      [.mk (.plain "filter" [("name", "F")]) [.mk (.plain "include" [("files", "./*.c")]) []]]]]

def roundaboutTree : Node :=
  .plain ⟨"/w"⟩ "build" [] "" [.plain ⟨"/w"⟩ "solution" [("name", "S")] ""
    [.plain ⟨"/w"⟩ "targets" [] "" [.plain ⟨"/w"⟩ "custom" [("name", "Gen")] ""
      [.plain ⟨"/w"⟩ "extension" [] "c" [],
        .plain ⟨"/w"⟩ "generate" [] "../gen/./$(FileBasename).h" []]],
    .plain ⟨"/w"⟩ "project" [("name", "P"), ("root", "../w/src/")] ""
      [.plain ⟨"/w"⟩ "filter" [("name", "F")] ""
        [.plain ⟨"/w"⟩ "include" [("files", "./*.c")] "" []]]]]

def roundaboutFiles : List (Path × String) :=
  [(⟨"/w/build.xml"⟩, roundabout), (⟨"/w/src/a.c"⟩, "")]

theorem Description.paths_canonical_roundabout :
    (∀ file ∈ roundaboutFiles, file.1.normal ≠ [.root]) ∧
      ∃ d s, read (FileStore.ofFiles roundaboutFiles).fileSystem ⟨""⟩ ⟨"/w/./build.xml"⟩ [] =
          .ok d ∧ s ∈ d.value.solutions ∧
        (s.resolve.value.projects.map fun p => p.sources.map Source.path) =
          [[⟨"/w/src/a.c"⟩, ⟨"/w/gen/a.h"⟩]] ∧ s.Canonical ∧ s.resolve.value.Canonical := by
  have hfiles : ∀ file ∈ roundaboutFiles, file.1.normal ≠ [.root] := by
    decide +kernel
  have hdocument : (Path.join ⟨""⟩ ⟨"/w/./build.xml"⟩).normalize = ⟨"/w/build.xml"⟩ := by
    decide +kernel
  have hdirectory : (Path.mk "/w/build.xml").parentOrEmpty = ⟨"/w"⟩ := by
    decide +kernel
  have htext : (FileStore.ofFiles roundaboutFiles).fileSystem.read ⟨"/w/build.xml"⟩ =
      .ok roundabout := by
    decide +kernel
  have hparse : Xml.parse roundabout = .ok roundaboutRoot := by
    decide +kernel
  have hparameters : Parameters.ofDocument roundaboutRoot [] = .ok .empty := rfl
  obtain ⟨opened, hread⟩ :=
    Description.read_of_document (by decide) hdocument htext hparse hparameters
  have houtput : outputDirectoryOf ⟨"/w"⟩ roundaboutRoot = ⟨"/w"⟩ := rfl
  have htree : Node.load .empty opened ⟨"/w"⟩ roundaboutRoot = roundaboutTree := by
    simp [roundaboutRoot, Node.load_eq, Xml.Element.tag, Xml.Element.children, Xml.Element.named,
      Xml.Element.name, Xml.Tag.plain]
    rfl
  rw [hdirectory, htree, houtput] at hread
  let w : Workspace := ⟨(FileStore.ofFiles roundaboutFiles).fileSystem, .empty, ⟨"/w"⟩, ⟨"/w"⟩⟩
  have hsolutions : (w.readRoot roundaboutTree).value.map
      (fun s => s.resolve.value.projects.map fun p => p.sources.map Source.path) =
        [[[⟨"/w/src/a.c"⟩, ⟨"/w/gen/a.h"⟩]]] := by
    decide +kernel
  obtain ⟨s, hs, hsources⟩ := List.mem_map.1 (hsolutions ▸ List.mem_singleton_self _)
  refine ⟨hfiles, _, s, hread, hs, hsources, ?_⟩
  exact paths_canonical roundaboutFiles hfiles ⟨""⟩ ⟨"/w/./build.xml"⟩ rfl [] _ hread s hs

end SolutionPlan
