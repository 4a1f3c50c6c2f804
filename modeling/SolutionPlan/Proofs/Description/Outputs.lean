import SolutionPlan.Proofs.Description.Located
import SolutionPlan.Proofs.Description.Trees
import SolutionPlan.Proofs.Path.Mirror

/-!
# Output files

An output file lies where the directory of its declaration is mirrored under the output directory.
So two declarations have one output file exactly if their names differ at most in case and their
directories are mirrored alike.
-/

namespace SolutionPlan

namespace Workspace

variable {w : Workspace}

/-- Where the output files for what is declared in the directory lie. -/
def mirrored (w : Workspace) (directory : Path) : Path :=
  Path.mirror w.outputDirectory w.rootDirectory directory

theorem normalize_outputFile (w : Workspace) {directory : Path} {name ext : String} :
    (w.outputFile directory name ext).normalize = w.outputFile directory name ext := by
  unfold outputFile
  exact Path.normalize_normalize _

section OutputFile

variable (w : Workspace) (directory elsewhere : Path) {name other ext : String}
  (hname : '/' ∉ name.toList) (hext : '/' ∉ ext.toList) (hlength : 2 ≤ ext.toList.length)

include hname hext hlength

theorem normal_outputFile :
    (w.outputFile directory name ext).normal =
      (w.mirrored directory).normal ++ [.name (Text.lowercase name ++ "." ++ ext)] := by
  have hslash : '/' ∉ (Text.lowercase name ++ "." ++ ext).toList := by
    simp only [String.toList_append, List.mem_append, not_or]
    exact ⟨⟨fun h => hname (Text.slash_mem_of_mem_lowercase h), by decide⟩, hext⟩
  have hlong : 2 < (Text.lowercase name ++ "." ++ ext).toList.length := by
    have hdot : ".".toList.length = 1 := rfl
    simp only [String.toList_append, List.length_append, hdot]
    omega
  unfold outputFile mirrored Path.mirror
  rw [Path.normal_normalize, Path.normal_normalize, Path.normal_join_fileName hslash hlong]

theorem outputFile_eq_iff (hother : '/' ∉ other.toList) :
    w.outputFile directory name ext = w.outputFile elsewhere other ext ↔
      Text.lowercase name = Text.lowercase other ∧ w.mirrored directory = w.mirrored elsewhere := by
  have hnormal := w.normal_outputFile directory hname hext hlength
  have hnormal' := w.normal_outputFile elsewhere hother hext hlength
  constructor
  · intro h
    rw [h, hnormal'] at hnormal
    obtain ⟨hmirrored, hlast⟩ := List.append_inj' hnormal rfl
    constructor
    · have htext := Component.name.inj (List.cons.inj hlast).1
      simpa using htext.symm
    · exact Path.mirror_eq_iff.2 hmirrored.symm
  · rintro ⟨htext, hmirrored⟩
    apply Path.eq_of_normal_eq w.normalize_outputFile w.normalize_outputFile
    rw [hnormal, hnormal', htext, hmirrored]

end OutputFile

/-! ## Declarations -/

/-- The element declares the authored project, but for the folder that it is shown in. -/
def Declares (w : Workspace) (n : Node) (p : Project) : Prop :=
  n.attribute? "external" = none ∧
    ∃ q, (w.readAuthored n).value = some q ∧ q.unplaced = p.unplaced

theorem Declares.path {n : Node} {p : Project} (h : w.Declares n p) :
    p.path = w.outputFile n.directory p.name "vcxproj" := by
  obtain ⟨-, q, hread, hsame⟩ := h
  have hname := congrArg Project.name hsame
  have hpath := congrArg Project.path hsame
  simp only [Project.unplaced] at hname hpath
  rw [← hname, ← hpath]
  exact (paths_of_readAuthored hread).1

theorem exists_declares {e : Node} {s : Solution} (h : (w.readSolution e).value = some s)
    {p : Project} (hp : p ∈ s.projects) (hauthored : p.external = false) :
    ∃ n ∈ e.elements.flatMap Node.contentProjects, w.Declares n p := by
  obtain ⟨n, hn, q, hread, hsame⟩ := exists_contentProject_of_mem h hp
  refine ⟨n, hn, ?_⟩
  unfold readProject at hread
  cases hexternal : n.attribute? "external" with
  | none =>
      rw [hexternal] at hread
      exact ⟨hexternal, q, hread, hsame⟩
  | some external =>
      rw [hexternal] at hread
      simp only at hread
      split at hread
      · next found hfound =>
          obtain rfl := Option.some.inj hread
          have hq : found.external = false := (congrArg Project.external hsame).trans hauthored
          rw [external_of_readExternal hfound] at hq
          cases hq
      · cases hread

/-- These elements declare the authored projects, and each project's file has its lower-case name
and lies in the mirrored directory. -/
structure OutputsMirrored (w : Workspace) (contents : List Node) (projects : List Project) :
    Prop where
  declared : ∀ p ∈ projects, p.external = false → ∃ n ∈ contents, w.Declares n p
  path_eq_iff : ∀ n ∈ contents, ∀ m ∈ contents, ∀ p q, w.Declares n p → w.Declares m q →
    '/' ∉ p.name.toList → '/' ∉ q.name.toList →
      (p.path = q.path ↔ Text.lowercase p.name = Text.lowercase q.name ∧
        w.mirrored n.directory = w.mirrored m.directory)

theorem outputsMirrored {e : Node} {s : Solution} (h : (w.readSolution e).value = some s) :
    w.OutputsMirrored (e.elements.flatMap Node.contentProjects) s.projects := by
  refine ⟨fun p hp => exists_declares h hp, ?_⟩
  intro n _ m _ p q hp hq hname hother
  rw [hp.path, hq.path]
  exact w.outputFile_eq_iff n.directory m.directory hname (by decide) (by decide) hother

/-! ## Directories -/

/-- The directories of these elements are told apart by their mirrored ones if the output directory
is named like that of the root document, or if the ways to them from there climb equally. -/
def MirrorsApart (w : Workspace) (contents : List Node) : Prop :=
  ∀ n ∈ contents, ∀ m ∈ contents,
    (w.outputDirectory.EndsIn w.rootDirectory ∨
      Path.climb w.rootDirectory n.directory = Path.climb w.rootDirectory m.directory) →
    w.mirrored n.directory = w.mirrored m.directory → n.directory = m.directory

theorem mirrorsApart (houtput : w.outputDirectory.isAbsolute = true)
    (hroot : w.rootDirectory.isAbsolute = true) {e : Node} (he : e.Anchored) :
    w.MirrorsApart (e.elements.flatMap Node.contentProjects) := by
  have hdirectory : ∀ n ∈ e.elements.flatMap Node.contentProjects, n.directory.Canonical := by
    intro n hn
    obtain ⟨layer, hlayer, hn⟩ := List.mem_flatMap.1 hn
    exact ((he.of_mem_elements hlayer).of_mem_projects.1 hn).directory
  rintro n hn m hm (hends | hclimb) hsame
  · exact Path.eq_of_mirror_eq_of_endsIn houtput hroot (hdirectory n hn) (hdirectory m hm) hends
      hsame
  · exact Path.eq_of_mirror_eq_of_climb houtput hroot (hdirectory n hn) (hdirectory m hm) hclimb
      hsame

theorem exists_mirrored_eq (houtput : w.outputDirectory.isAbsolute = true)
    (hroot : w.rootDirectory.isAbsolute = true)
    (h : ¬ w.outputDirectory.EndsIn w.rootDirectory) :
    ∃ directory elsewhere : Path, directory.Canonical ∧ elsewhere.Canonical ∧
      directory ≠ elsewhere ∧ w.mirrored directory = w.mirrored elsewhere :=
  Path.exists_mirror_eq_of_not_endsIn houtput hroot h

end Workspace

/--
In a solution, projects whose names have no slash get one path exactly if their names differ at most
in case and the directories of the documents that declare them are mirrored alike. If all documents
lie in directories and the root document has an absolute path, then directories are told apart by
this in the cases above. Whenever the output directory is not named like that of the root document,
there are different directories that are mirrored alike.
-/
theorem Description.project_path_eq_iff {fs : FileSystem} {workingDirectory path : Path}
    {bindings : List (String × String)} {d : Logged Description}
    (h : read fs workingDirectory path bindings = .ok d) :
    let w := d.value.workspace fs
    (∀ s ∈ d.value.solutions, ∃ (opened : OpenDocuments fs) (root : Xml.Element),
      let e := Node.load d.value.parameters opened d.value.root.parentOrEmpty root
      (w.readSolution e).value = some s ∧
        w.OutputsMirrored (e.elements.flatMap Node.contentProjects) s.projects ∧
        (fs.HasInnerDocuments → (workingDirectory.join path).isAbsolute = true →
          w.MirrorsApart (e.elements.flatMap Node.contentProjects))) ∧
    (fs.HasInnerDocuments → (workingDirectory.join path).isAbsolute = true →
      ¬ w.outputDirectory.EndsIn w.rootDirectory → ∃ directory elsewhere : Path,
        directory.Canonical ∧ elsewhere.Canonical ∧ directory ≠ elsewhere ∧
          w.mirrored directory = w.mirrored elsewhere) := by
  have hrooted (hfs : fs.HasInnerDocuments)
      (hpath : (workingDirectory.join path).isAbsolute = true) :
      (d.value.workspace fs).outputDirectory.isAbsolute = true ∧
        (d.value.workspace fs).rootDirectory.isAbsolute = true :=
    ⟨isAbsolute_outputDirectory hpath h hfs, (canonical_directory hpath h hfs).absolute⟩
  constructor
  · intro s hs
    obtain ⟨opened, root, hread⟩ := exists_load_of_read h hs
    refine ⟨opened, root, hread, Workspace.outputsMirrored hread, ?_⟩
    intro hfs hpath
    obtain ⟨houtput, hroot⟩ := hrooted hfs hpath
    have hdirectory := canonical_directory hpath h hfs
    exact Workspace.mirrorsApart houtput hroot
      (Node.anchored_load hfs d.value.parameters opened hdirectory root)
  · intro hfs hpath
    obtain ⟨houtput, hroot⟩ := hrooted hfs hpath
    exact Workspace.exists_mirrored_eq houtput hroot

/-! ### A document in the output directory

The way to it climbs over the directory of the root document and comes down into the output
directory, where the root document is mirrored too. -/

def outsideImport : Xml.Element := .mk (.plain "import" [("file", "../out/more.xml")]) []

def outsideOwn : Xml.Element := .mk (.plain "project" [("name", "P")]) []

def outsideElement : Xml.Element :=
  .mk (.plain "solution" [("name", "S")]) [outsideImport, outsideOwn]

def outsideRoot : Xml.Element :=
  .mk (.plain "build" []) [.mk (.plain "output" [("path", "../out")]) [], outsideElement]

def outsideMore : Xml.Element := .mk (.plain "solution" []) [outsideOwn]

def outsideFiles : List (Path × String) :=
  [(⟨"/w/src/build.xml"⟩,
      "<build><output path=\"../out\"/><solution name=\"S\"><import file=\"../out/more.xml\"/>" ++
        "<project name=\"P\"/></solution></build>"),
    (⟨"/w/out/more.xml"⟩, "<solution><project name=\"P\"/></solution>")]

def outsideProject (directory : Path) : Node := .plain directory "project" [("name", "P")] "" []

def outsideSolution : Node :=
  .mk (.plain "solution" [("name", "S")]) ⟨"/w/src"⟩
    [.plain ⟨"/w/src"⟩ "import" [("file", "../out/more.xml")] "" [], outsideProject ⟨"/w/src"⟩]
    [.loaded fun _ => .plain ⟨"/w/out"⟩ "solution" [] "" [outsideProject ⟨"/w/out"⟩]]

def outsideTree : Node :=
  .plain ⟨"/w/src"⟩ "build" [] ""
    [.plain ⟨"/w/src"⟩ "output" [("path", "../out")] "" [], outsideSolution]

def outsideStore : FileStore := .ofFiles outsideFiles

def outsideWorkspace : Workspace :=
  ⟨outsideStore.fileSystem, .empty, ⟨"/w/src"⟩, ⟨"/w/out"⟩⟩

def outsideDescription : Logged Description :=
  Description.ofTree ⟨"/w/src/build.xml"⟩ (outsideWorkspace, outsideTree)

section Load

variable (opened : OpenDocuments outsideStore.fileSystem)

theorem load_outsideOwn (directory : Path) :
    Node.load .empty opened directory outsideOwn = outsideProject directory :=
  Node.load_plain _ _ _ _ _ rfl

theorem load_outsideMore (directory : Path) :
    Node.load .empty opened directory outsideMore =
      .plain directory "solution" [] "" [outsideProject directory] := by
  unfold outsideMore
  rw [Node.load_plain _ _ _ _ _ rfl, List.map_singleton, load_outsideOwn]

theorem load_outsideElement (h : opened.paths = [⟨"/w/src/build.xml"⟩]) :
    Node.load .empty opened ⟨"/w/src"⟩ outsideElement = outsideSolution := by
  have himport : openDocument outsideStore.fileSystem .empty opened.paths ⟨"/w/src"⟩
      outsideImport = .ok (⟨"/w/out/more.xml"⟩, outsideMore) := by
    rw [h]
    decide +kernel
  have hdirectory : (Path.mk "/w/out/more.xml").parentOrEmpty = ⟨"/w/out"⟩ := by
    decide +kernel
  obtain ⟨⟨path, hnew, hreadable, root⟩, hfetch, hpath, hroot⟩ :=
    exists_fetch_of_openDocument himport
  obtain rfl : path = ⟨"/w/out/more.xml"⟩ := hpath
  obtain rfl : root = outsideMore := hroot
  have himported : Imported.of .empty opened ⟨"/w/src"⟩ outsideImport =
      .loaded fun _ => .plain ⟨"/w/out"⟩ "solution" [] "" [outsideProject ⟨"/w/out"⟩] := by
    unfold Imported.of
    rw [hfetch]
    simp only [hdirectory, load_outsideMore]
  have hsites : outsideElement.named "import" = [outsideImport] := rfl
  have hchildren : outsideElement.children = [outsideImport, outsideOwn] := rfl
  rw [Node.load_eq, hsites, List.map_singleton, himported, hchildren, List.map_cons,
    List.map_singleton, load_outsideOwn, outsideImport, Node.load_plain _ _ _ _ _ rfl]
  rfl

theorem load_outsideRoot (h : opened.paths = [⟨"/w/src/build.xml"⟩]) :
    Node.load .empty opened ⟨"/w/src"⟩ outsideRoot = outsideTree := by
  unfold outsideRoot
  rw [Node.load_plain _ _ _ _ _ rfl, List.map_cons, List.map_singleton,
    Node.load_plain _ _ _ _ _ rfl, load_outsideElement opened h]
  rfl

end Load

theorem parentOrEmpty_outside : (Path.mk "/w/src/build.xml").parentOrEmpty = ⟨"/w/src"⟩ := by
  decide +kernel

theorem Description.read_outside :
    read outsideStore.fileSystem ⟨""⟩ ⟨"/w/src/build.xml"⟩ [] = .ok outsideDescription := by
  have hdocument : (Path.join ⟨""⟩ ⟨"/w/src/build.xml"⟩).normalize = ⟨"/w/src/build.xml"⟩ := by
    decide +kernel
  have htext : outsideStore.fileSystem.read ⟨"/w/src/build.xml"⟩ = .ok outsideFiles[0].2 := by
    decide +kernel
  have hparse : Xml.parse outsideFiles[0].2 = .ok outsideRoot := by
    decide +kernel
  have hparameters : Parameters.ofDocument outsideRoot [] = .ok .empty := rfl
  have hopen : (outsideStore.fileSystem.read ⟨"/w/src/build.xml"⟩).isOk := by
    rw [htext]
    rfl
  have houtput : outputDirectoryOf ⟨"/w/src"⟩ outsideRoot = ⟨"/w/out"⟩ := by
    decide +kernel
  rw [read_eq_single (by decide) hdocument htext hparse hparameters hopen, parentOrEmpty_outside,
    houtput, load_outsideRoot _ rfl]
  rfl

theorem Description.project_path_eq_iff_outside :
    ∃ d, read outsideStore.fileSystem ⟨""⟩ ⟨"/w/src/build.xml"⟩ [] = .ok d ∧
      let w := d.value.workspace outsideStore.fileSystem
      (∃ s ∈ d.value.solutions, ∃ e, (w.readSolution e).value = some s ∧
        w.OutputsMirrored (e.elements.flatMap Node.contentProjects) s.projects ∧
          w.MirrorsApart (e.elements.flatMap Node.contentProjects)) ∧
      ∃ directory elsewhere : Path, directory.Canonical ∧ elsewhere.Canonical ∧
        directory ≠ elsewhere ∧ w.mirrored directory = w.mirrored elsewhere := by
  have hfiles : ∀ file ∈ outsideFiles, file.1.normal ≠ [.root] := by
    decide +kernel
  have hfs : outsideStore.fileSystem.HasInnerDocuments :=
    (FileStore.hasInnerFiles_ofFiles hfiles).read
  have hpath : (Path.join ⟨""⟩ ⟨"/w/src/build.xml"⟩).isAbsolute = true := by
    decide
  obtain ⟨hsolutions, hshared⟩ := project_path_eq_iff read_outside
  obtain ⟨s, hs⟩ : ∃ s, s ∈ outsideDescription.value.solutions := by
    apply List.exists_mem_of_ne_nil
    decide +kernel
  obtain ⟨opened, root, hread, hmirrored, hapart⟩ := hsolutions s hs
  exact ⟨_, read_outside, ⟨s, hs, _, hread, hmirrored, hapart hfs hpath⟩,
    hshared hfs hpath (by decide +kernel)⟩

/-- Projects of one name in different directories get one path. -/
theorem Description.path_eq_outside :
    ∃ d s, read outsideStore.fileSystem ⟨""⟩ ⟨"/w/src/build.xml"⟩ [] = .ok d ∧
      s ∈ d.value.solutions ∧
      ∃ (opened : OpenDocuments outsideStore.fileSystem) (root : Xml.Element),
        let w := d.value.workspace outsideStore.fileSystem
        let e := Node.load d.value.parameters opened d.value.root.parentOrEmpty root
        (w.readSolution e).value = some s ∧
          ∃ n ∈ e.elements.flatMap Node.contentProjects,
          ∃ m ∈ e.elements.flatMap Node.contentProjects,
          ∃ p ∈ s.projects, ∃ q ∈ s.projects, w.Declares n p ∧ w.Declares m q ∧
            '/' ∉ p.name.toList ∧ '/' ∉ q.name.toList ∧ p.path = q.path ∧
              n.directory ≠ m.directory := by
  have hworkspace : outsideDescription.value.workspace outsideStore.fileSystem =
      outsideWorkspace := by
    unfold workspace outsideDescription ofTree
    simp only [Logged.bind_value, Logged.pure_value, parentOrEmpty_outside]
    rfl
  have hopen : (outsideStore.fileSystem.read ⟨"/w/src/build.xml"⟩).isOk := by
    decide +kernel
  have hload : Node.load outsideDescription.value.parameters (.single _ hopen)
      outsideDescription.value.root.parentOrEmpty outsideElement = outsideSolution := by
    unfold outsideDescription ofTree
    simp only [Logged.bind_value, Logged.pure_value, parentOrEmpty_outside]
    exact load_outsideElement _ rfl
  have hcontents : outsideSolution.elements.flatMap Node.contentProjects =
      [outsideProject ⟨"/w/out"⟩, outsideProject ⟨"/w/src"⟩] := rfl
  let more := outsideWorkspace.declared "P" (outsideProject ⟨"/w/out"⟩)
  let own := outsideWorkspace.declared "P" (outsideProject ⟨"/w/src"⟩)
  have hmore : (outsideWorkspace.readAuthored (outsideProject ⟨"/w/out"⟩)).value = some more := by
    decide +kernel
  have hown : (outsideWorkspace.readAuthored (outsideProject ⟨"/w/src"⟩)).value = some own := by
    decide +kernel
  have hsame : more.path = own.path := by
    decide +kernel
  have hprojects : (outsideWorkspace.readSolution outsideSolution).value.map Solution.projects =
      some [more, own] := by
    decide +kernel
  obtain ⟨s, hs, hprojects⟩ := Option.map_eq_some_iff.1 hprojects
  have hsolution : s ∈ outsideDescription.value.solutions := by
    unfold outsideDescription
    rw [solutions_ofTree, List.mem_filterMap]
    exact ⟨outsideSolution, List.mem_of_mem_head? rfl, hs⟩
  refine ⟨_, s, read_outside, hsolution, .single _ hopen, outsideElement, ?_⟩
  simp only [hworkspace, hload, hcontents, hprojects]
  refine ⟨hs, _, List.mem_cons_self, _, List.mem_cons_of_mem _ List.mem_cons_self,
    more, List.mem_cons_self, own, List.mem_cons_of_mem _ List.mem_cons_self,
    ⟨rfl, more, hmore, rfl⟩, ⟨rfl, own, hown, rfl⟩, ?_⟩
  exact ⟨by decide, by decide, hsame, by decide⟩

end SolutionPlan
