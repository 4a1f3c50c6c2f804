import SolutionPlan.FileSystem.Store
import SolutionPlan.Proofs.Description.FlawCost
import SolutionPlan.Proofs.Description.Trees

/-!
# Flawed descriptions

Two descriptions whose trees differ in a flaw are read as the same, whatever the file systems that
they come from say in other places. The one with the flaw has one error more.
-/

namespace SolutionPlan

/-! ## In a description -/

section Flaw

variable {w : Workspace} {around : Reading} {name : String}
  {tree : At (Flaw w around name) → Node}

theorem Spot.named_root (h : Spot w around name .root tree) {other : String}
    (hother : "solution" ≠ other) (flaw : Flaw w around name) :
    (tree (.flaw flaw)).named other = (tree .nothing).named other := by
  cases h with
  | here frame =>
      have hname : name = "solution" := flaw.named.symm.trans flaw.flawed.in_root.1
      exact named_fill_of_ne frame _ Flaw.name_of_mem_nodes (hname ▸ hother) nofun
  | child frame h hread hfirst =>
      have hnamed := name_of_mem_singleton h.sameTag.name
      cases hread with
      | solution hname hcalled => exact named_fill_of_ne frame _ hnamed (hname ▸ hother) nofun
      | folder hr | project hr => cases hr
  | imported frame h hread => cases hread

namespace Description

variable {fs other : FileSystem} {workingDirectory path : Path} {bindings : List (String × String)}

theorem alike_of_loadTree (h : Spot w around name .root tree)
    (hload : loadTree fs workingDirectory path bindings = .ok (w, tree .nothing)) {v : Workspace}
    {flaw : Flaw w around name}
    (hflawed : loadTree other workingDirectory path bindings = .ok (v, tree (.flaw flaw)))
    (hfiles : v.SameFiles w) : v.Alike w := by
  obtain ⟨root, opened, hparameters, hdirectory, houtput, htree⟩ :=
    loadDocument_eq_ok (loadTree_eq_ok hload).2
  obtain ⟨root', opened', hparameters', hdirectory', houtput', htree'⟩ :=
    loadDocument_eq_ok (loadTree_eq_ok hflawed).2
  have hsame : v.rootDirectory = w.rootDirectory := hdirectory'.trans hdirectory.symm
  have hnamed {key : String} (hkey : "solution" ≠ key) :
      (Node.load v.parameters opened' v.rootDirectory root').named key =
        (Node.load w.parameters opened w.rootDirectory root).named key := by
    rw [← htree, ← htree']
    exact h.named_root hkey flaw
  refine ⟨hfiles, ?parameters, hsame, ?output⟩
  case parameters =>
    have hdeclared : Parameters.declared root' = Parameters.declared root := by
      rw [Parameters.declared_eq_load v.parameters opened' v.rootDirectory root',
        Parameters.declared_eq_load w.parameters opened w.rootDirectory root,
        hnamed (by decide)]
    unfold Parameters.ofDocument at hparameters hparameters'
    rw [hdeclared, hparameters] at hparameters'
    exact (Except.ok.inj hparameters').symm
  case output =>
    rw [houtput, houtput', outputDirectoryOf_eq_load v.parameters opened' v.rootDirectory root',
      outputDirectoryOf_eq_load w.parameters opened w.rootDirectory root, hnamed (by decide), hsame]

/-- A flaw costs one error: the tree without it is read as the same description with the same other
problems. So is every description whose tree has the flaw. In front of the error stand the problems
of the tree that stops where the flaw stands. -/
theorem flaw_costs_one_error (h : Spot w around name .root tree)
    (hload : loadTree fs workingDirectory path bindings = .ok (w, tree .nothing)) :
    ∃ d before after,
      read fs workingDirectory path bindings = .ok ⟨d, before ++ after⟩ ∧
        ∀ flaw : Flaw w around name, flaw.problem.severity = .error ∧
          (ofTree (workingDirectory.join path).normalize (w, tree .stop)).problems = before ∧
          ofTree (workingDirectory.join path).normalize (w, tree (.flaw flaw)) =
            ⟨d, before ++ flaw.problem :: after⟩ ∧
          ∀ (other : FileSystem) (v : Workspace),
            loadTree other workingDirectory path bindings = .ok (v, tree (.flaw flaw)) →
            v.SameFiles w →
              read other workingDirectory path bindings =
                .ok ⟨d, before ++ flaw.problem :: after⟩ := by
  obtain ⟨solutions, before, after, hwithout, hwith⟩ := Workspace.readRoot_flaw h
  refine ⟨⟨(workingDirectory.join path).normalize, w.outputDirectory, w.parameters, solutions⟩,
    before, after, ?_, ?_⟩
  · rw [read_of_loadTree hload, ofTree_eq hwithout]
  · intro flaw
    obtain ⟨hsevere, hbefore, hread⟩ := hwith flaw
    refine ⟨hsevere, (problems_ofTree _ w _).trans hbefore, ofTree_eq hread, ?_⟩
    intro other v hflawed hfiles
    have halike := alike_of_loadTree h hload hflawed hfiles
    rw [read_of_loadTree hflawed, ofTree_eq ((halike.readRoot_eq _).trans hread),
      halike.parameters, halike.outputDirectory]

end Description

end Flaw

/-! ## A nameless configuration -/

/-- A solution with two configurations, each with an option that is not known, and something in
between. -/
def documentWith (found : String) : String :=
  "<build><solution name=\"S\"><configurations>" ++
    "<configuration name=\"Debug\"><a/></configuration>" ++ found ++
    "<configuration name=\"Release\"><b/></configuration>" ++
    "</configurations></solution></build>"

def FileStore.describing (found : String) : FileStore :=
  FileStore.empty.add ⟨"/w/build.xml"⟩ (documentWith found)

def configurationWith (name option : String) : Xml.Element :=
  .mk (.plain "configuration" [("name", name)]) [.mk (.plain option []) []]

def rootWith (found : List Xml.Element) : Xml.Element :=
  .mk (.plain "build" []) [.mk (.plain "solution" [("name", "S")])
    [.mk (.plain "configurations" [])
      (configurationWith "Debug" "a" :: found ++ [configurationWith "Release" "b"])]]

def namelessConfiguration : Xml.Element := .mk (.plain "configuration" []) []

def describingWorkspace (found : String) : Workspace :=
  ⟨(FileStore.describing found).fileSystem, .empty, ⟨"/w"⟩, ⟨"/w"⟩⟩

abbrev DescribedFlaw : Type :=
  Flaw (describingWorkspace "") (.profile "S" ⟨"/w"⟩) "configuration"

def describingFrame (tag : Xml.Tag) (before after : List Node) : Frame DescribedFlaw :=
  ⟨tag, fun _ => "", ⟨"/w"⟩, before, after, [], []⟩

def describedConfiguration (name option : String) : Node :=
  .mk (.plain "configuration" [("name", name)]) ⟨"/w"⟩ [.mk (.plain option []) ⟨"/w"⟩ [] []] []

def describedTree : At DescribedFlaw → Node :=
  (describingFrame (.plain "build" []) [] []).fill Reading.root.rank "solution"
    (fun x => [(describingFrame (.plain "solution" [("name", "S")]) [] []).fill
      (Reading.solution "S" ⟨"/w"⟩).rank "configurations"
      (fun x => [(describingFrame (.plain "configurations" [])
        [describedConfiguration "Debug" "a"] [describedConfiguration "Release" "b"]).fill
          (Reading.profile "S" ⟨"/w"⟩).rank "configuration" Flaw.nodes Flaw.imports x])
      (fun _ => []) x])
    fun _ => []

theorem spot_describedTree :
    Spot (describingWorkspace "") (.profile "S" ⟨"/w"⟩) "configuration" .root describedTree :=
  .child _ (.child _ (.here _) (.solutionProfile rfl) nofun) (.solution rfl rfl) nofun

def describedFlaw : DescribedFlaw where
  node := .mk (.plain "configuration" []) ⟨"/w"⟩ [] []
  problem := .configurationWithoutName "S"
  roots := []
  named := rfl
  flawed := .configuration rfl rfl
  roots_of_import := nofun
  roots_of_ne _ := rfl

theorem parse_documentWith_nothing : Xml.parse (documentWith "") = .ok (rootWith []) := by
  decide +kernel

theorem parse_documentWith_nameless :
    Xml.parse (documentWith "<configuration/>") = .ok (rootWith [namelessConfiguration]) := by
  decide +kernel

/-- A search lists the document, whatever it says, and no project is identified in it. -/
theorem sameFiles_describing :
    (describingWorkspace "<configuration/>").SameFiles (describingWorkspace "") := by
  constructor
  case find =>
    intro root pattern recursive
    have hkeys : (FileStore.describing "<configuration/>").files.keys =
        (FileStore.describing "").files.keys :=
      (FileStore.keys_add_empty _ _).trans (FileStore.keys_add_empty _ _).symm
    change FileStore.find _ root pattern recursive = FileStore.find _ root pattern recursive
    unfold FileStore.find FileStore.hasDirectory
    rw [hkeys]
  case external =>
    intro path
    have hread (found : String) : (describingWorkspace found).fs.read path =
        if (Path.mk "/w/build.xml").normal = path.normal then .ok (documentWith found)
        else .error (.fileNotFound path) :=
      FileStore.read_add_empty _ path _
    have hproject : (Workspace.Identity.ofElement (rootWith [])).complete? = none := by
      decide +kernel
    have hproject' :
        (Workspace.Identity.ofElement (rootWith [namelessConfiguration])).complete? = none := by
      decide +kernel
    unfold Workspace.readExternal
    simp only [hread]
    by_cases h : (Path.mk "/w/build.xml").normal = path.normal
    · simp only [h, if_true, parse_documentWith_nothing, parse_documentWith_nameless, hproject,
        hproject']
    · simp only [h, if_false]

namespace Description

theorem loadTree_describing {found : String} {es : List Xml.Element}
    (hparse : Xml.parse (documentWith found) = .ok (rootWith es)) :
    ∃ opened : OpenDocuments (FileStore.describing found).fileSystem,
      loadTree (FileStore.describing found).fileSystem ⟨"/w"⟩ ⟨"build.xml"⟩ [] =
        .ok (describingWorkspace found, Node.load .empty opened ⟨"/w"⟩ (rootWith es)) := by
  have hdocument : (Path.join ⟨"/w"⟩ ⟨"build.xml"⟩).normalize = ⟨"/w/build.xml"⟩ := by
    decide +kernel
  have hdirectory : (Path.mk "/w/build.xml").parentOrEmpty = ⟨"/w"⟩ := by
    decide +kernel
  have hread : (FileStore.describing found).fileSystem.read ⟨"/w/build.xml"⟩ =
      .ok (documentWith found) :=
    (FileStore.read_add_empty ⟨"/w/build.xml"⟩ ⟨"/w/build.xml"⟩ (documentWith found)).trans
      (if_pos rfl)
  have hparameters : Parameters.ofDocument (rootWith es) [] = .ok .empty := rfl
  obtain ⟨opened, h⟩ := loadDocument_of_read hread hparse hparameters
  rw [hdirectory] at h
  rw [loadTree_of_ne (by decide), hdocument]
  exact ⟨opened, h⟩

theorem loadTree_describing_nothing :
    loadTree (FileStore.describing "").fileSystem ⟨"/w"⟩ ⟨"build.xml"⟩ [] =
      .ok (describingWorkspace "", describedTree .nothing) := by
  obtain ⟨opened, h⟩ := loadTree_describing parse_documentWith_nothing
  rw [h]
  simp [rootWith, configurationWith, Node.load_eq, Xml.Element.tag, Xml.Element.children,
    Xml.Element.named, Xml.Element.name, Xml.Tag.plain]
  rfl

theorem loadTree_describing_nameless :
    loadTree (FileStore.describing "<configuration/>").fileSystem ⟨"/w"⟩ ⟨"build.xml"⟩ [] =
      .ok (describingWorkspace "<configuration/>", describedTree (.flaw describedFlaw)) := by
  obtain ⟨opened, h⟩ := loadTree_describing parse_documentWith_nameless
  rw [h]
  simp [rootWith, configurationWith, namelessConfiguration, Node.load_eq, Xml.Element.tag,
    Xml.Element.children, Xml.Element.named, Xml.Element.name, Xml.Tag.plain]
  rfl

theorem flaw_costs_one_error_nameless :
    ∃ d,
      read (FileStore.describing "").fileSystem ⟨"/w"⟩ ⟨"build.xml"⟩ [] =
          .ok ⟨d, [.unknownSetting .project "a", .unknownSetting .project "b"]⟩ ∧
        read (FileStore.describing "<configuration/>").fileSystem ⟨"/w"⟩ ⟨"build.xml"⟩ [] =
          .ok ⟨d, [.unknownSetting .project "a", .configurationWithoutName "S",
            .unknownSetting .project "b"]⟩ := by
  obtain ⟨d, before, after, hwithout, hwith⟩ :=
    flaw_costs_one_error spot_describedTree loadTree_describing_nothing
  obtain ⟨-, hbefore, -, hread⟩ := hwith describedFlaw
  have hread := hread _ _ loadTree_describing_nameless sameFiles_describing
  have hall : ((describingWorkspace "").readRoot (describedTree .nothing)).problems =
      [.unknownSetting .project "a", .unknownSetting .project "b"] := by
    decide +kernel
  have hstop : ((describingWorkspace "").readRoot (describedTree .stop)).problems =
      [.unknownSetting .project "a"] := by
    decide +kernel
  obtain rfl : [.unknownSetting .project "a"] = before := by
    rw [← hbefore, problems_ofTree, hstop]
  obtain rfl : [.unknownSetting .project "b"] = after := by
    rw [read_of_loadTree loadTree_describing_nothing] at hwithout
    have h := congrArg Logged.problems (Except.ok.inj hwithout)
    rw [problems_ofTree, hall] at h
    exact (List.cons.inj h).2
  exact ⟨d, hwithout, hread⟩

end Description

end SolutionPlan
