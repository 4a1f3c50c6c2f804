import SolutionPlan.Proofs.Description.Sections

/-!
# The tree of a description

Reading a description is loading its tree and then reading the tree. What is read from a tree does
not depend on the texts of the documents any more, only on the files that searches find and on the
external projects.
-/

namespace SolutionPlan

/-! ## Loading and reading -/

namespace Description

/-- The root element of a document with every import followed, and what it is read against. -/
def loadDocument (fs : FileSystem) (document : Path) (bindings : List (String × String)) :
    Except BuildError (Workspace × Node) :=
  match hread : fs.read document with
  | .error e => .error (.unreadable e)
  | .ok text =>
      match Xml.parse text with
      | .error e => .error (.malformed document e)
      | .ok root => do
          let parameters ← Parameters.ofDocument root bindings
          let directory := document.parentOrEmpty
          .ok (⟨fs, parameters, directory, outputDirectoryOf directory root⟩,
            Node.load parameters (.single document (by rw [hread]; rfl)) directory root)

def loadTree (fs : FileSystem) (workingDirectory path : Path) (bindings : List (String × String)) :
    Except BuildError (Workspace × Node) :=
  if path.text = "" then .error .emptyPath
  else loadDocument fs (workingDirectory.join path).normalize bindings

def ofTree (document : Path) (tree : Workspace × Node) : Logged Description := do
  let solutions ← tree.1.readRoot tree.2
  pure ⟨document, tree.1.outputDirectory, tree.1.parameters, solutions⟩

theorem ofTree_eq {document : Path} {w : Workspace} {n : Node} {solutions : List Solution}
    {problems : List Problem} (h : w.readRoot n = ⟨solutions, problems⟩) :
    ofTree document (w, n) =
      ⟨⟨document, w.outputDirectory, w.parameters, solutions⟩, problems⟩ := by
  unfold ofTree
  rw [h]
  exact congrArg (Logged.mk _) (List.append_nil problems)

theorem problems_ofTree (document : Path) (w : Workspace) (n : Node) :
    (ofTree document (w, n)).problems = (w.readRoot n).problems :=
  List.append_nil _

theorem solutions_ofTree (document : Path) (w : Workspace) (n : Node) :
    (ofTree document (w, n)).value.solutions =
      (n.named "solution").filterMap fun e => (w.readSolution e).value := by
  unfold ofTree Workspace.readRoot
  simp only [Logged.bind_value, Logged.pure_value, collect_value, List.filterMap_eq_flatMap_toList]
  rfl

section Document

variable {fs : FileSystem} {document : Path} {bindings : List (String × String)}

theorem loadDocument_eq_ok {w : Workspace} {n : Node}
    (h : loadDocument fs document bindings = .ok (w, n)) :
    ∃ (root : Xml.Element) (opened : OpenDocuments fs),
      Parameters.ofDocument root bindings = .ok w.parameters ∧
        w.rootDirectory = document.parentOrEmpty ∧
        w.outputDirectory = outputDirectoryOf w.rootDirectory root ∧
        n = Node.load w.parameters opened w.rootDirectory root := by
  unfold loadDocument at h
  split at h
  · cases h
  · split at h
    · cases h
    · next root _ =>
        cases hparameters : Parameters.ofDocument root bindings with
        | error e =>
            rw [hparameters] at h
            cases h
        | ok parameters =>
            rw [hparameters] at h
            obtain ⟨rfl, rfl⟩ := Prod.mk.inj (Except.ok.inj h)
            exact ⟨root, _, hparameters, rfl, rfl, rfl⟩

theorem loadDocument_eq_single {text : String} {root : Xml.Element} {parameters : Parameters}
    (hread : fs.read document = .ok text) (hparse : Xml.parse text = .ok root)
    (hparameters : Parameters.ofDocument root bindings = .ok parameters)
    (hopen : (fs.read document).isOk) :
    loadDocument fs document bindings =
      .ok (⟨fs, parameters, document.parentOrEmpty, outputDirectoryOf document.parentOrEmpty root⟩,
        Node.load parameters (.single document hopen) document.parentOrEmpty root) := by
  unfold loadDocument
  split
  · next e hread' => cases hread.symm.trans hread'
  · next text' hread' =>
      cases hread.symm.trans hread'
      simp only [hparse, hparameters]
      rfl

theorem loadDocument_of_read {text : String} {root : Xml.Element} {parameters : Parameters}
    (hread : fs.read document = .ok text) (hparse : Xml.parse text = .ok root)
    (hparameters : Parameters.ofDocument root bindings = .ok parameters) :
    ∃ opened : OpenDocuments fs,
      loadDocument fs document bindings =
        .ok (⟨fs, parameters, document.parentOrEmpty,
            outputDirectoryOf document.parentOrEmpty root⟩,
          Node.load parameters opened document.parentOrEmpty root) :=
  ⟨_, loadDocument_eq_single hread hparse hparameters (by rw [hread]; rfl)⟩

end Document

section Tree

variable {fs : FileSystem} {workingDirectory path : Path} {bindings : List (String × String)}

theorem loadTree_of_ne (h : path.text ≠ "") :
    loadTree fs workingDirectory path bindings =
      loadDocument fs (workingDirectory.join path).normalize bindings :=
  if_neg h

theorem loadTree_eq_ok {tree : Workspace × Node}
    (h : loadTree fs workingDirectory path bindings = .ok tree) :
    path.text ≠ "" ∧
      loadDocument fs (workingDirectory.join path).normalize bindings = .ok tree := by
  unfold loadTree at h
  split at h
  · cases h
  · next hpath => exact ⟨hpath, h⟩

theorem read_of_loadTree {tree : Workspace × Node}
    (h : loadTree fs workingDirectory path bindings = .ok tree) :
    read fs workingDirectory path bindings =
      .ok (ofTree (workingDirectory.join path).normalize tree) := by
  obtain ⟨hpath, h⟩ := loadTree_eq_ok h
  unfold loadDocument at h
  split at h
  · cases h
  · next text hread =>
      split at h
      · cases h
      · next root hparse =>
          cases hparameters : Parameters.ofDocument root bindings with
          | error e =>
              rw [hparameters] at h
              cases h
          | ok parameters =>
              rw [hparameters] at h
              obtain rfl := Except.ok.inj h
              unfold read
              rw [if_neg hpath]
              simp only
              split
              · next e hread' => cases hread.symm.trans hread'
              · next text' hread' =>
                  cases hread.symm.trans hread'
                  simp only [hparse, hparameters, readSolutions_eq_readRoot]
                  rfl

section Readable

variable {document : Path} {text : String} {root : Xml.Element} {parameters : Parameters}
  (hpath : path.text ≠ "") (hdocument : (workingDirectory.join path).normalize = document)
  (hread : fs.read document = .ok text) (hparse : Xml.parse text = .ok root)
  (hparameters : Parameters.ofDocument root bindings = .ok parameters)

include hpath hdocument hread hparse hparameters

theorem read_eq_single (hopen : (fs.read document).isOk) :
    read fs workingDirectory path bindings =
      .ok (ofTree document (⟨fs, parameters, document.parentOrEmpty,
          outputDirectoryOf document.parentOrEmpty root⟩,
        Node.load parameters (.single document hopen) document.parentOrEmpty root)) := by
  subst hdocument
  have hload := loadDocument_eq_single hread hparse hparameters hopen
  rw [← loadTree_of_ne hpath] at hload
  exact read_of_loadTree hload

theorem read_of_document :
    ∃ opened : OpenDocuments fs,
      read fs workingDirectory path bindings =
        .ok (ofTree document (⟨fs, parameters, document.parentOrEmpty,
            outputDirectoryOf document.parentOrEmpty root⟩,
          Node.load parameters opened document.parentOrEmpty root)) :=
  ⟨_, read_eq_single hpath hdocument hread hparse hparameters (by rw [hread]; rfl)⟩

end Readable

end Tree

end Description

def Xml.Tag.plain (name : String) (attributes : List (String × String)) : Xml.Tag :=
  ⟨none, name, attributes.map fun a => ⟨none, a.1, a.2⟩, ""⟩

theorem Node.load_plain {fs : FileSystem} (parameters : Parameters) (opened : OpenDocuments fs)
    (directory : Path) (name : String) (attributes : List (String × String))
    {children : List Xml.Element} (h : children.all fun c => c.name != "import") :
    load parameters opened directory (.mk (.plain name attributes) children) =
      .plain directory name attributes "" (children.map (load parameters opened directory)) := by
  have hnone : (Xml.Element.mk (.plain name attributes) children).named "import" = [] := by
    unfold Xml.Element.named
    rw [List.filter_eq_nil_iff]
    intro c hc
    simpa using List.all_eq_true.1 h c hc
  rw [load_eq, hnone]
  rfl

/-! ## What the root element says -/

section Root

variable {fs : FileSystem} (parameters : Parameters) (opened : OpenDocuments fs) (directory : Path)
  (root : Xml.Element)

theorem Parameters.declared_eq_load :
    declared root =
      (((Node.load parameters opened directory root).named "options").flatMap
        fun options => options.named "option").foldl
          (fun ps option =>
            match option.attribute? "name" with
            | some name => ps.declare name (option.attribute? "default")
            | none => ps)
          empty := by
  unfold declared
  simp only [Node.named_load, List.flatMap_map, ← List.map_flatMap, List.foldl_map,
    Node.attribute?, Node.tag_load]
  rfl

theorem Description.outputDirectoryOf_eq_load (origin : Path) :
    outputDirectoryOf origin root =
      match ((Node.load parameters opened directory root).named "output").head?.bind
        fun output => output.attribute? "path" with
      | some path => origin.resolve path
      | none => origin := by
  unfold outputDirectoryOf
  rw [Node.named_load, List.head?_map, Option.bind_map]
  simp only [Function.comp_def, Node.attribute?, Node.tag_load]
  rfl

end Root

/-! ## The files -/

namespace Workspace

/-- Searches find the same files, and the external projects are the same. The texts of documents may
be others. -/
structure SameFiles (w v : Workspace) : Prop where
  find : ∀ root pattern recursive,
    w.fs.find root pattern recursive = v.fs.find root pattern recursive
  external : ∀ path, w.readExternal path = v.readExternal path

/-- Workspaces in which every tree is read alike. -/
structure Alike (w v : Workspace) : Prop extends SameFiles w v where
  parameters : w.parameters = v.parameters
  rootDirectory : w.rootDirectory = v.rootDirectory
  outputDirectory : w.outputDirectory = v.outputDirectory

namespace Alike

variable {w v : Workspace}

section

variable (h : w.Alike v)

include h

theorem readMacro_eq : w.readMacro = v.readMacro := by
  funext e
  unfold readMacro
  rw [h.parameters]

theorem readFilter_eq : w.readFilter = v.readFilter := by
  have hexpand : w.expandFiles = v.expandFiles := by
    funext filter e
    unfold expandFiles
    simp only [h.find]
  funext p e
  unfold readFilter
  rw [hexpand]

theorem outputFile_eq : w.outputFile = v.outputFile := by
  funext directory name ext
  unfold outputFile
  rw [h.rootDirectory, h.outputDirectory]

theorem readProject_eq : w.readProject = v.readProject := by
  have hsections (origin : Path) : w.projectSections origin = v.projectSections origin := by
    unfold projectSections
    rw [h.parameters, h.readMacro_eq, h.readFilter_eq]
  funext e
  unfold readProject readAuthored
  simp only [h.external, h.outputFile_eq, readProjectLayer_eq_sections, hsections]

theorem readProjects_eq : w.readProjects = v.readProjects := by
  funext folder s es
  unfold readProjects
  rw [h.readProject_eq]

end

mutual

theorem readContents_eq (h : w.Alike v) (folder : Option Nat) (s : Solution) : (n : Node) →
    w.readContents folder s n = v.readContents folder s n
  | .mk tag directory children imports => by
      rw [readContents, readContents, h.readProjects_eq]
      simp only [readFolders_eq h folder _ children]

theorem readFolders_eq (h : w.Alike v) (parent : Option Nat) (s : Solution) : (es : List Node) →
    w.readFolders parent s es = v.readFolders parent s es
  | [] => by rw [readFolders, readFolders]
  | .mk tag directory children imports :: rest => by
      rw [readFolders, readFolders]
      simp only [readImportedContents_eq h _ _ imports,
        readContents_eq h _ _ (.mk tag directory children imports), readFolders_eq h parent _ rest]

theorem readImportedContents_eq (h : w.Alike v) (folder : Option Nat) (s : Solution) :
    (roots : List Imported) →
    w.readImportedContents folder s roots = v.readImportedContents folder s roots
  | [] => by rw [readImportedContents, readImportedContents]
  | .failed p :: rest => by
      rw [readImportedContents, readImportedContents]
      simp only [readImportedContents_eq h folder s rest]
  | .loaded root :: rest => by
      rw [readImportedContents, readImportedContents]
      simp only [readContents_eq h folder s (root ()), readImportedContents_eq h folder _ rest]

end

theorem readRoot_eq (h : w.Alike v) (root : Node) : w.readRoot root = v.readRoot root := by
  have hlayer : w.readSolutionLayer = v.readSolutionLayer := by
    funext e s
    unfold readSolutionLayer readMacros
    simp only [h.parameters, h.readMacro_eq, h.readContents_eq]
  have hsolution : w.readSolution = v.readSolution := by
    funext e
    unfold readSolution
    simp only [hlayer, h.outputFile_eq]
  unfold readRoot
  rw [hsolution]

end Alike

end Workspace

end SolutionPlan
