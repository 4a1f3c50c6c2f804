import SolutionPlan.Description.Load
import SolutionPlan.Description.Projects
import SolutionPlan.Description.Targets

/-!
# Reading a description

The solutions of a root document. Folders nest as their elements do, and the roots that a folder
imports are read as further contents of it, before its own.
-/

namespace SolutionPlan

namespace Workspace

/-! ## Folders -/

def readProjects (w : Workspace) (folder : Option Nat) (s : Solution) (es : List Node) :
    Logged Solution :=
  (es.filter fun e => e.name == "project").foldlM
    (fun s e => do
      let project ← w.readProject e
      pure (match project with
        | some p => s.addProject { p with folder := folder }
        | none => s))
    s

mutual

/-- The folders in an element, each with all its contents, and then the projects in it. -/
def readContents (w : Workspace) (folder : Option Nat) (s : Solution) : Node → Logged Solution
  | .mk _ _ children _ => do
      let s ← w.readFolders folder s children
      w.readProjects folder s children

def readFolders (w : Workspace) (folder : Option Nat) (s : Solution) :
    List Node → Logged Solution
  | [] => pure s
  | .mk tag directory children imports :: rest => do
      let s ←
        if tag.name = "folder" then do
          let name := (tag.attribute? "name").getD ""
          if name = "" then Logged.report .folderWithoutName
          let i := s.folders.length
          let s ← w.readImportedContents (some i) (s.addFolder ⟨name, folder⟩) imports
          w.readContents (some i) s (.mk tag directory children imports)
        else pure s
      w.readFolders folder s rest

def readImportedContents (w : Workspace) (folder : Option Nat) (s : Solution) :
    List Imported → Logged Solution
  | [] => pure s
  | .failed problem :: rest => do
      Logged.report problem
      w.readImportedContents folder s rest
  | .loaded root :: rest => do
      let s ← w.readContents folder s (root ())
      w.readImportedContents folder s rest

end

/-! ## Solutions -/

def readPlatform (s : Solution) (e : Node) : Logged Solution :=
  match platform? e.text with
  | some platform => pure (s.addPlatform platform)
  | none => do
      Logged.report (.unknownPlatform e.text)
      pure s

def readSolutionLayer (w : Workspace) (e : Node) (s : Solution) : Logged Solution := do
  let listed := ((e.first? "platforms").map fun ps => ps.named "platform").getD []
  let s ← listed.foldlM readPlatform s
  let s ← readTargets e s
  let profile ← readProfile ⟨w.parameters, s.directory, s.name⟩ e s.profile
  let macros ← w.readMacros e s.macros
  w.readContents none { s with profile := profile, macros := macros } e

def readSolution (w : Workspace) (e : Node) : Logged (Option Solution) :=
  match e.attribute? "name" with
  | none => do
      Logged.report .solutionWithoutName
      pure none
  | some name => do
      let path := w.outputFile e.directory name "sln"
      let s ← e.readLayers w.readSolutionLayer (.named name path e.directory)
      pure (some s)

end Workspace

/-! ## Root documents -/

structure Description where
  root : Path
  outputDirectory : Path
  parameters : Parameters
  solutions : List Solution

namespace Description

/-- The first `output` element of the root says where the output goes. -/
def outputDirectoryOf (directory : Path) (root : Xml.Element) : Path :=
  match (root.named "output").head?.bind fun output => output.attribute? "path" with
  | some path => directory.resolve path
  | none => directory

def readSolutions {fs : FileSystem} (parameters : Parameters) (opened : OpenDocuments fs)
    (directory : Path) (root : Xml.Element) : Logged (List Solution) := do
  let w : Workspace := ⟨fs, parameters, directory, outputDirectoryOf directory root⟩
  let found ← (root.named "solution").mapM fun e =>
    w.readSolution (Node.load parameters opened directory e)
  pure found.reduceOption

/-- Reads the description at a path, which is relative to the working directory. -/
def read (fs : FileSystem) (workingDirectory path : Path) (bindings : List (String × String)) :
    Except BuildError (Logged Description) :=
  if path.text = "" then .error .emptyPath
  else
    let document := (workingDirectory.join path).normalize
    match hread : fs.read document with
    | .error e => .error (.unreadable e)
    | .ok text =>
        match Xml.parse text with
        | .error e => .error (.malformed document e)
        | .ok root => do
            let parameters ← Parameters.ofDocument root bindings
            let directory := document.parentOrEmpty
            let opened : OpenDocuments fs := .single document (by rw [hread]; rfl)
            .ok do
              let solutions ← readSolutions parameters opened directory root
              pure ⟨document, outputDirectoryOf directory root, parameters, solutions⟩

end Description

end SolutionPlan
