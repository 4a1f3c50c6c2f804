import SolutionPlan.Proofs.Description.Sections

/-!
# Flawed elements

An element is flawed if the reader of its parent can make nothing of it: what is read is then the
same as without it, and it costs one error. Which elements are flawed depends on how the element
around them is read, and so does which of the children are read, and as what.
-/

namespace SolutionPlan

/-! ## What elements are read as -/

/-- What an element is read as, with what its reader is told about the elements around it. -/
inductive Reading where
  | root
  | solution (name : String) (directory : Path)
  | platforms
  | targets
  | custom (target : String)
  | build (target : String)
  | profile (owner : String) (directory : Path)
  | slot (directory : Path)
  | compile
  | link
  | contents
  | folder
  | project (name : String) (directory : Path)
  | filter (name : String)
deriving DecidableEq

namespace Reading

/-- What the roots are read as that an element imports, if imports of it are followed. -/
def importsAs : Reading → Option Reading
  | .folder => some .contents
  | r =>
      match r with
      | .solution .. | .targets | .profile .. | .slot _ | .project .. => some r
      | _ => none

def hasContents : Reading → Bool
  | .solution .. | .contents | .folder => true
  | _ => false

/-- The names of the children that are looked at, in the order in which they are read, with `import`
for the imports. Where there is no such order, the children are read as they stand. -/
def order : Reading → List (List String)
  | .solution .. =>
      [["import"], ["platforms"], ["targets"], ["configurations"], ["macros"], ["folder"],
        ["project"]]
  | .targets => [["import"], predefinedTargets.map Prod.fst, ["custom"]]
  | .build _ => [["shared"], ["configuration", "configurations"]]
  | .profile .. => [["import"], ["shared"], ["configuration"]]
  | .slot _ => [["import"]]
  | .contents | .folder => [["import"], ["folder"], ["project"]]
  | .project .. =>
      [["import"], ["configurations"], ["macros"], ["filter"], ["reference"], ["dependency"]]
  | .filter _ => [["include"], ["exclude"]]
  | .root | .platforms | .custom _ | .compile | .link => []

/-- Children of lower rank are read first. -/
def rank (r : Reading) (name : String) : Nat := r.order.findIdx fun names => names.contains name

/-- A child of this name is read only if it is the first one. -/
def firstOnly (name : String) : Bool :=
  ["platforms", "targets", "configurations", "build", "shared"].contains name

inductive Descends : Reading → Node → Reading → Prop where
  | solution {e : Node} {name : String} (hname : e.name = "solution")
      (h : e.attribute? "name" = some name) : Descends .root e (.solution name e.directory)
  | platforms {name : String} {directory : Path} {e : Node} (hname : e.name = "platforms") :
      Descends (.solution name directory) e .platforms
  | targets {name : String} {directory : Path} {e : Node} (hname : e.name = "targets") :
      Descends (.solution name directory) e .targets
  | solutionProfile {name : String} {directory : Path} {e : Node}
      (hname : e.name = "configurations") :
      Descends (.solution name directory) e (.profile name directory)
  | custom {e : Node} {target : String} (hname : e.name = "custom")
      (h : e.attribute? "name" = some target) : Descends .targets e (.custom target)
  | build {target : String} {e : Node} (hname : e.name = "build") :
      Descends (.custom target) e (.build target)
  | shared {owner : String} {directory : Path} {e : Node} (hname : e.name = "shared") :
      Descends (.profile owner directory) e (.slot directory)
  | configuration {owner name : String} {directory : Path} {e : Node}
      (hname : e.name = "configuration") (h : e.attribute? "name" = some name) :
      Descends (.profile owner directory) e (.slot directory)
  | compile {directory : Path} {e : Node} (hname : Text.sameIgnoringCase e.name "compile")
      (h : ∀ files, e.attribute? "files" = some files →
        (FilePattern.compile (relocatePattern e.directory directory files)).isOk) :
      Descends (.slot directory) e .compile
  | link {directory : Path} {e : Node} (hname : Text.sameIgnoringCase e.name "link") :
      Descends (.slot directory) e .link
  | folder {r : Reading} {e : Node} (hr : r.hasContents) (hname : e.name = "folder") :
      Descends r e .folder
  | project {r : Reading} {e : Node} {name : String} (hr : r.hasContents)
      (hname : e.name = "project") (hexternal : e.attribute? "external" = none)
      (h : e.attribute? "name" = some name) : Descends r e (.project name e.directory)
  | projectProfile {name : String} {directory : Path} {e : Node}
      (hname : e.name = "configurations") :
      Descends (.project name directory) e (.profile name directory)
  | filter {project name : String} {directory : Path} {e : Node} (hname : e.name = "filter")
      (h : e.attribute? "name" = some name) :
      Descends (.project project directory) e (.filter name)

end Reading

/-! ## Flaws -/

inductive Problem.FailsImport : Problem → Prop where
  | withoutFile : FailsImport .importWithoutFile
  | cycle (document : Path) : FailsImport (.importCycle document)
  | unreadable (document : Path) (e : ReadError) : FailsImport (.unreadable document e)
  | malformed (document : Path) (e : Xml.Malformed) : FailsImport (.malformedImport document e)

/-- The child costs the problem, and nothing is read from it. -/
inductive Flawed (w : Workspace) : Reading → Node → Problem → Prop where
  | failedImport {r : Reading} {e : Node} {p : Problem} (hr : r.importsAs.isSome)
      (hname : e.name = "import") (h : p.FailsImport) : Flawed w r e p
  | solution {e : Node} (hname : e.name = "solution") (h : e.attribute? "name" = none) :
      Flawed w .root e .solutionWithoutName
  | platform {e : Node} (hname : e.name = "platform") (h : platform? e.text = none) :
      Flawed w .platforms e (.unknownPlatform e.text)
  | target {e : Node} (hname : e.name = "custom") (h : e.attribute? "name" = none) :
      Flawed w .targets e .targetWithoutName
  | step {target : String} {e : Node}
      (hname : e.name = "configuration" ∨ e.name = "configurations")
      (h : e.attribute? "name" = none) :
      Flawed w (.build target) e (.stepWithoutConfiguration target)
  | configuration {owner : String} {directory : Path} {e : Node}
      (hname : e.name = "configuration") (h : e.attribute? "name" = none) :
      Flawed w (.profile owner directory) e (.configurationWithoutName owner)
  | rule {directory : Path} {e : Node} {files : String} {problem : Glob.PatternError}
      (hname : Text.sameIgnoringCase e.name "compile") (hfiles : e.attribute? "files" = some files)
      (h : FilePattern.compile (relocatePattern e.directory directory files) = .error problem) :
      Flawed w (.slot directory) e (.invalidRule files problem)
  | setting {directory : Path} {e : Node} (himport : e.name ≠ "import")
      (hcompile : Text.sameIgnoringCase e.name "compile" = false)
      (hlink : Text.sameIgnoringCase e.name "link" = false)
      (h : SettingKey.lookup? .project e.name = none) :
      Flawed w (.slot directory) e (.unknownSetting .project e.name)
  | compileSetting {e : Node} (hexclude : e.name ≠ "exclude")
      (hswitch : Text.sameIgnoringCase e.name "ExcludedFromBuild" = false)
      (h : SettingKey.lookup? .compile e.name = none) :
      Flawed w .compile e (.unknownSetting .compile e.name)
  | linkSetting {e : Node} (h : SettingKey.lookup? .link e.name = none) :
      Flawed w .link e (.unknownSetting .link e.name)
  | external {r : Reading} {e : Node} {external : String} {p : Problem} (hr : r.hasContents)
      (hname : e.name = "project") (hexternal : e.attribute? "external" = some external)
      (h : w.readExternal (e.resolve external) = .error p) : Flawed w r e p
  | project {r : Reading} {e : Node} (hr : r.hasContents) (hname : e.name = "project")
      (hexternal : e.attribute? "external" = none) (h : e.attribute? "name" = none) :
      Flawed w r e .projectWithoutName
  | filter {project : String} {directory : Path} {e : Node} (hname : e.name = "filter")
      (h : e.attribute? "name" = none) :
      Flawed w (.project project directory) e (.filterWithoutName project)
  | reference {project : String} {directory : Path} {e : Node} (hname : e.name = "reference")
      (h : e.attribute? "project" = none) :
      Flawed w (.project project directory) e (.referenceWithoutProject project)
  | dependency {project : String} {directory : Path} {e : Node} (hname : e.name = "dependency")
      (h : e.attribute? "project" = none) :
      Flawed w (.project project directory) e (.dependencyWithoutProject project)
  | files {filter : String} {e : Node} (hname : e.name = "include" ∨ e.name = "exclude")
      (h : e.attribute? "files" = none) :
      Flawed w (.filter filter) e (.patternMissing e.name filter)

theorem Workspace.severity_of_readExternal {w : Workspace} {path : Path} {p : Problem}
    (h : w.readExternal path = .error p) : p.severity = .error := by
  unfold readExternal at h
  repeat' split at h
  all_goals cases h
  all_goals rfl

theorem Flawed.severity {w : Workspace} {r : Reading} {e : Node} {p : Problem}
    (h : Flawed w r e p) : p.severity = .error := by
  cases h with
  | failedImport hr hname h => cases h <;> rfl
  | external hr hname hexternal h => exact Workspace.severity_of_readExternal h
  | solution | platform | target | step | configuration | rule | setting | compileSetting
  | linkSetting | project | filter | reference | dependency | files => rfl

/-- A flawed child of this name, in an element that is read like this. An `import` child stands
among the imports of the element as well; if these are followed, it has failed there. -/
structure Flaw (w : Workspace) (around : Reading) (name : String) where
  node : Node
  problem : Problem
  roots : List Imported
  named : node.name = name
  flawed : Flawed w around node problem
  roots_of_import : name = "import" → around.importsAs.isSome → roots = [.failed problem]
  roots_of_ne : name ≠ "import" → roots = []

namespace Flaw

variable {w : Workspace} {around : Reading} {name : String}

def nodes : At (Flaw w around name) → List Node
  | .flaw flaw => [flaw.node]
  | .nothing | .stop => []

def imports : At (Flaw w around name) → List Imported
  | .flaw flaw => flaw.roots
  | .nothing | .stop => []

end Flaw

/-! ## Places where an element is read -/

/--
The trees that differ in a single place: there stands a flawed child or nothing, or the tree stops
there. On the way there from the root of the tree every element is read, as a child or as an
imported root.
-/
inductive Spot (w : Workspace) (around : Reading) (name : String) :
    Reading → (At (Flaw w around name) → Node) → Prop where
  | here (frame : Frame (Flaw w around name)) :
      Spot w around name around (frame.fill around.rank name Flaw.nodes Flaw.imports)
  | child (frame : Frame (Flaw w around name)) {r inner : Reading}
      {tree : At (Flaw w around name) → Node} (h : Spot w around name inner tree)
      (hread : r.Descends (tree .nothing) inner)
      (hfirst : Reading.firstOnly (tree .nothing).name = true →
        ∀ e ∈ frame.before, e.name ≠ (tree .nothing).name) :
      Spot w around name r
        (frame.fill r.rank (tree .nothing).name (fun x => [tree x]) fun _ => [])
  | imported (frame : Frame (Flaw w around name)) {r inner : Reading}
      {tree : At (Flaw w around name) → Node} (h : Spot w around name inner tree)
      (hread : r.importsAs = some inner) :
      Spot w around name r
        (frame.fill r.rank "import" (fun _ => []) fun x => [.loaded fun _ => tree x])

/-- The trees differ below their tag, or in its text. -/
structure SameTag {F : Type} (tree : At F → Node) : Prop where
  name : ∀ x, (tree x).name = (tree .nothing).name
  attribute? : ∀ x key, (tree x).attribute? key = (tree .nothing).attribute? key
  directory : ∀ x, (tree x).directory = (tree .nothing).directory

theorem Frame.sameTag_fill {F : Type} (frame : Frame F) (rank : String → Nat) (name : String)
    (middle : At F → List Node) (roots : At F → List Imported) :
    SameTag (frame.fill rank name middle roots) :=
  ⟨fun _ => rfl, fun _ _ => rfl, fun _ => rfl⟩

theorem Spot.sameTag {w : Workspace} {around r : Reading} {name : String}
    {tree : At (Flaw w around name) → Node} (h : Spot w around name r tree) : SameTag tree := by
  cases h with
  | here frame => exact frame.sameTag_fill _ _ _ _
  | child frame h hread hfirst => exact frame.sameTag_fill _ _ _ _
  | imported frame h hread => exact frame.sameTag_fill _ _ _ _

end SolutionPlan
