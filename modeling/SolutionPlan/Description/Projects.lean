import SolutionPlan.Description.Settings
import SolutionPlan.Solution.Basic
import SolutionPlan.Text.Lowercase
import SolutionPlan.Xml.Document

/-!
# Projects in a description

An authored project is read layer by layer into its profile, macros, filters and references. An
external project is identified by its own file. Neither fails the description: an element that
cannot be used is recorded and left out.
-/

namespace SolutionPlan

/-- What all elements of one description are read against. -/
structure Workspace where
  fs : FileSystem
  parameters : Parameters
  rootDirectory : Path
  outputDirectory : Path

namespace Workspace

/-- The output file for something declared in the directory: it lies below the output directory as
the directory lies below the root, and has a lower-case name. -/
def outputFile (w : Workspace) (directory : Path) (name ext : String) : Path :=
  ((w.outputDirectory.join (directory.relativeTo w.rootDirectory)).join
    ⟨Text.lowercase name ++ "." ++ ext⟩).normalize

/-! ## Macros -/

/-- Each child of a `macros` element is a macro; its value may be marked as a path. -/
def readMacro (w : Workspace) (e : Node) : Logged (String × String) := do
  let value := w.parameters.expand e.text
  let isPath ← e.flag "path" false
  pure (e.name, if isPath then (e.resolve value).toSlash else value)

def readMacros (w : Workspace) (e : Node) (macros : Table String) : Logged (Table String) := do
  let found ← ((e.first? "macros").map Node.children |>.getD []).mapM w.readMacro
  pure (macros.putAll found)

/-! ## Filters -/

def expandFiles (w : Workspace) (filter : Filter) (e : Node) : Logged (List Path) :=
  match e.attribute? "files" with
  | none => do
      Logged.report (.patternMissing e.name filter.name)
      pure []
  | some files => do
      let recursive ← e.flag "recursive" true
      match w.fs.find filter.root files recursive with
      | .ok found => pure found
      | .error (.directoryNotFound directory) => do
          Logged.report (.noMatch files directory)
          pure []
      | .error (.pattern problem) => do
          Logged.report (.unusablePattern files filter.root problem)
          pure []

/-- Adds a filter with all the files it includes and then without those it excludes. -/
def readFilter (w : Workspace) (p : Project) (e : Node) : Logged Project :=
  match e.attribute? "name" with
  | none => do
      Logged.report (.filterWithoutName p.name)
      pure p
  | some name => do
      let root := match e.attribute? "root" with
        | some root => p.sourceRoot.resolve root
        | none => p.sourceRoot
      let directories ← e.flag "directories" false
      let filter : Filter := ⟨name, root, directories, []⟩
      let i := p.filters.length
      let included ← (e.named "include").mapM (w.expandFiles filter)
      let excluded ← (e.named "exclude").mapM (w.expandFiles filter)
      let p := included.flatten.foldl (fun p file => p.includeSource file i) (p.addFilter filter)
      pure (excluded.flatten.foldl (fun p file => p.exclude file i) p)

/-! ## References -/

private def settingOf (e : Node) : String × String := (e.name, e.text)

def readReference (p : Project) (e : Node) : Logged Project :=
  match e.attribute? "project" with
  | none => do
      Logged.report (.referenceWithoutProject p.name)
      pure p
  | some project =>
      let reference : Reference := ⟨project, .reference, e.children.map settingOf, none⟩
      pure { p with references := p.references ++ [reference] }

def readDependency (p : Project) (e : Node) : Logged Project :=
  match e.attribute? "project" with
  | none => do
      Logged.report (.dependencyWithoutProject p.name)
      pure p
  | some project =>
      pure { p with references := p.references ++ [⟨project, .dependency, [], none⟩] }

/-! ## Authored projects -/

def readProjectLayer (w : Workspace) (origin : Path) (e : Node) (p : Project) :
    Logged Project := do
  let profile ← readProfile ⟨w.parameters, origin, p.name⟩ e p.profile
  let macros ← w.readMacros e p.macros
  let p := { p with profile := profile, macros := macros }
  let p ← (e.named "filter").foldlM w.readFilter p
  let p ← (e.named "reference").foldlM readReference p
  (e.named "dependency").foldlM readDependency p

def readKind (name : String) (e : Node) : Logged ProjectKind :=
  match e.attribute? "type" with
  | none => pure .cpp
  | some written =>
      match ProjectKind.ofType? written with
      | some kind => pure kind
      | none => do
          Logged.report (.unknownProjectType written name)
          pure .cpp

def readAuthored (w : Workspace) (e : Node) : Logged (Option Project) :=
  match e.attribute? "name" with
  | none => do
      Logged.report .projectWithoutName
      pure none
  | some name => do
      let kind ← readKind name e
      let sourceRoot := match e.attribute? "root" with
        | some root => if root = "" then e.directory else e.resolve root
        | none => e.directory
      let path := w.outputFile e.directory name "vcxproj"
      let p ← e.readLayers (w.readProjectLayer e.directory) (.authored name kind path sourceRoot)
      pure (some p)

/-! ## External projects -/

def isNamed (space : Option String) (name : String) (e : Xml.Element) : Bool :=
  e.name == name && e.tag.space == space

structure Identity where
  name : Option String
  guid : Option Guid

/-- A later property replaces an earlier one, but text that is no identifier does not count. -/
def Identity.add (space : Option String) (found : Identity) (e : Xml.Element) : Identity :=
  if isNamed space "RootNamespace" e then { found with name := some (Text.trimmed e.text) }
  else if isNamed space "ProjectGuid" e then
    { found with guid := Guid.parse? (Text.trimmed e.text) <|> found.guid }
  else found

def Identity.ofElement (root : Xml.Element) : Identity :=
  let space := root.tag.space
  let groups := root.children.filter (isNamed space "PropertyGroup")
  (groups.flatMap Xml.Element.children).foldl (Identity.add space) ⟨none, none⟩

def Identity.complete? (found : Identity) : Option (String × Guid) := do
  let name ← found.name.filter (· != "")
  let guid ← found.guid.filter fun g => !g.isNil
  some (name, guid)

def readExternal (w : Workspace) (path : Path) : Except Problem Project :=
  match path.extension?.bind ProjectKind.ofExtension? with
  | none => .error (.unknownExtension path)
  | some kind =>
      match w.fs.read path with
      | .error e => .error (.unreadable path e)
      | .ok text =>
          match Xml.parse text with
          | .error e => .error (.malformedExternal path e)
          | .ok root =>
              match (Identity.ofElement root).complete? with
              | some (name, guid) => .ok (.ofExternal name kind path guid)
              | none => .error (.unidentifiedExternal path)

/-! ## Either kind -/

def readProject (w : Workspace) (e : Node) : Logged (Option Project) :=
  match e.attribute? "external" with
  | none => w.readAuthored e
  | some external =>
      match w.readExternal (e.resolve external) with
      | .ok p => pure (some p)
      | .error problem => do
          Logged.report problem
          pure none

end Workspace

end SolutionPlan
