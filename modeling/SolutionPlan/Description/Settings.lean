import SolutionPlan.Configuration.Profile
import SolutionPlan.Description.Node
import SolutionPlan.Parameters

/-!
# Configurations in a description

A `configurations` element is read as the list of writes that it asks for, in the order in which
they take effect: every element's imports come before what it says itself, so the element has the
last word.
-/

namespace SolutionPlan

/-- What a profile's writes depend on besides the element: the parameters, the directory that the
profile's file patterns are relative to, and the name of its owner. -/
structure ProfileOrigin where
  parameters : Parameters
  directory : Path
  owner : String

/-! ## Patterns -/

/-- A pattern written in the directory `written` becomes one that is relative to `origin`. The way
from the origin is taken literally. -/
def relocatePattern (written origin : Path) (files : String) : String :=
  let pattern := (Path.ofDocument files).text
  let offset := (written.relativeTo origin).toSlash
  if offset = "" then pattern
  else
    (Path.ofList (Glob.escape offset.toList ++ '/' :: pattern.toList)).normalize.toSlash

/-! ## Writes -/

def collect {α β : Type} (xs : List α) (f : α → Logged (List β)) : Logged (List β) := do
  let found ← xs.mapM f
  pure found.flatten

def compileEdit (parameters : Parameters) (e : Node) : Logged (List Edit) :=
  let value := parameters.expand e.text
  if e.name = "exclude" ∨ Text.sameIgnoringCase e.name "ExcludedFromBuild" then
    let switch := Text.trimmed value
    match parseBool? switch with
    | some excluded => pure [.exclude excluded]
    | none => do
        Logged.report (.invalidSwitch switch e.name)
        pure []
  else do
    let edit ← Edit.ofText .compile e.name value
    pure edit.toList

def settingEdit (parameters : Parameters) (scope : Scope) (e : Node) : Logged (List Edit) := do
  let edit ← Edit.ofText scope e.name (parameters.expand e.text)
  pure edit.toList

/-- The writes of one element of a configuration: a `compile` block, which may be for the files of a
pattern, a `link` block, or a setting of the configuration itself. -/
def blockWrites (origin : ProfileOrigin) (slot : Slot) (e : Node) : Logged (List Write) :=
  let writesAt (rule : Option FilePattern) (edits : List Edit) : List Write :=
    edits.map fun edit => ⟨⟨rule, slot⟩, edit⟩
  if e.name = "import" then pure []
  else if Text.sameIgnoringCase e.name "compile" then
    match e.attribute? "files" with
    | none => do
        let edits ← collect e.children (compileEdit origin.parameters)
        pure (writesAt none edits)
    | some files =>
        match FilePattern.compile (relocatePattern e.directory origin.directory files) with
        | .error problem => do
            Logged.report (.invalidRule files problem)
            pure []
        | .ok pattern => do
            let edits ← collect e.children (compileEdit origin.parameters)
            pure (writesAt (some pattern) (.mention :: edits))
  else if Text.sameIgnoringCase e.name "link" then do
    let edits ← collect e.children (settingEdit origin.parameters .link)
    pure (writesAt none edits)
  else do
    let edits ← settingEdit origin.parameters .project e
    pure (writesAt none edits)

def slotWrites (origin : ProfileOrigin) (slot : Slot) (n : Node) : Logged (List Write) :=
  n.readLayers
    (fun layer writes => do
      let own ← collect layer.children (blockWrites origin slot)
      pure (writes ++ own))
    [⟨⟨none, slot⟩, .mention⟩]

def configurationWrites (origin : ProfileOrigin) (e : Node) : Logged (List Write) :=
  match e.attribute? "name" with
  | some name => slotWrites origin (.named name) e
  | none => do
      Logged.report (.configurationWithoutName origin.owner)
      pure []

/-- The writes of a `configurations` element: its imports, then the first `shared` element, then
each `configuration`. -/
def profileWrites (origin : ProfileOrigin) (n : Node) : Logged (List Write) :=
  n.readLayers
    (fun layer writes => do
      let shared ← collect (layer.first? "shared").toList
        (slotWrites origin (.shared (origin.owner ++ "_shared")))
      let named ← collect (layer.named "configuration") (configurationWrites origin)
      pure (writes ++ shared ++ named))
    []

def readProfile (origin : ProfileOrigin) (e : Node) (profile : Profile) : Logged Profile :=
  match e.first? "configurations" with
  | none => pure profile
  | some configurations => do
      let writes ← profileWrites origin configurations
      pure (profile.writeAll writes)

end SolutionPlan
