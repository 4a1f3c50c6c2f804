import SolutionPlan.Setting.Value
import SolutionPlan.Xml.Element

/-!
# Descriptions

A description is a tree of elements in which every import has been followed: beside its children
an element has, for each `import` child, the root element of the imported document or the reason
why there is none. The root is computed where it is read, so imports in places that nothing reads
cost no time. An element stands for its layers, which are the imported roots and then itself.
-/

namespace SolutionPlan

mutual

/-- An element, with the directory of the document that it is written in. -/
inductive Node where
  | mk (tag : Xml.Tag) (directory : Path) (children : List Node) (imports : List Imported)

inductive Imported where
  | failed (problem : Problem)
  | loaded (root : Unit → Node)

end

namespace Node

def tag : Node → Xml.Tag
  | mk tag .. => tag

def directory : Node → Path
  | mk _ directory .. => directory

def children : Node → List Node
  | mk _ _ children _ => children

def imports : Node → List Imported
  | mk _ _ _ imports => imports

def name (n : Node) : String := n.tag.name

def text (n : Node) : String := n.tag.text

def attribute? (n : Node) (name : String) : Option String := n.tag.attribute? name

def named (n : Node) (name : String) : List Node := n.children.filter (·.name == name)

def first? (n : Node) (name : String) : Option Node := n.children.find? (·.name == name)

def resolve (n : Node) (text : String) : Path := n.directory.resolve text

/-- The truth value of an attribute. One that is neither `true` nor `false` is passed over. -/
def flag (n : Node) (name : String) (fallback : Bool) : Logged Bool :=
  match n.attribute? name with
  | none => pure fallback
  | some value =>
      match parseBool? (Text.trimmed value) with
      | some b => pure b
      | none => do
          Logged.report (.invalidFlag value name n.name fallback)
          pure fallback

/-! ## Layers -/

inductive Layer where
  | problem (p : Problem)
  | element (n : Node)

mutual

/-- The layers of each import, in order, and the element itself last. -/
def layers : Node → List Layer
  | mk tag directory children imports =>
      importedLayers imports ++ [.element (mk tag directory children imports)]

def importedLayers : List Imported → List Layer
  | [] => []
  | .failed p :: rest => .problem p :: importedLayers rest
  | .loaded root :: rest => layers (root ()) ++ importedLayers rest

end

def readLayers {α : Type} (n : Node) (read : Node → α → Logged α) (start : α) : Logged α :=
  n.layers.foldlM
    (fun a layer =>
      match layer with
      | .problem p => do
          Logged.report p
          pure a
      | .element e => read e a)
    start

end Node

end SolutionPlan
