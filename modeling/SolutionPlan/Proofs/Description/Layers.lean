import SolutionPlan.Description.Node

/-!
# The elements that an element stands for

An element is read with everything it imports: the imported roots, each with its own imports, and
then the element itself. What reading makes of a value depends on these elements alone, imports
that failed only leave problems behind.
-/

namespace SolutionPlan.Node

def Layer.element? : Layer → Option Node
  | .problem _ => none
  | .element n => some n

/-- The imported roots, from the innermost outwards, and the element itself last. -/
def elements (n : Node) : List Node := n.layers.filterMap Layer.element?

theorem readLayers_value {α : Type} (n : Node) (read : Node → α → Logged α) (start : α) :
    (n.readLayers read start).value =
      n.elements.foldl (fun a e => (read e a).value) start := by
  unfold readLayers elements
  rw [Logged.foldlM_value, List.foldl_filterMap]
  congr
  funext a layer
  cases layer <;> rfl

def plain (directory : Path) (name : String) (attributes : List (String × String))
    (text : String) (children : List Node) : Node :=
  .mk ⟨none, name, attributes.map fun a => ⟨none, a.1, a.2⟩, text⟩ directory children []

end SolutionPlan.Node
