import Mathlib.Data.List.Forall2
import SolutionPlan.Proofs.Description.Imports
import SolutionPlan.Proofs.Description.Outline

/-!
# Where imports stand

In a `configurations` element and in the configurations in it, imports are read before everything
else, wherever among the other elements they stand. So an element is read like the one without the
places of its imports, and moving them around changes nothing.
-/

namespace SolutionPlan

theorem collect_cons {α β : Type} (x : α) (xs : List α) (f : α → Logged (List β)) :
    collect (x :: xs) f =
      f x >>= fun first => collect xs f >>= fun found => pure (first ++ found) := by
  simp [collect, List.mapM_cons]

theorem collect_filter {α β : Type} {f : α → Logged (List β)} {keep : α → Bool}
    (h : ∀ x, keep x = false → f x = pure []) (xs : List α) :
    collect (xs.filter keep) f = collect xs f := by
  induction xs with
  | nil => rfl
  | cons x rest ih =>
      rw [List.filter_cons, collect_cons, ← ih]
      cases hx : keep x with
      | true => exact collect_cons x (rest.filter keep) f
      | false => simp [h x hx]

theorem collect_map {α β γ : Type} (g : α → β) (f : β → Logged (List γ)) (xs : List α) :
    collect (xs.map g) f = collect xs (fun x => f (g x)) := by
  unfold collect
  rw [List.mapM_map]
  rfl

namespace Node

mutual

/-- The element without its `import` children, down to this depth below it. What they import stays;
text between the children is passed over. -/
def withoutSites : Nat → Node → Node
  | 0, n => n
  | depth + 1, .mk tag directory children imports =>
      .mk { tag with text := "" } directory (childrenWithoutSites depth children)
        (importsWithoutSites (depth + 1) imports)

def childrenWithoutSites (depth : Nat) : List Node → List Node
  | [] => []
  | .mk tag directory children imports :: rest =>
      if tag.name = "import" then childrenWithoutSites depth rest
      else
        withoutSites depth (.mk tag directory children imports) :: childrenWithoutSites depth rest

def importsWithoutSites (depth : Nat) : List Imported → List Imported
  | [] => []
  | .failed p :: rest => .failed p :: importsWithoutSites depth rest
  | .loaded root :: rest =>
      .loaded (fun _ => withoutSites depth (root ())) :: importsWithoutSites depth rest

end

theorem childrenWithoutSites_eq (depth : Nat) (es : List Node) :
    childrenWithoutSites depth es =
      (es.filter fun e => e.name != "import").map (withoutSites depth) := by
  induction es with
  | nil => rfl
  | cons e rest ih =>
      obtain ⟨tag, directory, children, imports⟩ := e
      rw [childrenWithoutSites, ih, List.filter_cons]
      by_cases himport : tag.name = "import"
      · simp [himport, name, Node.tag]
      · simp [himport, name, Node.tag]

section Depth

variable (depth : Nat)

theorem children_withoutSites (e : Node) :
    (e.withoutSites (depth + 1)).children =
      (e.children.filter fun c => c.name != "import").map (withoutSites depth) := by
  obtain ⟨tag, directory, children, imports⟩ := e
  rw [withoutSites]
  exact childrenWithoutSites_eq depth children

theorem attribute?_withoutSites (e : Node) (key : String) :
    (e.withoutSites depth).attribute? key = e.attribute? key := by
  obtain ⟨tag, directory, children, imports⟩ := e
  cases depth <;> rfl

@[simp] theorem name_withoutSites (e : Node) : (e.withoutSites depth).name = e.name := by
  obtain ⟨tag, directory, children, imports⟩ := e
  cases depth <;> rfl

theorem first?_withoutSites (e : Node) {other : String} (h : other ≠ "import") :
    (e.withoutSites (depth + 1)).first? other = (e.first? other).map (withoutSites depth) := by
  unfold first?
  rw [children_withoutSites, List.find?_map, List.find?_filter]
  congr 2
  funext c
  by_cases hc : c.name = other
  · simp [hc, h]
  · simp [hc]

theorem named_withoutSites (e : Node) {other : String} (h : other ≠ "import") :
    (e.withoutSites (depth + 1)).named other = (e.named other).map (withoutSites depth) := by
  unfold named
  rw [children_withoutSites, List.filter_map, List.filter_filter]
  congr 2
  funext c
  by_cases hc : c.name = other
  · simp [hc, h]
  · simp [hc]

mutual

theorem layers_withoutSites : (e : Node) →
      (e.withoutSites (depth + 1)).layers =
        e.layers.map (Layer.map (withoutSites (depth + 1)))
  | .mk tag directory children imports => by
      rw [layers, List.map_append, ← importedLayers_withoutSites imports, List.map_singleton,
        Layer.map, withoutSites, layers]

theorem importedLayers_withoutSites : (roots : List Imported) →
      importedLayers (importsWithoutSites (depth + 1) roots) =
        (importedLayers roots).map (Layer.map (withoutSites (depth + 1)))
  | [] => rfl
  | .failed p :: rest => by
      rw [importsWithoutSites, importedLayers, importedLayers, importedLayers_withoutSites rest]
      rfl
  | .loaded root :: rest => by
      rw [importsWithoutSites, importedLayers, importedLayers, importedLayers_withoutSites rest,
        layers_withoutSites (root ()), List.map_append]

end

theorem readLayers_withoutSites {α : Type} {read : Node → α → Logged α}
    (h : ∀ layer a, read (layer.withoutSites (depth + 1)) a = read layer a) (n : Node)
    (start : α) : (n.withoutSites (depth + 1)).readLayers read start = n.readLayers read start := by
  unfold readLayers
  rw [layers_withoutSites, List.foldlM_map]
  congr 1
  funext a layer
  cases layer with
  | problem p => rfl
  | element e => exact h e a

end Depth

end Node

/-! ## Reading without sites -/

theorem slotWrites_withoutSites (origin : ProfileOrigin) (slot : Slot) (n : Node) :
    slotWrites origin slot (n.withoutSites 1) = slotWrites origin slot n := by
  apply Node.readLayers_withoutSites 0
  intro layer writes
  have hsite : ∀ e : Node, (e.name != "import") = false → blockWrites origin slot e = pure [] := by
    intro e he
    have himport : e.name = "import" := by simpa using he
    unfold blockWrites
    exact if_pos himport
  have hplain : Node.withoutSites 0 = id := by
    funext e
    exact Node.withoutSites.eq_1 e
  rw [Node.children_withoutSites, hplain, List.map_id, collect_filter hsite]

theorem configurationWrites_withoutSites (origin : ProfileOrigin) (n : Node) :
    configurationWrites origin (n.withoutSites 1) = configurationWrites origin n := by
  unfold configurationWrites
  rw [Node.attribute?_withoutSites]
  simp only [slotWrites_withoutSites]

theorem profileWrites_withoutSites (origin : ProfileOrigin) (n : Node) :
    profileWrites origin (n.withoutSites 2) = profileWrites origin n := by
  apply Node.readLayers_withoutSites 1
  intro layer writes
  have hshared : (Option.map (Node.withoutSites 1) (layer.first? "shared")).toList =
      (layer.first? "shared").toList.map (Node.withoutSites 1) := by
    cases layer.first? "shared" <;> rfl
  rw [Node.first?_withoutSites 1 layer (by decide), Node.named_withoutSites 1 layer (by decide),
    hshared, collect_map, collect_map]
  simp only [slotWrites_withoutSites, configurationWrites_withoutSites]

/-! ## Moved imports -/

/-- Down to this depth, the elements differ only in where among their siblings imports stand: the
imports have the same order in both and so have the other elements. -/
def Xml.Element.SitesMoved : Nat → Xml.Element → Xml.Element → Prop
  | 0, e, f => e = f
  | depth + 1, e, f =>
      { e.tag with text := "" } = { f.tag with text := "" } ∧
        e.named "import" = f.named "import" ∧
          List.Forall₂ (SitesMoved depth) (e.children.filter fun c => c.name != "import")
            (f.children.filter fun c => c.name != "import")

theorem Node.withoutSites_load_congr {fs : FileSystem} (parameters : Parameters)
    (opened : OpenDocuments fs) (directory : Path) {depth : Nat} {e f : Xml.Element}
    (h : e.SitesMoved depth f) :
    (Node.load parameters opened directory e).withoutSites depth =
      (Node.load parameters opened directory f).withoutSites depth := by
  induction depth generalizing e f with
  | zero => rw [Xml.Element.SitesMoved] at h; rw [h]
  | succ depth ih =>
      obtain ⟨htag, himports, hothers⟩ := h
      have hchildren (e : Xml.Element) :
          childrenWithoutSites depth (e.children.map (Node.load parameters opened directory)) =
            (e.children.filter fun c => c.name != "import").map
              (fun c => (Node.load parameters opened directory c).withoutSites depth) := by
        rw [childrenWithoutSites_eq, List.filter_map, List.map_map]
        simp only [Function.comp_def, Node.name_load]
      rw [Node.load_eq, Node.load_eq, Node.withoutSites, Node.withoutSites, htag, himports,
        hchildren, hchildren]
      congr 1
      rw [← List.forall₂_eq_eq_eq, List.forall₂_map_left_iff, List.forall₂_map_right_iff]
      exact hothers.imp fun _ _ hmoved => ih hmoved

end SolutionPlan
