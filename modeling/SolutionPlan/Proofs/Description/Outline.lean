import Mathlib.Data.List.Basic
import SolutionPlan.Proofs.Configuration.Views
import SolutionPlan.Proofs.Description.Contents

/-!
# Descriptions for one configuration

The outline of an element for one name keeps everything but the contents of the configurations with
other names: these are only declared. Whatever is read for the name, for all files or for those of a
pattern, is read from the outline.
-/

namespace SolutionPlan

namespace Node

def hollow : Node → Node
  | .mk tag directory _ _ => .mk { tag with text := "" } directory [] []

/-- In a `configurations` element, a configuration with another name is left hollow. -/
def keptFor (name : String) (e : Node) : Node :=
  if e.name = "configuration" ∧ e.attribute? "name" ≠ some name then e.hollow else e

mutual

def outline (name : String) (profile : Bool) : Node → Node
  | .mk tag directory children imports =>
      .mk tag directory (outlineChildren name profile children)
        (outlineImports name profile imports)

def outlineChildren (name : String) (profile : Bool) : List Node → List Node
  | [] => []
  | .mk tag directory children imports :: rest =>
      (if profile then keptFor name (.mk tag directory children imports)
      else outline name (tag.name == "configurations") (.mk tag directory children imports)) ::
        outlineChildren name profile rest

def outlineImports (name : String) (profile : Bool) : List Imported → List Imported
  | [] => []
  | .failed p :: rest => .failed p :: outlineImports name profile rest
  | .loaded root :: rest =>
      .loaded (fun _ => outline name profile (root ())) :: outlineImports name profile rest

end

variable (name : String) (profile : Bool)

@[simp] theorem tag_outline (e : Node) : (e.outline name profile).tag = e.tag := by
  obtain ⟨tag, directory, children, imports⟩ := e
  rw [outline]
  rfl

@[simp] theorem directory_outline (e : Node) :
    (e.outline name profile).directory = e.directory := by
  obtain ⟨tag, directory, children, imports⟩ := e
  rw [outline]
  rfl

@[simp] theorem name_outline (e : Node) : (e.outline name profile).name = e.name := by
  unfold Node.name
  rw [tag_outline]

@[simp] theorem attribute?_outline (e : Node) (key : String) :
    (e.outline name profile).attribute? key = e.attribute? key := by
  unfold Node.attribute?
  rw [tag_outline]

theorem directory_eq_of_outline_eq {name : String} {profile : Bool} {e f : Node}
    (h : e.outline name profile = f.outline name profile) : e.directory = f.directory := by
  simpa using congrArg Node.directory h

theorem attribute?_eq_of_outline_eq {name : String} {profile : Bool} {e f : Node}
    (h : e.outline name profile = f.outline name profile) (key : String) :
    e.attribute? key = f.attribute? key := by
  simpa using congrArg (fun n => n.attribute? key) h

@[simp] theorem name_keptFor (e : Node) : (e.keptFor name).name = e.name := by
  obtain ⟨tag, directory, children, imports⟩ := e
  unfold keptFor
  split <;> rfl

@[simp] theorem attribute?_keptFor (e : Node) (key : String) :
    (e.keptFor name).attribute? key = e.attribute? key := by
  obtain ⟨tag, directory, children, imports⟩ := e
  unfold keptFor
  split <;> rfl

/-! ## Children -/

theorem children_outline_profile (e : Node) :
    (e.outline name true).children = e.children.map (keptFor name) := by
  obtain ⟨tag, directory, children, imports⟩ := e
  rw [outline]
  simp only [Node.children]
  induction children with
  | nil => rfl
  | cons child rest ih =>
      obtain ⟨_, _, _, _⟩ := child
      rw [outlineChildren, ih]
      rfl

theorem children_outline (e : Node) :
    (e.outline name false).children =
      e.children.map fun child => child.outline name (child.name == "configurations") := by
  obtain ⟨tag, directory, children, imports⟩ := e
  rw [outline]
  simp only [Node.children]
  induction children with
  | nil => rfl
  | cons child rest ih =>
      obtain ⟨_, _, _, _⟩ := child
      rw [outlineChildren, ih]
      rfl

theorem first?_outline (e : Node) (other : String) :
    (e.outline name false).first? other =
      (e.first? other).map (outline name (other == "configurations")) := by
  unfold first?
  rw [children_outline, List.find?_map]
  simp only [Function.comp_def, name_outline]
  cases hfound : e.children.find? fun child => child.name == other with
  | none => rfl
  | some child =>
      have hname := List.find?_some hfound
      simp only [beq_iff_eq] at hname
      simp only [Option.map_some, hname]

theorem first?_outline_profile (e : Node) (other : String) :
    (e.outline name true).first? other = (e.first? other).map (keptFor name) := by
  unfold first?
  rw [children_outline_profile, List.find?_map]
  simp only [Function.comp_def, name_keptFor]

theorem named_outline_profile (e : Node) (other : String) :
    (e.outline name true).named other = (e.named other).map (keptFor name) := by
  unfold named
  rw [children_outline_profile, List.filter_map]
  simp only [Function.comp_def, name_keptFor]

/-! ## Layers -/

def Layer.map (f : Node → Node) : Layer → Layer
  | .problem p => .problem p
  | .element n => .element (f n)

mutual

theorem layers_outline : (e : Node) →
      (e.outline name profile).layers = e.layers.map (Layer.map (outline name profile))
  | .mk tag directory children imports => by
      rw [layers, List.map_append, ← importedLayers_outline imports, List.map_singleton, Layer.map,
        outline, layers]

theorem importedLayers_outline : (roots : List Imported) →
      importedLayers (outlineImports name profile roots) =
        (importedLayers roots).map (Layer.map (outline name profile))
  | [] => rfl
  | .failed p :: rest => by
      rw [outlineImports, importedLayers, importedLayers, importedLayers_outline rest]
      rfl
  | .loaded root :: rest => by
      rw [outlineImports, importedLayers, importedLayers, importedLayers_outline rest,
        layers_outline (root ()), List.map_append]

end

theorem elements_outline (e : Node) :
    (e.outline name profile).elements = e.elements.map (outline name profile) := by
  unfold elements
  rw [layers_outline, List.filterMap_map, List.map_filterMap]
  congr 1
  funext layer
  cases layer <;> rfl

/-! ## Projects -/

mutual

theorem contentProjects_outline : (e : Node) →
      (e.outline name false).contentProjects = e.contentProjects.map (outline name false)
  | .mk tag directory children imports => by
      have hname : (Node.mk tag directory children imports).children = children := rfl
      have hchildren := children_outline name (.mk tag directory children imports)
      rw [outline, Node.children, hname] at hchildren
      rw [outline, contentProjects, contentProjects, folderProjects_outline children,
        List.map_append]
      congr 1
      rw [hchildren, List.filter_map]
      simp only [Function.comp_def, name_outline]
      apply List.map_congr_left
      intro child hchild
      have hproject := (List.mem_filter.1 hchild).2
      simp only [beq_iff_eq] at hproject
      rw [hproject]
      rfl

theorem folderProjects_outline : (es : List Node) →
      folderProjects (outlineChildren name false es) =
        (folderProjects es).map (outline name false)
  | [] => rfl
  | .mk tag directory children imports :: rest => by
      rw [outlineChildren, folderProjects, if_neg Bool.false_ne_true, outline, folderProjects,
        folderProjects_outline rest, List.map_append]
      congr 1
      split
      · next hfolder =>
          have hplain : (tag.name == "configurations") = false := by rw [hfolder]; rfl
          rw [hplain, importedProjects_outline imports, List.map_append,
            ← contentProjects_outline (.mk tag directory children imports), outline]
      · rfl

theorem importedProjects_outline : (roots : List Imported) →
      importedProjects (outlineImports name false roots) =
        (importedProjects roots).map (outline name false)
  | [] => rfl
  | .failed p :: rest => by
      rw [outlineImports, importedProjects, importedProjects, importedProjects_outline rest]
  | .loaded root :: rest => by
      rw [outlineImports, importedProjects, importedProjects, importedProjects_outline rest,
        contentProjects_outline (root ()), List.map_append]

end

theorem flatMap_contentProjects_outline (e : Node) :
    (e.outline name false).elements.flatMap contentProjects =
      (e.elements.flatMap contentProjects).map (outline name false) := by
  rw [elements_outline, List.flatMap_map, List.map_flatMap]
  congr 1
  funext layer
  exact contentProjects_outline name layer

/-! ## Writes -/

theorem slots_outline (layer : Node) (owner : String) :
    (layer.outline name true).slots owner =
      (layer.slots owner).map fun entry => (entry.1, entry.2.keptFor name) := by
  unfold slots
  rw [first?_outline_profile, named_outline_profile, List.map_append, List.filterMap_map,
    List.map_filterMap]
  congr 1
  · cases layer.first? "shared" <;> rfl
  · congr 1
    funext e
    simp only [Function.comp_apply, attribute?_keptFor]
    cases e.attribute? "name" <;> rfl

theorem keptFor_eq_self_or {layer : Node} {owner : String} {entry : Slot × Node}
    (h : entry ∈ layer.slots owner) :
    entry.2.keptFor name = entry.2 ∨ entry.1.concerns name = false := by
  rcases List.mem_append.1 h with h | h
  · obtain ⟨e, he, rfl⟩ := List.mem_map.1 h
    have hshared := List.find?_some (Option.mem_toList.1 he)
    simp only [beq_iff_eq] at hshared
    exact .inl (if_neg (by simp [hshared]))
  · obtain ⟨e, -, he⟩ := List.mem_filterMap.1 h
    obtain ⟨other, hother, rfl⟩ := Option.map_eq_some_iff.1 he
    by_cases hsame : other = name
    · subst hsame
      exact .inl (if_neg (by simp [hother]))
    · exact .inr (by simpa [Slot.concerns] using hsame)

end Node

theorem slot_of_mem_blockWrites {origin : ProfileOrigin} {slot : Slot} {block : Node} {w : Write}
    (h : w ∈ (blockWrites origin slot block).value) : w.place.slot = slot := by
  unfold blockWrites at h
  simp only at h
  split at h
  · exact absurd h List.not_mem_nil
  split at h
  · split at h
    · obtain ⟨_, -, rfl⟩ := List.mem_map.1 h
      rfl
    · split at h
      · exact absurd h List.not_mem_nil
      · obtain ⟨_, -, rfl⟩ := List.mem_map.1 h
        rfl
  · split at h
    · obtain ⟨_, -, rfl⟩ := List.mem_map.1 h
      rfl
    · obtain ⟨_, -, rfl⟩ := List.mem_map.1 h
      rfl

theorem slot_of_mem_slotWrites {origin : ProfileOrigin} {slot : Slot} {n : Node} {w : Write}
    (h : w ∈ (slotWrites origin slot n).value) : w.place.slot = slot := by
  rw [slotWrites_value] at h
  rcases List.mem_cons.1 h with rfl | h
  · rfl
  · obtain ⟨layer, -, h⟩ := List.mem_flatMap.1 h
    obtain ⟨block, -, h⟩ := List.mem_flatMap.1 h
    exact slot_of_mem_blockWrites h

theorem filter_slotWrites_eq_nil {slot : Slot} {name : String} (h : slot.concerns name = false)
    (origin : ProfileOrigin) (n : Node) :
    (slotWrites origin slot n).value.filter (Write.concerns name) = [] := by
  rw [List.filter_eq_nil_iff]
  intro w hw
  unfold Write.concerns
  rw [slot_of_mem_slotWrites hw, h]
  exact Bool.false_ne_true

theorem filter_profileWrites_outline (origin : ProfileOrigin) (name : String) (n : Node) :
    (profileWrites origin (n.outline name true)).value.filter (Write.concerns name) =
      (profileWrites origin n).value.filter (Write.concerns name) := by
  rw [profileWrites_value, profileWrites_value, Node.elements_outline, List.flatMap_map,
    List.filter_flatMap, List.filter_flatMap]
  congr 1
  funext layer
  rw [Node.slots_outline, List.flatMap_map, List.filter_flatMap, List.filter_flatMap]
  apply List.flatMap_congr
  intro entry hentry
  rcases Node.keptFor_eq_self_or name hentry with hkept | hother
  · rw [hkept]
  · rw [filter_slotWrites_eq_nil hother, filter_slotWrites_eq_nil hother]

theorem filter_ownerWrites_outline (origin : ProfileOrigin) (name : String) (e : Node) :
    ((e.outline name false).ownerWrites origin).filter (Write.concerns name) =
      (e.ownerWrites origin).filter (Write.concerns name) := by
  unfold Node.ownerWrites
  rw [Node.elements_outline, List.flatMap_map, List.filter_flatMap, List.filter_flatMap]
  congr 1
  funext layer
  unfold Node.layerWrites
  rw [Node.first?_outline]
  cases layer.first? "configurations" with
  | none => rfl
  | some n => simpa using filter_profileWrites_outline origin name n

end SolutionPlan
