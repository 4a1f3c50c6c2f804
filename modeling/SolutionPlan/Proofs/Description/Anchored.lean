import SolutionPlan.Proofs.Description.Contents
import SolutionPlan.Proofs.Description.Imports
import SolutionPlan.Proofs.FileSystem.Store

/-!
# Where elements are written

Every element of a loaded description knows the directory of its document. As a document is found by
resolving a text in such a directory, all of these are canonical, however deep imports are nested.
-/

namespace SolutionPlan

namespace Node

/-- The directories of the element, of all below it and of all that these import are canonical. -/
inductive Anchored : Node → Prop
  | mk {tag : Xml.Tag} {directory : Path} {children : List Node} {imports : List Imported} :
      directory.Canonical → (∀ c ∈ children, Anchored c) →
      (∀ root, .loaded root ∈ imports → Anchored (root ())) →
      Anchored (.mk tag directory children imports)

/-! ## What reading finds -/

theorem mem_importedLayers {roots : List Imported} {e : Node}
    (h : e ∈ (importedLayers roots).filterMap Layer.element?) :
    ∃ root, .loaded root ∈ roots ∧ e ∈ (root ()).elements := by
  induction roots with
  | nil => cases h
  | cons first rest ih =>
      cases first with
      | failed p =>
          obtain ⟨root, hroot, he⟩ := ih h
          exact ⟨root, List.mem_cons_of_mem _ hroot, he⟩
      | loaded root =>
          rw [importedLayers, List.filterMap_append] at h
          rcases List.mem_append.1 h with h | h
          · exact ⟨root, List.mem_cons_self, h⟩
          · obtain ⟨other, hother, he⟩ := ih h
            exact ⟨other, List.mem_cons_of_mem _ hother, he⟩

theorem mem_importedProjects {roots : List Imported} {e : Node}
    (h : e ∈ importedProjects roots) :
    ∃ root, .loaded root ∈ roots ∧ e ∈ (root ()).contentProjects := by
  induction roots with
  | nil => cases h
  | cons first rest ih =>
      cases first with
      | failed p =>
          obtain ⟨root, hroot, he⟩ := ih h
          exact ⟨root, List.mem_cons_of_mem _ hroot, he⟩
      | loaded root =>
          rw [importedProjects] at h
          rcases List.mem_append.1 h with h | h
          · exact ⟨root, List.mem_cons_self, h⟩
          · obtain ⟨other, hother, he⟩ := ih h
            exact ⟨other, List.mem_cons_of_mem _ hother, he⟩

theorem mem_folderProjects {es : List Node} {e : Node} (h : e ∈ folderProjects es) :
    ∃ c ∈ es, e ∈ importedProjects c.imports ∨ e ∈ c.contentProjects := by
  induction es with
  | nil => cases h
  | cons first rest ih =>
      obtain ⟨tag, directory, children, imports⟩ := first
      rw [folderProjects] at h
      rcases List.mem_append.1 h with h | h
      · split at h
        · exact ⟨_, List.mem_cons_self, List.mem_append.1 h⟩
        · cases h
      · obtain ⟨c, hc, he⟩ := ih h
        exact ⟨c, List.mem_cons_of_mem _ hc, he⟩

namespace Anchored

variable {n : Node}

theorem directory (h : n.Anchored) : n.directory.Canonical := by
  cases h with
  | mk hdirectory _ _ => exact hdirectory

theorem of_mem_children (h : n.Anchored) {c : Node} (hc : c ∈ n.children) : c.Anchored := by
  cases h with
  | mk _ hchildren _ => exact hchildren c hc

theorem of_mem_named (h : n.Anchored) {name : String} {c : Node} (hc : c ∈ n.named name) :
    c.Anchored :=
  h.of_mem_children (List.mem_filter.1 hc).1

theorem of_first? (h : n.Anchored) {name : String} {c : Node} (hc : n.first? name = some c) :
    c.Anchored :=
  h.of_mem_children (List.mem_of_find?_eq_some hc)

theorem of_mem_elements (h : n.Anchored) {e : Node} (he : e ∈ n.elements) : e.Anchored := by
  induction h with
  | mk hdirectory hchildren himports _ ih =>
      unfold elements at he
      rw [layers, List.filterMap_append] at he
      rcases List.mem_append.1 he with he | he
      · obtain ⟨root, hroot, he⟩ := mem_importedLayers he
        exact ih root hroot he
      · obtain rfl := List.mem_singleton.1 he
        exact .mk hdirectory hchildren himports

theorem of_mem_projects (h : n.Anchored) {e : Node} :
    (e ∈ n.contentProjects → e.Anchored) ∧ (e ∈ importedProjects n.imports → e.Anchored) := by
  induction h with
  | @mk tag directory children imports hdirectory hchildren himports ihchildren ihimports =>
      constructor
      · intro he
        rw [contentProjects] at he
        rcases List.mem_append.1 he with hfolders | hown
        · obtain ⟨c, hc, himported | hcontent⟩ := mem_folderProjects hfolders
          · exact (ihchildren c hc).2 himported
          · exact (ihchildren c hc).1 hcontent
        · exact hchildren e (List.mem_filter.1 hown).1
      · intro he
        obtain ⟨root, hroot, he⟩ := mem_importedProjects he
        exact (ihimports root hroot).1 he

end Anchored

/-! ## Loading -/

section Load

variable {fs : FileSystem} (hfs : fs.HasInnerDocuments)

include hfs

theorem inner_of_fetch {parameters : Parameters} {opened : OpenDocuments fs} {directory : Path}
    {site : Xml.Element} {found : Fetched opened} (hdirectory : directory.Canonical)
    (h : fetch parameters opened directory site = .ok found) : found.path.Inner := by
  refine ⟨?_, hfs _ found.isReadable⟩
  have hopen := openDocument_eq_fetch parameters opened directory site
  rw [h] at hopen
  unfold openDocument at hopen
  cases hfile : site.attribute? "file" with
  | none =>
      rw [hfile] at hopen
      cases hopen
  | some file =>
      simp only [hfile] at hopen
      have hcanonical := Path.canonical_resolve hdirectory.absolute (parameters.expand file)
      generalize directory.resolve (parameters.expand file) = path at hopen hcanonical
      split at hopen
      · cases hopen
      · split at hopen
        · cases hopen
        · split at hopen
          · cases hopen
          · obtain ⟨rfl, -⟩ := Prod.mk.inj (Except.ok.inj hopen)
            exact hcanonical

theorem anchored_load (parameters : Parameters) (opened : OpenDocuments fs) {directory : Path}
    (hdirectory : directory.Canonical) (e : Xml.Element) :
    (load parameters opened directory e).Anchored := by
  rw [load_eq]
  refine .mk hdirectory ?_ ?_
  · rw [List.forall_mem_map]
    intro child hchild
    exact anchored_load parameters opened hdirectory child
  · intro root hroot
    obtain ⟨site, -, hsite⟩ := List.mem_map.1 hroot
    unfold Imported.of at hsite
    split at hsite
    · cases hsite
    · next found hfetch =>
        obtain rfl := Imported.loaded.inj hsite
        exact anchored_load parameters _ (inner_of_fetch hfs hdirectory hfetch).parentOrEmpty
          found.root
termination_by (opened.room, sizeOf e)
decreasing_by
  · exact Prod.Lex.right _ (Xml.Element.sizeOf_lt_of_mem_children hchild)
  · exact Prod.Lex.left _ _ OpenDocuments.room_push_lt

end Load

end Node

end SolutionPlan
