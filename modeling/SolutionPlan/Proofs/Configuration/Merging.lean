import SolutionPlan.Proofs.Configuration.Inheritance

/-!
# Merging in either grouping

Merging is associative where the values that are inherited are of their settings' kinds. So a child
gets the same from a parent that has merged its shared configuration into the named ones as from one
that still keeps them apart: the parent's own level and then its shared one, each once.
-/

namespace SolutionPlan

namespace Configuration

theorem eq_of_get?_eq {c d : Configuration} (hname : c.name = d.name)
    (hshared : c.isShared = d.isShared) (hexcluded : c.excluded = d.excluded)
    (hvalues : ∀ key, c.get? key = d.get? key) : c = d := by
  cases c with
  | mk name isShared excluded values =>
      cases d with
      | mk name' isShared' excluded' values' =>
          obtain rfl : values = values' := Vector.ext fun i hi => hvalues ⟨i, hi⟩
          simp_all

theorem excluded_merge (c parent : Configuration) :
    (c.merge parent).excluded = c.excluded.or parent.excluded := by
  cases hexcluded : c.excluded <;> simp [merge, hexcluded]

theorem merge_assoc (c : Configuration) {parent far : Configuration} (hparent : parent.WellKinded)
    (hfar : far.WellKinded) : (c.merge parent).merge far = c.merge (parent.merge far) := by
  apply eq_of_get?_eq
  · rfl
  · rfl
  · simp only [excluded_merge, Option.or_assoc]
  · intro key
    simp only [get?_merge]
    exact SettingValue.combine_assoc (hparent key) (hfar key)

end Configuration

namespace ConfigurationSet

structure WellKinded (s : ConfigurationSet) : Prop where
  configurations : ∀ c ∈ s.configurations, c.WellKinded
  shared : ∀ c ∈ s.shared, c.WellKinded

/-- A parent that keeps its shared configuration apart adds its levels one after the other. -/
theorem mergeInto_eq_foldl {parent : ConfigurationSet} (hparent : parent.sharedApplied = false)
    (c : Configuration) :
    parent.mergeInto c = (parent.levels c.name).foldl Configuration.merge c := by
  unfold mergeInto levels
  cases parent.find? c.name <;> cases parent.shared <;> simp [hparent]

theorem mergeInto_applyShared {parent : ConfigurationSet} (hparent : parent.sharedApplied = false)
    (hkinds : parent.WellKinded) (c : Configuration) :
    parent.applyShared.mergeInto c = parent.mergeInto c := by
  unfold mergeInto
  rw [find?_applyShared hparent, applyShared_eq hparent, hparent]
  unfold withShared
  cases hfound : parent.find? c.name with
  | none => cases parent.shared <;> rfl
  | some own =>
      cases hshared : parent.shared with
      | none => rfl
      | some shared =>
          have hown : own.WellKinded := hkinds.configurations own (mem_of_find? hfound).1
          exact (c.merge_assoc hown (hkinds.shared shared hshared)).symm

/--
A child set becomes the same whether or not its parent has merged its shared configuration into the
named ones before: each of the child's configurations merges in the parent's levels of its name, the
parent's own configuration and then the shared one, as far as there are any.
-/
theorem mergeFrom_applyShared (child : ConfigurationSet) {parent : ConfigurationSet}
    (hparent : parent.sharedApplied = false) (hkinds : parent.WellKinded) :
    child.mergeFrom parent.applyShared = child.mergeFrom parent ∧
      (child.mergeFrom parent).configurations =
        child.configurations.map fun c => (parent.levels c.name).foldl Configuration.merge c := by
  constructor
  · unfold mergeFrom
    rw [List.map_congr_left fun c _ => mergeInto_applyShared hparent hkinds c]
  · exact List.map_congr_left fun c _ => mergeInto_eq_foldl hparent c

theorem mergeFrom_applyShared_chain :
    let child := chainSolution.base
    let parent := chainProject.base
    parent.sharedApplied = false ∧ parent.WellKinded ∧
      child.mergeFrom parent.applyShared = child.mergeFrom parent ∧
        (child.mergeFrom parent.applyShared).configurations.map
            (fun c => (c.name, c.getNamed? .compile "PreprocessorDefinitions")) =
          [("Debug", some (.list ["SLN_DEBUG", "PRJ_DEBUG", "PRJ_SHARED"])),
            ("Release", some (.list ["PRJ_SHARED"]))] := by
  intro child parent
  have hparent : parent.sharedApplied = false := rfl
  have hkinds : parent.WellKinded := ⟨by decide, by decide⟩
  exact ⟨hparent, hkinds, (mergeFrom_applyShared child hparent hkinds).1, by decide⟩

end ConfigurationSet

end SolutionPlan
