import SolutionPlan.Configuration.Profile
import SolutionPlan.Proofs.Setting.Gathering

/-!
# Levels of a configuration

A configuration that results from inheritance stands for a list of configurations as they were
written, the nearest first: each of its values is gathered from theirs, and its exclusion flag is
the first one that is set among them. Merging a parent in appends the parent's levels.
-/

namespace SolutionPlan

namespace Configuration

def WellKinded (c : Configuration) : Prop :=
  ∀ key, ∀ value ∈ c.get? key, value.HasKind key.kind

instance (c : Configuration) : Decidable c.WellKinded :=
  inferInstanceAs (Decidable (∀ key, ∀ value ∈ c.get? key, value.HasKind key.kind))

/-- The configuration says what its levels say together. -/
structure Combines (c : Configuration) (levels : List Configuration) : Prop where
  value : ∀ key, c.get? key = key.kind.gather (levels.filterMap fun level => level.get? key)
  excluded : c.excluded = (levels.filterMap Configuration.excluded).head?

theorem wellKinded_named (name : String) : (named name).WellKinded := by
  intro key value h
  simp at h

theorem combines_named (name : String) : (named name).Combines [] := by
  constructor
  · intro key
    simp [SettingKind.gather]
  · rfl

theorem WellKinded.combines_self {c : Configuration} (h : c.WellKinded) : c.Combines [c] := by
  constructor
  · intro key
    cases hvalue : c.get? key with
    | none => simp [hvalue, SettingKind.gather]
    | some value =>
        have hkind : value.HasKind key.kind := h key value hvalue
        simp [hvalue, SettingKind.gather_singleton hkind]
  · cases hexcluded : c.excluded <;> simp [hexcluded]

theorem WellKinded.hasKind_of_mem {levels : List Configuration} {key : SettingKey}
    (h : ∀ level ∈ levels, level.WellKinded) :
    ∀ value ∈ levels.filterMap fun level => level.get? key, value.HasKind key.kind := by
  intro value hvalue
  obtain ⟨level, hlevel, hget⟩ := List.mem_filterMap.1 hvalue
  exact h level hlevel key value hget

/-- Merging appends the levels of the parent. -/
theorem Combines.merge {c parent : Configuration} {near far : List Configuration}
    (hc : c.Combines near) (hparent : parent.Combines far)
    (hnear : ∀ level ∈ near, level.WellKinded) :
    (c.merge parent).Combines (near ++ far) := by
  constructor
  · intro key
    rw [get?_merge, hc.value, hparent.value, List.filterMap_append,
      SettingKind.combine_gather (WellKinded.hasKind_of_mem hnear)]
  · simp only [Configuration.merge, hc.excluded, hparent.excluded, List.filterMap_append,
      List.head?_append]
    cases (near.filterMap Configuration.excluded).head? <;> rfl

@[simp] theorem name_merge (c parent : Configuration) : (c.merge parent).name = c.name := rfl

theorem Combines.get?_eq_none_iff {c : Configuration} {levels : List Configuration}
    (h : c.Combines levels) (key : SettingKey) :
    c.get? key = none ↔ ∀ level ∈ levels, level.get? key = none := by
  rw [h.value, SettingKind.gather_eq_none_iff, List.filterMap_eq_nil_iff]

end Configuration

theorem find?_key_of_mem {α β : Type} [BEq β] [LawfulBEq β] {key : α → β} {l : List α}
    (hl : (l.map key).Nodup) {a : α} (ha : a ∈ l) :
    l.find? (fun b => key b == key a) = some a := by
  induction l with
  | nil => cases ha
  | cons b rest ih =>
      rw [List.map_cons, List.nodup_cons] at hl
      rcases List.mem_cons.1 ha with rfl | ha
      · simp
      · have hne : key b ≠ key a := fun he => hl.1 (he ▸ List.mem_map_of_mem ha)
        rw [List.find?_cons_of_neg (by simpa using hne)]
        exact ih hl.2 ha

namespace ConfigurationSet

/-! ## Sets as they are written -/

/-- What a set says about a configuration of that name: its own one, then the shared one. -/
def levels (s : ConfigurationSet) (name : String) : List Configuration :=
  (s.find? name).toList ++ s.shared.toList

/-- A set as a description leaves it, before anything is inherited. -/
structure Written (s : ConfigurationSet) : Prop where
  unapplied : s.sharedApplied = false
  distinct : s.names.Nodup
  wellKinded : ∀ c ∈ s.configurations, c.WellKinded
  sharedWellKinded : ∀ c ∈ s.shared, c.WellKinded

theorem written_empty : empty.Written where
  unapplied := rfl
  distinct := List.nodup_nil
  wellKinded := by simp [empty]
  sharedWellKinded := by simp [empty]

theorem mem_of_find? {s : ConfigurationSet} {name : String} {c : Configuration}
    (h : s.find? name = some c) : c ∈ s.configurations ∧ c.name = name :=
  ⟨List.mem_of_find?_eq_some h, by simpa using List.find?_some h⟩

theorem find?_eq_none_iff {s : ConfigurationSet} {name : String} :
    s.find? name = none ↔ name ∉ s.names := by
  simp [find?, names]

theorem find?_of_mem {s : ConfigurationSet} (hs : s.names.Nodup) {c : Configuration}
    (hc : c ∈ s.configurations) : s.find? c.name = some c :=
  find?_key_of_mem hs hc

theorem Written.wellKinded_levels {s : ConfigurationSet} (hs : s.Written) (name : String) :
    ∀ level ∈ s.levels name, level.WellKinded := by
  intro level hlevel
  rcases List.mem_append.1 hlevel with h | h
  · exact hs.wellKinded level (mem_of_find? (Option.mem_toList.1 h)).1
  · exact hs.sharedWellKinded level (Option.mem_toList.1 h)

/-! ## Inheriting from a set -/

def withShared (s : ConfigurationSet) (c : Configuration) : Configuration :=
  s.shared.elim c c.merge

@[simp] theorem name_withShared (s : ConfigurationSet) (c : Configuration) :
    (s.withShared c).name = c.name := by
  unfold withShared
  cases s.shared <;> rfl

theorem combines_withShared {s : ConfigurationSet} {c : Configuration}
    {levels : List Configuration} (hs : s.Written) (hc : c.Combines levels)
    (hlevels : ∀ level ∈ levels, level.WellKinded) :
    (s.withShared c).Combines (levels ++ s.shared.toList) := by
  unfold withShared
  cases hshared : s.shared with
  | none => simpa using hc
  | some shared => exact hc.merge (hs.sharedWellKinded shared hshared).combines_self hlevels

theorem applyShared_eq {s : ConfigurationSet} (hs : s.sharedApplied = false) :
    s.applyShared =
      { s with configurations := s.configurations.map s.withShared, sharedApplied := true } := by
  unfold applyShared withShared
  rw [hs]
  cases s.shared <;> simp

theorem Written.applyShared_eq {s : ConfigurationSet} (hs : s.Written) :
    s.applyShared =
      { s with configurations := s.configurations.map s.withShared, sharedApplied := true } :=
  ConfigurationSet.applyShared_eq hs.unapplied

theorem find?_applyShared {s : ConfigurationSet} (hs : s.sharedApplied = false) (name : String) :
    s.applyShared.find? name = (s.find? name).map s.withShared := by
  rw [applyShared_eq hs]
  unfold find?
  rw [List.find?_map]
  congr 2
  funext c
  simp

theorem Written.names_applyShared {s : ConfigurationSet} (hs : s.Written) :
    s.applyShared.names = s.names := by
  rw [hs.applyShared_eq]
  simp [names, Function.comp_def]

@[simp] theorem name_mergeInto (parent : ConfigurationSet) (c : Configuration) :
    (parent.mergeInto c).name = c.name := by
  unfold mergeInto
  split
  · split <;> rfl
  all_goals rfl

/-- A parent whose shared configuration is merged already adds each of its levels once. -/
theorem combines_mergeInto_applyShared {parent : ConfigurationSet} {c : Configuration}
    {levels : List Configuration} (hparent : parent.Written) (hc : c.Combines levels)
    (hlevels : ∀ level ∈ levels, level.WellKinded) :
    (parent.applyShared.mergeInto c).Combines (levels ++ parent.levels c.name) := by
  have hshared : parent.applyShared.shared = parent.shared := by rw [hparent.applyShared_eq]
  have happlied : parent.applyShared.sharedApplied = true := by rw [hparent.applyShared_eq]
  unfold mergeInto ConfigurationSet.levels
  rw [find?_applyShared hparent.unapplied, hshared, happlied]
  cases hfound : parent.find? c.name with
  | none =>
      cases hs : parent.shared with
      | none => simpa using hc
      | some shared =>
          exact hc.merge (hparent.sharedWellKinded shared hs).combines_self hlevels
  | some own =>
      have hown : own.WellKinded := hparent.wellKinded own (mem_of_find? hfound).1
      have hgroup : (parent.withShared own).Combines ([own] ++ parent.shared.toList) :=
        combines_withShared hparent hown.combines_self (by simpa using hown)
      have hmerged := hc.merge hgroup hlevels
      cases hs : parent.shared <;> simpa [hs] using hmerged

end ConfigurationSet

end SolutionPlan
