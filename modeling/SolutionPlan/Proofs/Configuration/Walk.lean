import SolutionPlan.Proofs.Configuration.Merging

/-!
# Merging as a walk

A parent can be merged into a configuration in place: the registered settings are visited scope by
scope, and where the parent has a value the entry is taken out and put back combined. Each setting
is visited once, so the order does not matter and every entry is combined once.
-/

namespace SolutionPlan

theorem SettingValue.combine_none (own : Option SettingValue) : combine own none = own := by
  cases own with
  | none => rfl
  | some value => cases value <;> rfl

theorem SettingValue.combine_some (own : Option SettingValue) (inherited : SettingValue) :
    combine own (some inherited) = some ((combine own (some inherited)).getD inherited) := by
  cases own with
  | none => rfl
  | some value =>
      cases value with
      | list entries => cases inherited <;> rfl
      | bool _ | choice _ | warningLevel _ | text _ => rfl

theorem SettingKey.flatMap_ofScope :
    [Scope.project, .compile, .link].flatMap SettingKey.ofScope = SettingKey.all := by
  decide +kernel

namespace Configuration

def adopt (parent c : Configuration) (key : SettingKey) : Configuration :=
  match parent.get? key with
  | none => c
  | some inherited =>
      c.set key ((SettingValue.combine (c.get? key) (some inherited)).getD inherited)

/-- Visits the settings of the three scopes, one after the other. -/
def walk (c parent : Configuration) : Configuration :=
  ([Scope.project, .compile, .link].flatMap SettingKey.ofScope).foldl (adopt parent) c

variable (c parent : Configuration)

theorem get?_adopt (key other : SettingKey) :
    (adopt parent c key).get? other =
      if key = other then SettingValue.combine (c.get? key) (parent.get? key)
      else c.get? other := by
  unfold adopt
  cases hinherited : parent.get? key with
  | none =>
      by_cases hsame : key = other
      · rw [if_pos hsame, SettingValue.combine_none, hsame]
      · rw [if_neg hsame]
  | some inherited => rw [get?_set, ← SettingValue.combine_some]

theorem adopt_eq (key : SettingKey) :
    adopt parent c key = { c with values := (adopt parent c key).values } := by
  unfold adopt
  cases parent.get? key <;> rfl

theorem get?_foldl_adopt_of_not_mem {keys : List SettingKey} {key : SettingKey} (h : key ∉ keys) :
    (keys.foldl (adopt parent) c).get? key = c.get? key := by
  induction keys generalizing c with
  | nil => rfl
  | cons visited rest ih =>
      rw [List.mem_cons, not_or] at h
      rw [List.foldl_cons, ih _ h.2, get?_adopt, if_neg (Ne.symm h.1)]

theorem get?_foldl_adopt {keys : List SettingKey} (hkeys : keys.Nodup) {key : SettingKey}
    (h : key ∈ keys) :
    (keys.foldl (adopt parent) c).get? key =
      SettingValue.combine (c.get? key) (parent.get? key) := by
  induction keys generalizing c with
  | nil => cases h
  | cons visited rest ih =>
      obtain ⟨hnew, hrest⟩ := List.nodup_cons.1 hkeys
      rw [List.foldl_cons]
      rcases List.mem_cons.1 h with rfl | h
      · -- What was visited is not visited again.
        rw [get?_foldl_adopt_of_not_mem _ _ hnew, get?_adopt, if_pos rfl]
      · have hne : visited ≠ key := fun hsame => hnew (hsame ▸ h)
        rw [ih _ hrest h, get?_adopt, if_neg hne]

theorem foldl_adopt_eq (keys : List SettingKey) :
    keys.foldl (adopt parent) c = { c with values := (keys.foldl (adopt parent) c).values } := by
  induction keys generalizing c with
  | nil => rfl
  | cons visited rest ih =>
      rw [List.foldl_cons, ih]
      generalize (rest.foldl (adopt parent) (adopt parent c visited)).values = values
      rw [adopt_eq]

theorem merge_eq_walk :
    c.merge parent = { c.walk parent with excluded := c.excluded.or parent.excluded } := by
  have hwalk := foldl_adopt_eq c parent SettingKey.all
  have hall : c.walk parent = SettingKey.all.foldl (adopt parent) c := by
    unfold walk
    rw [SettingKey.flatMap_ofScope]
  rw [hall]
  apply eq_of_get?_eq
  · rw [hwalk]
    rfl
  · rw [hwalk]
    rfl
  · exact c.excluded_merge parent
  · intro key
    have hvisited := get?_foldl_adopt c parent (List.nodup_finRange 28) (List.mem_finRange key)
    rw [get?_merge]
    exact hvisited.symm

variable {c parent} {far : Configuration}

theorem get?_merge_of_wellKinded (hc : c.WellKinded) (hparent : parent.WellKinded)
    (key : SettingKey) :
    (c.merge parent).get? key =
      match c.get? key, parent.get? key with
      | some own, some inherited =>
          if key.kind = .list then some (.list (own.entries ++ inherited.entries)) else some own
      | some own, none => some own
      | none, inherited => inherited := by
  rw [get?_merge]
  cases hown : c.get? key with
  | none => rfl
  | some own =>
      cases hinherited : parent.get? key with
      | none => exact SettingValue.combine_none (some own)
      | some inherited =>
          have hownKind := hc key own hown
          have hkind := hparent key inherited hinherited
          simp only
          split
          · next hlist =>
              rw [hlist] at hownKind hkind
              rw [SettingValue.eq_list_of_hasKind hownKind, SettingValue.eq_list_of_hasKind hkind]
              rfl
          · next hother => exact SettingValue.combine_eq_left hownKind hother _

/--
Merging a parent in is the walk through the registry. It joins the entries of both sides where both
have a list, keeps an own value of any other kind, takes over what only the parent has and leaves
all other entries empty; the exclusion flag is the own one if it is set. Name and mark stay, and the
parent is only read. Merging two parents one after the other is merging the nearer one after the
farther one has been merged into it.
-/
theorem merge_pointwise_assoc (hc : c.WellKinded) (hparent : parent.WellKinded)
    (hfar : far.WellKinded) :
    c.merge parent = { c.walk parent with excluded := c.excluded.or parent.excluded } ∧
      (∀ key, (c.merge parent).get? key =
        match c.get? key, parent.get? key with
        | some own, some inherited =>
            if key.kind = .list then some (.list (own.entries ++ inherited.entries)) else some own
        | some own, none => some own
        | none, inherited => inherited) ∧
      (c.merge parent).excluded = c.excluded.or parent.excluded ∧
      (c.merge parent).name = c.name ∧ (c.merge parent).isShared = c.isShared ∧
      (c.merge parent).merge far = c.merge (parent.merge far) :=
  ⟨c.merge_eq_walk parent, get?_merge_of_wellKinded hc hparent, c.excluded_merge parent,
    c.name_merge parent, rfl, c.merge_assoc hparent hfar⟩

theorem merge_pointwise_assoc_three :
    let near := (named "Debug").set 13 (.list ["NEAR"])
    let parent := ((named "Debug").set 13 (.list ["MIDDLE"])).set 9 (.choice "Full")
    let far := ((named "Debug").set 13 (.list ["FAR"])).set 9 (.choice "Disabled")
    (near.WellKinded ∧ parent.WellKinded ∧ far.WellKinded) ∧
      near.merge parent = { near.walk parent with excluded := none } ∧
      (near.merge parent).get? 13 = some (.list ["NEAR", "MIDDLE"]) ∧
      (near.merge parent).merge far = near.merge (parent.merge far) ∧
      (near.merge (parent.merge far)).get? 9 = some (.choice "Full") := by
  intro near parent far
  have hnear : near.WellKinded := by decide
  have hparent : parent.WellKinded := by decide
  have hfar : far.WellKinded := by decide
  obtain ⟨hwalk, hentries, -, -, -, hassoc⟩ := merge_pointwise_assoc hnear hparent hfar
  exact ⟨⟨hnear, hparent, hfar⟩, hwalk, (hentries 13).trans (by decide), hassoc, by decide⟩

end Configuration

end SolutionPlan
