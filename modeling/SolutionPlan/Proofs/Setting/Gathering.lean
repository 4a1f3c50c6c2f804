import SolutionPlan.Setting.Value

/-!
# Several values of one setting

The values that one setting is given at several levels, the nearest first, count as one value: lists
are joined and of any other kind the nearest one stays. `combine` is that operation for two levels,
and for values of the setting's kind it does not matter how the levels are grouped.
-/

namespace SolutionPlan

def SettingValue.entries : SettingValue → List String
  | .list entries => entries
  | _ => []

/-- What the values say together; nothing at all if there are none. -/
def SettingKind.gather (kind : SettingKind) : List SettingValue → Option SettingValue
  | [] => none
  | value :: rest =>
      if kind = .list then some (.list ((value :: rest).flatMap SettingValue.entries))
      else some value

namespace SettingValue

instance (value : SettingValue) (kind : SettingKind) : Decidable (value.HasKind kind) := by
  unfold HasKind
  split <;> infer_instance

theorem hasKind_list_iff {kind : SettingKind} {entries : List String} :
    (list entries).HasKind kind ↔ kind = .list := by
  cases kind <;> simp [HasKind]

theorem entries_eq_nil {kind : SettingKind} {value : SettingValue} (h : value.HasKind kind)
    (hkind : kind ≠ .list) : value.entries = [] := by
  cases value with
  | list entries => exact absurd (hasKind_list_iff.1 h) hkind
  | bool _ | choice _ | warningLevel _ | text _ => rfl

theorem eq_list_of_hasKind {value : SettingValue} (h : value.HasKind .list) :
    value = .list value.entries := by
  cases value with
  | list entries => rfl
  | bool _ | choice _ | warningLevel _ | text _ => exact absurd h (by simp [HasKind])

theorem combine_cases {near far : Option SettingValue} {value : SettingValue}
    (h : combine near far = some value) :
    near = some value ∨ far = some value ∨
      ∃ own inherited, near = some (list own) ∧ far = some (list inherited) ∧
        value = list (own ++ inherited) := by
  cases near with
  | none => exact .inr (.inl h)
  | some own =>
      cases own with
      | bool _ | choice _ | warningLevel _ | text _ => exact .inl h
      | list entries =>
          cases far with
          | none => exact .inl h
          | some other =>
              cases other with
              | bool _ | choice _ | warningLevel _ | text _ => exact .inl h
              | list others =>
                  exact .inr (.inr ⟨entries, others, rfl, rfl, (Option.some.inj h).symm⟩)

theorem combine_eq_left {kind : SettingKind} {own : SettingValue} (h : own.HasKind kind)
    (hkind : kind ≠ .list) (inherited : Option SettingValue) :
    combine (some own) inherited = some own := by
  cases own with
  | list entries => exact absurd (hasKind_list_iff.1 h) hkind
  | bool _ | choice _ | warningLevel _ | text _ => cases inherited <;> rfl

theorem combine_list_of_hasKind {kind : SettingKind} (hkind : kind ≠ .list)
    {inherited : Option SettingValue} (h : ∀ value ∈ inherited, value.HasKind kind)
    (entries : List String) :
    combine (some (list entries)) inherited = some (list entries) := by
  cases inherited with
  | none => rfl
  | some value =>
      cases value with
      | list others => exact absurd (hasKind_list_iff.1 (h _ rfl)) hkind
      | bool _ | choice _ | warningLevel _ | text _ => rfl

/-- It does not matter which levels are combined first, if the farther ones are of one kind. -/
theorem combine_assoc {kind : SettingKind} {near middle far : Option SettingValue}
    (hmiddle : ∀ value ∈ middle, value.HasKind kind) (hfar : ∀ value ∈ far, value.HasKind kind) :
    combine (combine near middle) far = combine near (combine middle far) := by
  cases near with
  | none => rfl
  | some own =>
      cases own with
      | bool _ | choice _ | warningLevel _ | text _ => rfl
      | list entries =>
          cases middle with
          | none => rfl
          | some value =>
              have hvalue : value.HasKind kind := hmiddle value rfl
              by_cases hkind : kind = .list
              · subst hkind
                rw [eq_list_of_hasKind hvalue]
                cases far with
                | none => rfl
                | some other =>
                    rw [eq_list_of_hasKind (hfar other rfl)]
                    simp [combine]
              · rw [combine_eq_left hvalue hkind, combine_list_of_hasKind hkind hmiddle,
                  combine_list_of_hasKind hkind hfar]

end SettingValue

namespace SettingKind

theorem gather_eq_none_iff {kind : SettingKind} {values : List SettingValue} :
    kind.gather values = none ↔ values = [] := by
  cases values with
  | nil => simp [gather]
  | cons value rest => by_cases h : kind = .list <;> simp [gather, h]

theorem gather_singleton {kind : SettingKind} {value : SettingValue} (h : value.HasKind kind) :
    kind.gather [value] = some value := by
  by_cases hkind : kind = .list
  · subst hkind
    rw [SettingValue.eq_list_of_hasKind h]
    simp [gather, SettingValue.entries]
  · simp [gather, hkind]

/-- Two groups of levels, each counted as one value, combine to the value of all the levels. -/
theorem combine_gather {kind : SettingKind} {near far : List SettingValue}
    (h : ∀ value ∈ near, value.HasKind kind) :
    SettingValue.combine (kind.gather near) (kind.gather far) = kind.gather (near ++ far) := by
  cases near with
  | nil => simp [gather, SettingValue.combine]
  | cons value rest =>
      by_cases hkind : kind = .list
      · cases far with
        | nil => simp [gather, hkind, SettingValue.combine]
        | cons other others => simp [gather, hkind, SettingValue.combine]
      · have hvalue := h value (by simp)
        simp only [gather, hkind, if_false, List.cons_append]
        exact SettingValue.combine_eq_left hvalue hkind _

end SettingKind

end SolutionPlan
