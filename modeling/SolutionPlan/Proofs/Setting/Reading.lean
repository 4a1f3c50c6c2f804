import SolutionPlan.Proofs.Setting.Gathering
import SolutionPlan.Proofs.Setting.Lists

/-!
# Reading what is written

A value that comes from texts by reading and merging is of its setting's kind, and if it is a list
each entry stands for itself. Its written form is read back as that value, and nothing is reported.
-/

namespace SolutionPlan

/-- The values that the setting gets from texts, at one level or merged from several. -/
inductive SettingKey.Arises (key : SettingKey) : SettingValue → Prop
  | read (raw : String) : Arises key (key.read raw).value
  | merged {near far : Option SettingValue} {value : SettingValue}
      (hnear : ∀ v ∈ near, Arises key v) (hfar : ∀ v ∈ far, Arises key v)
      (h : SettingValue.combine near far = some value) : Arises key value

def SettingKind.choices : SettingKind → List String
  | choice first others => first :: others
  | _ => []

/-! ## Values that arise -/

namespace SettingValue

/-- Of this kind, and each entry of a list stands for itself. -/
structure IsPlain (value : SettingValue) (kind : SettingKind) : Prop where
  hasKind : value.HasKind kind
  entries : ∀ entry ∈ value.entries, IsEntry entry.toList

variable {kind : SettingKind} {near far : Option SettingValue} {value : SettingValue}

theorem IsPlain.combine (hnear : ∀ v ∈ near, v.IsPlain kind) (hfar : ∀ v ∈ far, v.IsPlain kind)
    (h : SettingValue.combine near far = some value) : value.IsPlain kind := by
  rcases combine_cases h with hown | hinherited | ⟨own, inherited, rfl, rfl, rfl⟩
  · exact hnear value hown
  · exact hfar value hinherited
  · have hown := hnear _ rfl
    have hinherited := hfar _ rfl
    refine ⟨hasKind_list_iff.2 (hasKind_list_iff.1 hown.hasKind), fun entry hentry => ?_⟩
    rcases List.mem_append.1 hentry with hentry | hentry
    · exact hown.entries entry hentry
    · exact hinherited.entries entry hentry

end SettingValue

namespace SettingKey

variable {key : SettingKey} {value : SettingValue}

theorem read_hasKind (key : SettingKey) (raw : String) :
    (key.read raw).value.HasKind key.kind := by
  unfold read
  generalize key.kind = kind
  cases kind with
  | bool =>
      simp only
      split <;> exact trivial
  | choice first others =>
      simp only
      split
      · next hmem => exact hmem
      · exact List.mem_cons_self
  | warningLevel =>
      simp only
      split <;> exact trivial
  | text => exact trivial
  | list => exact trivial

theorem isPlain_read (key : SettingKey) (raw : String) :
    (key.read raw).value.IsPlain key.kind := by
  refine ⟨key.read_hasKind raw, fun entry hentry => ?_⟩
  by_cases hkind : key.kind = .list
  · rw [read_list hkind] at hentry
    exact isEntry_of_mem_splitList hentry
  · rw [SettingValue.entries_eq_nil (key.read_hasKind raw) hkind] at hentry
    cases hentry

theorem Arises.isPlain (h : key.Arises value) : value.IsPlain key.kind := by
  induction h with
  | read raw => exact key.isPlain_read raw
  | merged _ _ h ihnear ihfar => exact .combine ihnear ihfar h

/-! ## Reading back -/

theorem trimmed_choice : ∀ key : SettingKey, ∀ value ∈ key.kind.choices,
    Text.trimmed value = value := by
  decide

theorem parseBool?_written (b : Bool) :
    parseBool? (Text.trimmed (SettingValue.bool b).written) = some b := by
  cases b <;> decide

theorem parse?_written (level : WarningLevel) :
    WarningLevel.parse? (Text.trimmed level.name) = some level := by
  cases level <;> decide

theorem read_written (h : value.IsPlain key.kind) : key.read value.written = pure value := by
  have hkind := h.hasKind
  cases value with
  | bool b =>
      cases hkey : key.kind <;> simp only [hkey, SettingValue.HasKind] at hkind
      simp [read, hkey, parseBool?_written]
  | choice value =>
      cases hkey : key.kind <;> simp only [hkey, SettingValue.HasKind] at hkind
      next first others =>
      have htrimmed := trimmed_choice key value (by simpa [hkey, SettingKind.choices] using hkind)
      simp [read, hkey, SettingValue.written, htrimmed, List.mem_cons.1 hkind]
  | warningLevel level =>
      cases hkey : key.kind <;> simp only [hkey, SettingValue.HasKind] at hkind
      simp [read, hkey, SettingValue.written, parse?_written]
  | text value =>
      cases hkey : key.kind <;> simp only [hkey, SettingValue.HasKind] at hkind
      simp [read, hkey, SettingValue.written]
  | list entries =>
      cases hkey : key.kind <;> simp only [hkey, SettingValue.HasKind] at hkind
      have hentries : ∀ entry ∈ entries, IsEntry entry.toList := h.entries
      rw [read_list hkey, SettingValue.written, splitList_intercalate hentries]

/-- Whatever a setting gets from texts is read back from its written form without a report. -/
theorem read_written_of_arises (h : key.Arises value) :
    (key.read value.written).value = value ∧ (key.read value.written).problems = [] := by
  rw [read_written h.isPlain]
  exact ⟨rfl, rfl⟩

theorem read_written_of_arises_merged :
    Arises 13 (.list ["A", "B c", "C"]) ∧
      (read 13 (SettingValue.list ["A", "B c", "C"]).written).value = .list ["A", "B c", "C"] ∧
      (read 13 (SettingValue.list ["A", "B c", "C"]).written).problems = [] := by
  have hkind : kind 13 = .list := rfl
  have hnear : (read 13 " A ;,\u3000B c\n").value = .list ["A", "B c"] := by
    rw [read_list hkind]
    cbv
  have hfar : (read 13 ";C\t,,").value = .list ["C"] := by
    rw [read_list hkind]
    cbv
  have hcombine : SettingValue.combine (some (read 13 " A ;,\u3000B c\n").value)
      (some (read 13 ";C\t,,").value) = some (.list ["A", "B c", "C"]) := by
    rw [hnear, hfar]
    rfl
  have harises : Arises 13 (.list ["A", "B c", "C"]) :=
    .merged (fun v hv => Option.some.inj hv ▸ .read _) (fun v hv => Option.some.inj hv ▸ .read _)
      hcombine
  exact ⟨harises, read_written_of_arises harises⟩

end SettingKey

end SolutionPlan
