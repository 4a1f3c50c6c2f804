import SolutionPlan.Proofs.Text.Pieces
import SolutionPlan.Setting.Value

/-!
# Texts of lists

A separator between two texts separates their entries and changes none of them. So the value that a
list has after merging is the one that is read from the joined texts, in whatever order the levels
are merged, and the written form of a list is read back as that list.
-/

namespace SolutionPlan

/-! ## Entries -/

/-- What stands for itself in the text of a list. -/
structure IsEntry (entry : List Char) : Prop where
  ne_nil : entry ≠ []
  separators : ∀ c ∈ entry, isListSeparator c = false
  trimmed : Text.IsTrimmed entry

variable {s entry : List Char} {c : Char}

theorem isListSeparator_iff : isListSeparator c = true ↔ c ∈ ['\n', ',', ';'] := by
  simp [isListSeparator, or_assoc]

theorem separators_iff :
    (∀ c ∈ s, isListSeparator c = false) ↔ ∀ c ∈ ['\n', ',', ';'], c ∉ s := by
  simp only [← isListSeparator_iff, ← Bool.not_eq_true]
  exact ⟨fun h c hc hmem => h c hmem hc, fun h c hmem hc => h c hc hmem⟩

theorem listEntries_append (hc : isListSeparator c = true) (s t : List Char) :
    listEntries (s ++ c :: t) = listEntries s ++ listEntries t := by
  simp [listEntries, Text.splitWhere_append isListSeparator hc]

theorem listEntries_of_separators (h : ∀ c ∈ s, isListSeparator c = false) :
    listEntries s = [Text.trim s].filter (· != []) := by
  rw [listEntries, Text.splitWhere_of_none h, List.map_singleton]

theorem IsEntry.listEntries_eq (h : IsEntry entry) : listEntries entry = [entry] := by
  rw [listEntries_of_separators h.separators, h.trimmed.trim_eq]
  simp [h.ne_nil]

theorem isEntry_of_mem_listEntries (h : entry ∈ listEntries s) : IsEntry entry := by
  simp only [listEntries, List.mem_filter, List.mem_map, bne_iff_ne] at h
  obtain ⟨⟨piece, hpiece, rfl⟩, hne⟩ := h
  refine ⟨hne, fun c hc => ?_, Text.isTrimmed_trim piece⟩
  exact Text.splitWhere_pieces hpiece c ((Text.trim_infix piece).mem hc)

/-! ## Texts -/

theorem splitList_push (hc : isListSeparator c = true) (a b : String) :
    splitList (a.push c ++ b) = splitList a ++ splitList b := by
  simp [splitList, listEntries_append hc]

theorem splitList_semicolon (a b : String) :
    splitList (a ++ ";" ++ b) = splitList a ++ splitList b := by
  rw [← splitList_push (c := ';') rfl]
  congr 1

theorem isEntry_of_mem_splitList {text entry : String} (h : entry ∈ splitList text) :
    IsEntry entry.toList := by
  obtain ⟨e, he, rfl⟩ := List.mem_map.1 h
  simpa using isEntry_of_mem_listEntries he

theorem IsEntry.splitList_eq {entry : String} (h : IsEntry entry.toList) :
    splitList entry = [entry] := by
  simp [splitList, h.listEntries_eq]

/-- The written form of a list has the entries of the list. -/
theorem splitList_intercalate {entries : List String} (h : ∀ e ∈ entries, IsEntry e.toList) :
    splitList (String.intercalate ";" entries) = entries := by
  induction entries with
  | nil => rfl
  | cons entry rest ih =>
      have hentry := (h entry (by simp)).splitList_eq
      cases rest with
      | nil => simpa using hentry
      | cons next more =>
          rw [String.intercalate_cons_cons, splitList_semicolon, hentry,
            ih fun e he => h e (by simp [he]), List.singleton_append]

/-! ## Levels -/

/-- The texts that the levels give to one setting, merged two at a time, the nearer one first. -/
inductive LevelTexts where
  | level (raw : String)
  | merged (near far : LevelTexts)

namespace LevelTexts

def text : LevelTexts → String
  | level raw => raw
  | merged near far => near.text ++ ";" ++ far.text

def value? (key : SettingKey) : LevelTexts → Option SettingValue
  | level raw => some (key.read raw).value
  | merged near far => SettingValue.combine (near.value? key) (far.value? key)

end LevelTexts

theorem SettingKey.read_list {key : SettingKey} (h : key.kind = .list) (raw : String) :
    key.read raw = pure (.list (splitList raw)) := by
  simp [read, h]

theorem LevelTexts.value?_eq {key : SettingKey} (h : key.kind = .list) (levels : LevelTexts) :
    levels.value? key = some (key.read levels.text).value := by
  induction levels with
  | level raw => rfl
  | merged near far ihnear ihfar =>
      simp [value?, text, ihnear, ihfar, SettingKey.read_list h, splitList_semicolon,
        SettingValue.combine]

/-- Lists are merged by joining their texts. What is between two separators is trimmed, and it is an
entry if anything is left. -/
theorem merging_joins_texts :
    (∀ near far : String, ∀ c ∈ ['\n', ',', ';'],
      splitList (near.push c ++ far) = splitList near ++ splitList far) ∧
    (∀ text : String, (∀ c ∈ ['\n', ',', ';'], c ∉ text.toList) →
      splitList text = [Text.trimmed text].filter (· ≠ "")) ∧
    (∀ text : String, ∀ entry ∈ splitList text, entry ≠ "" ∧
      (∀ c ∈ ['\n', ',', ';'], c ∉ entry.toList) ∧ Text.IsTrimmed entry.toList) ∧
    ∀ (key : SettingKey) (levels : LevelTexts), key.kind = .list →
      levels.value? key = some (key.read levels.text).value := by
  refine ⟨fun near far c hc => ?_, fun text hfree => ?_, fun text entry hentry => ?_, ?_⟩
  · exact splitList_push (isListSeparator_iff.2 hc) near far
  · rw [splitList, listEntries_of_separators (separators_iff.2 hfree)]
    by_cases hempty : Text.trim text.toList = [] <;> simp [Text.trimmed, hempty]
  · have hread := isEntry_of_mem_splitList hentry
    exact ⟨fun hempty => hread.ne_nil (by simp [hempty]), separators_iff.1 hread.separators,
      hread.trimmed⟩
  · exact fun key levels hkey => levels.value?_eq hkey

/-- Levels that say nothing but blanks and separators add nothing. -/
theorem merging_joins_texts_three :
    SettingKey.kind 13 = .list ∧
      LevelTexts.value? 13 (.merged (.merged (.level "A;") (.level "\u3000\n")) (.level " B ,C")) =
        some (SettingKey.read 13 "A;;\u3000\n; B ,C").value ∧
      splitList ("A;;\u3000\n".push ';' ++ " B ,C") = ["A"] ++ ["B", "C"] ∧
      splitList "\u3000B c\t" = ["B c"] ∧ Text.IsTrimmed "C".toList := by
  refine ⟨rfl, ?_, ?_, ?_, ?_⟩
  · exact merging_joins_texts.2.2.2 13
      (.merged (.merged (.level "A;") (.level "\u3000\n")) (.level " B ,C")) rfl
  · rw [merging_joins_texts.1 _ _ ';' (by decide)]
    cbv
  · rw [merging_joins_texts.2.1 _ (by simp)]
    cbv
  · have hentry : "C" ∈ splitList " B ,C" := by
      have hsplit : splitList " B ,C" = ["B", "C"] := by cbv
      simp [hsplit]
    exact (merging_joins_texts.2.2.1 _ "C" hentry).2.2

end SolutionPlan
