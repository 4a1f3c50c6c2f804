import SolutionPlan.Text.CaseTable

/-!
# Full lower case

Lower case by the Unicode rules: one character at a time, except that a capital sigma at the end of
a word becomes the final form of that letter, and a dotted capital I becomes two characters.
-/

namespace SolutionPlan.Text

private def inRanges (ranges : List (Nat × Nat)) (c : Char) : Bool :=
  ranges.any fun r => r.1 ≤ c.toNat && c.toNat ≤ r.2

def isCased (c : Char) : Bool := inRanges casedRanges c

def isCaseIgnorable (c : Char) : Bool := inRanges caseIgnorableRanges c

def lowerChar (c : Char) : List Char :=
  if c = '\u0130' then ['i', '\u0307']
  else
    match lowercaseRanges.find? fun r =>
        r.first ≤ c.toNat && c.toNat ≤ r.last && (c.toNat - r.first) % r.stride == 0 with
    | some r => [Char.ofNat (c.toNat + r.shift).toNat]
    | none => [c]

/-- The nearest character that is not case-ignorable is cased. -/
def nextIsCased (s : List Char) : Bool :=
  match s.dropWhile isCaseIgnorable with
  | [] => false
  | c :: _ => isCased c

/-- The lower case of a text whose preceding characters, nearest first, are `before`. -/
def lowerAfter (before : List Char) : List Char → List Char
  | [] => []
  | c :: s =>
      (if c = 'Σ' then
        if nextIsCased before && !nextIsCased s then ['ς'] else ['σ']
      else lowerChar c) ++ lowerAfter (c :: before) s

def lowercase (s : String) : String := String.ofList (lowerAfter [] s.toList)

/-! ## Slashes -/

theorem slash_lt_of_mem_lowercaseRanges :
    ∀ r ∈ lowercaseRanges, ('/'.toNat : Int) < r.first + r.shift := by
  decide +kernel

private theorem toNat_ofNat (n : Nat) : (Char.ofNat n).toNat = n ∨ (Char.ofNat n).toNat = 0 := by
  by_cases h : n.isValidChar
  · rw [Char.ofNat, dif_pos h]
    exact .inl rfl
  · rw [Char.ofNat, dif_neg h]
    exact .inr rfl

theorem eq_of_slash_mem_lowerChar {c : Char} (h : '/' ∈ lowerChar c) : c = '/' := by
  unfold lowerChar at h
  split at h
  · simp at h
  · split at h
    · next r hr =>
        have hrange := List.find?_some hr
        simp only [Bool.and_eq_true, decide_eq_true_eq] at hrange
        have habove := slash_lt_of_mem_lowercaseRanges r (List.mem_of_find?_eq_some hr)
        have hcode := congrArg Char.toNat (List.mem_singleton.1 h)
        rcases toNat_ofNat (c.toNat + r.shift).toNat with hvalid | hinvalid
        · omega
        · rw [hinvalid] at hcode
          cases hcode
    · exact (List.mem_singleton.1 h).symm

theorem slash_mem_of_mem_lowerAfter {before s : List Char} (h : '/' ∈ lowerAfter before s) :
    '/' ∈ s := by
  induction s generalizing before with
  | nil => exact h
  | cons c s ih =>
      rw [lowerAfter, List.mem_append] at h
      rcases h with h | h
      · split at h
        · split at h <;> simp at h
        · rw [eq_of_slash_mem_lowerChar h]
          exact List.mem_cons_self
      · exact List.mem_cons_of_mem c (ih h)

theorem slash_mem_of_mem_lowercase {s : String} (h : '/' ∈ (lowercase s).toList) :
    '/' ∈ s.toList := by
  unfold lowercase at h
  rw [String.toList_ofList] at h
  exact slash_mem_of_mem_lowerAfter h

end SolutionPlan.Text
