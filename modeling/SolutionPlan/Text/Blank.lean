/-!
# Blank characters

The white space of Unicode, and texts with the blanks at both ends removed.
Trimming removes nothing else, and a trimmed text neither starts nor ends with a blank.
-/

namespace SolutionPlan.Text

/-- The characters with the Unicode property `White_Space`. -/
def isBlank (c : Char) : Bool :=
  ('\t' ≤ c && c ≤ '\r') || c == ' ' || c == '\u0085' || c == '\u00a0' || c == '\u1680' ||
    ('\u2000' ≤ c && c ≤ '\u200a') || c == '\u2028' || c == '\u2029' || c == '\u202f' ||
    c == '\u205f' || c == '\u3000'

def trimStart (s : List Char) : List Char := s.dropWhile isBlank

def trimEnd (s : List Char) : List Char := (s.reverse.dropWhile isBlank).reverse

def trim (s : List Char) : List Char := trimEnd (trimStart s)

def trimmed (s : String) : String := String.ofList (trim s.toList)

theorem trimStart_eq_self {s : List Char} (h : ∀ c ∈ s.head?, isBlank c = false) :
    trimStart s = s := by
  cases s with
  | nil => rfl
  | cons c s => simp [trimStart, h c (by simp)]

theorem trimEnd_eq_self {s : List Char} (h : ∀ c ∈ s.getLast?, isBlank c = false) :
    trimEnd s = s := by
  have := trimStart_eq_self (s := s.reverse) (by simpa using h)
  unfold trimStart at this
  simp [trimEnd, this]

theorem trim_eq_self {s : List Char} (hhead : ∀ c ∈ s.head?, isBlank c = false)
    (hlast : ∀ c ∈ s.getLast?, isBlank c = false) : trim s = s := by
  rw [trim, trimStart_eq_self hhead, trimEnd_eq_self hlast]

/-! ## Trimmed texts -/

structure IsTrimmed (s : List Char) : Prop where
  head : ∀ c ∈ s.head?, isBlank c = false
  last : ∀ c ∈ s.getLast?, isBlank c = false

theorem IsTrimmed.trim_eq {s : List Char} (h : IsTrimmed s) : trim s = s :=
  trim_eq_self h.head h.last

theorem head_trimStart (s : List Char) : ∀ c ∈ (trimStart s).head?, isBlank c = false := by
  intro c hc
  have hhead := List.head?_dropWhile_not isBlank s
  rw [trimStart] at hc
  rwa [hc] at hhead

theorem trimEnd_prefix_self (s : List Char) : trimEnd s <+: s := by
  rw [← List.reverse_suffix]
  simpa [trimEnd] using List.dropWhile_suffix isBlank (l := s.reverse)

theorem isTrimmed_trim (s : List Char) : IsTrimmed (trim s) where
  head := by
    intro c hc
    obtain ⟨rest, hrest⟩ := trimEnd_prefix_self (trimStart s)
    apply head_trimStart s c
    rw [← hrest, List.head?_append]
    exact Option.or_eq_some_iff.2 (.inl hc)
  last := by
    intro c hc
    apply head_trimStart (trimStart s).reverse c
    simpa [trim, trimEnd, trimStart] using hc

theorem trim_infix (s : List Char) : trim s <:+: s :=
  (trimEnd_prefix_self (trimStart s)).isInfix.trans (List.dropWhile_suffix isBlank).isInfix

end SolutionPlan.Text
