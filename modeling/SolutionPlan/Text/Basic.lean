import SolutionPlan.Text.Blank

/-!
# Operations on texts

Splitting at separators, equality up to ASCII case, and substitution: one pass from left to right
that replaces some spans and copies every other character.
-/

namespace SolutionPlan.Text

/-! ## Splitting -/

/-- The pieces between the characters that satisfy `sep`; there is always at least one piece. -/
def splitWhere (sep : Char → Bool) : List Char → List (List Char)
  | [] => [[]]
  | c :: s =>
      if sep c then [] :: splitWhere sep s
      else
        match splitWhere sep s with
        | [] => [[c]]
        | piece :: pieces => (c :: piece) :: pieces

def cutAt? (sep : Char) (s : List Char) : Option (List Char × List Char) :=
  match s.dropWhile (· != sep) with
  | [] => none
  | _ :: rest => some (s.takeWhile (· != sep), rest)

theorem cutAt?_append {sep : Char} {before : List Char} (h : sep ∉ before) (after : List Char) :
    cutAt? sep (before ++ sep :: after) = some (before, after) := by
  have hall : ∀ c ∈ before, (c != sep) = true := by
    intro c hc
    simpa using fun hsame : c = sep => h (hsame ▸ hc)
  rw [cutAt?, List.dropWhile_append_of_pos hall, List.takeWhile_append_of_pos hall]
  simp

theorem cutAt?_of_not_mem {sep : Char} {s : List Char} (h : sep ∉ s) : cutAt? sep s = none := by
  have hall : ∀ c ∈ s, (c != sep) = true := by
    intro c hc
    simpa using fun hsame : c = sep => h (hsame ▸ hc)
  have hdrop : (s ++ []).dropWhile (· != sep) = [] := List.dropWhile_append_of_pos hall
  rw [List.append_nil] at hdrop
  rw [cutAt?, hdrop]

def joinWith (sep : Char) : List (List Char) → List Char
  | [] => []
  | [piece] => piece
  | piece :: pieces => piece ++ sep :: joinWith sep pieces

theorem splitWhere_ne_nil (sep : Char → Bool) (s : List Char) : splitWhere sep s ≠ [] := by
  cases s with
  | nil => simp [splitWhere]
  | cons c s =>
      simp only [splitWhere]
      split
      · simp
      · split <;> simp

theorem splitWhere_of_none {sep : Char → Bool} {s : List Char} (h : ∀ c ∈ s, sep c = false) :
    splitWhere sep s = [s] := by
  induction s with
  | nil => rfl
  | cons c s ih =>
      simp [splitWhere, h c (by simp), ih (fun d hd => h d (by simp [hd]))]

theorem splitWhere_append_sep {sep : Char → Bool} {p : List Char} {c : Char} (s : List Char)
    (hp : ∀ d ∈ p, sep d = false) (hc : sep c = true) :
    splitWhere sep (p ++ c :: s) = p :: splitWhere sep s := by
  induction p with
  | nil => simp [splitWhere, hc]
  | cons d p ih =>
      simp [splitWhere, hp d (by simp), ih (fun e he => hp e (by simp [he]))]

theorem splitWhere_pieces {sep : Char → Bool} {s piece : List Char}
    (h : piece ∈ splitWhere sep s) : ∀ c ∈ piece, sep c = false := by
  induction s generalizing piece with
  | nil =>
      simp only [splitWhere, List.mem_singleton] at h
      simp [h]
  | cons c s ih =>
      simp only [splitWhere] at h
      split at h
      · rcases List.mem_cons.1 h with rfl | h
        · simp
        · exact ih h
      · next hc =>
        split at h
        · next hs => exact absurd hs (splitWhere_ne_nil sep s)
        · next p ps hs =>
          rcases List.mem_cons.1 h with rfl | h
          · intro d hd
            rcases List.mem_cons.1 hd with rfl | hd
            · simpa using hc
            · exact ih (hs ▸ List.mem_cons_self ..) d hd
          · exact ih (hs ▸ List.mem_cons_of_mem _ h)

theorem splitWhere_joinWith {sep : Char} {pieces : List (List Char)} (hne : pieces ≠ [])
    (h : ∀ piece ∈ pieces, sep ∉ piece) :
    splitWhere (· == sep) (joinWith sep pieces) = pieces := by
  induction pieces with
  | nil => exact absurd rfl hne
  | cons piece pieces ih =>
      have hpiece : ∀ c ∈ piece, (c == sep) = false := fun c hc => by
        have hsep := h piece (by simp)
        simp only [beq_eq_false_iff_ne, ne_eq]
        exact fun he => hsep (he ▸ hc)
      cases pieces with
      | nil => simpa [joinWith] using splitWhere_of_none hpiece
      | cons next rest =>
          rw [joinWith, splitWhere_append_sep _ hpiece (by simp),
            ih (by simp) (fun p hp => h p (by simp [hp]))]
          simp

theorem joinWith_cons (sep : Char) (piece : List Char) {pieces : List (List Char)}
    (h : pieces ≠ []) : joinWith sep (piece :: pieces) = piece ++ sep :: joinWith sep pieces := by
  cases pieces with
  | nil => exact absurd rfl h
  | cons next rest => rfl

theorem joinWith_splitWhere (sep : Char) (s : List Char) :
    joinWith sep (splitWhere (· == sep) s) = s := by
  induction s with
  | nil => rfl
  | cons c s ih =>
      rw [splitWhere]
      split
      · next hc =>
        rw [joinWith_cons sep [] (splitWhere_ne_nil _ s), ih, beq_iff_eq.1 hc]
        rfl
      · cases hsplit : splitWhere (· == sep) s with
        | nil => exact absurd hsplit (splitWhere_ne_nil _ s)
        | cons piece pieces =>
            rw [hsplit] at ih
            rw [← ih]
            cases pieces <;> rfl

theorem joinWith_append (sep : Char) {front back : List (List Char)} (hfront : front ≠ [])
    (hback : back ≠ []) :
    joinWith sep (front ++ back) = joinWith sep front ++ sep :: joinWith sep back := by
  induction front with
  | nil => exact absurd rfl hfront
  | cons piece rest ih =>
      cases rest with
      | nil => exact joinWith_cons sep piece hback
      | cons next more =>
          rw [List.cons_append, joinWith_cons sep piece (by simp), ih (by simp),
            joinWith_cons sep piece (by simp), List.append_assoc, List.cons_append]

/-! ## ASCII case -/

/-- Equality that takes an ASCII letter for its other case. -/
def sameIgnoringCase (a b : String) : Bool :=
  a.toList.map Char.toLower == b.toList.map Char.toLower

/-! ## Substitution -/

/-- One pass from left to right. Where `rule` gives `(n, text)`, the character there and the `n`
that follow it are replaced by `text`; any other character is copied. The number counts the
characters still to be skipped. -/
def substituteFrom (rule : List Char → Option (Nat × List Char)) : Nat → List Char → List Char
  | _, [] => []
  | skip + 1, _ :: s => substituteFrom rule skip s
  | 0, c :: s =>
      match rule (c :: s) with
      | some (n, text) => text ++ substituteFrom rule n s
      | none => c :: substituteFrom rule 0 s

def substitute (rule : List Char → Option (Nat × List Char)) (s : List Char) : List Char :=
  substituteFrom rule 0 s

theorem substituteFrom_eq_drop (rule : List Char → Option (Nat × List Char)) (n : Nat)
    (s : List Char) : substituteFrom rule n s = substitute rule (s.drop n) := by
  induction n generalizing s with
  | zero => rfl
  | succ n ih =>
      cases s with
      | nil => rfl
      | cons c s => simpa [substituteFrom] using ih s

section Substitute

variable {rule : List Char → Option (Nat × List Char)} {c : Char} {s : List Char}

theorem substitute_cons_of_none (h : rule (c :: s) = none) :
    substitute rule (c :: s) = c :: substitute rule s := by
  simp [substitute, substituteFrom, h]

theorem substitute_cons_of_some {n : Nat} {text : List Char} (h : rule (c :: s) = some (n, text)) :
    substitute rule (c :: s) = text ++ substitute rule (s.drop n) := by
  rw [← substituteFrom_eq_drop]
  simp [substitute, substituteFrom, h]

theorem substitute_append_of_forall {w : List Char}
    (h : ∀ rest ≠ [], rest <:+ w → rule (rest ++ s) = none) :
    substitute rule (w ++ s) = w ++ substitute rule s := by
  induction w with
  | nil => rfl
  | cons c w ih =>
      have hhere : rule (c :: (w ++ s)) = none := h (c :: w) (by simp) (List.suffix_refl _)
      have hlater := ih fun rest hne hsuffix => h rest hne (hsuffix.trans (List.suffix_cons c w))
      rw [List.cons_append, substitute_cons_of_none hhere, hlater, List.cons_append]

end Substitute

/-- Every occurrence of `pattern`, from left to right and without overlap, becomes `text`. -/
def replace (pattern text : List Char) (s : List Char) : List Char :=
  substitute (fun rest =>
    if pattern.isPrefixOf rest then some (pattern.length - 1, text) else none) s

def occurs (pattern : List Char) : List Char → Bool
  | [] => pattern.isEmpty
  | c :: s => pattern.isPrefixOf (c :: s) || occurs pattern s

def replaceChar (a b : Char) (s : List Char) : List Char := s.map fun c => if c = a then b else c

end SolutionPlan.Text
