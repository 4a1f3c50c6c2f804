import Mathlib.Data.List.Infix
import SolutionPlan.Text.Basic

/-!
# Pieces of texts

Splitting at a separator and joining are inverse to each other, so what stands in front of a
separator is some of the pieces. What has no separator in it stands in one of the pieces, and two
separators meet only where a piece is empty.
-/

namespace SolutionPlan.Text

variable {sep : Char} {pattern : List Char}

/-! ## Joining and splitting -/

theorem joinWith_eq_intercalate (sep : Char) (pieces : List (List Char)) :
    joinWith sep pieces = [sep].intercalate pieces := by
  induction pieces with
  | nil => rfl
  | cons piece rest ih =>
      cases rest with
      | nil => simp [joinWith]
      | cons next more =>
          rw [joinWith_cons sep piece (List.cons_ne_nil _ _), ih, List.intercalate_cons_cons,
            List.append_assoc, List.singleton_append]

theorem splitWhere_append (isSep : Char → Bool) {c : Char} (hc : isSep c = true)
    (s t : List Char) :
    splitWhere isSep (s ++ c :: t) = splitWhere isSep s ++ splitWhere isSep t := by
  induction s with
  | nil => simp [splitWhere, hc]
  | cons d s ih =>
      rw [List.cons_append, splitWhere, splitWhere, ih]
      by_cases hd : isSep d = true
      · rw [if_pos hd, if_pos hd, List.cons_append]
      · rw [if_neg hd, if_neg hd]
        cases hs : splitWhere isSep s with
        | nil => exact absurd hs (splitWhere_ne_nil _ s)
        | cons piece pieces => rfl

/-- Another separator that is not in the text yet separates the same pieces. -/
theorem splitWhere_replaceChar {other : Char} {s : List Char} (h : other ∉ s) :
    splitWhere (· == other) (replaceChar sep other s) = splitWhere (· == sep) s := by
  induction s with
  | nil => rfl
  | cons c s ih =>
      rw [List.mem_cons, not_or] at h
      have hcons : replaceChar sep other (c :: s) =
          (if c = sep then other else c) :: replaceChar sep other s := rfl
      rw [hcons, splitWhere, splitWhere, ih h.2]
      by_cases hc : c = sep
      · simp [hc]
      · simp [hc, Ne.symm h.1]

theorem exists_take_of_joinWith_eq {pieces : List (List Char)} (h : ∀ piece ∈ pieces, sep ∉ piece)
    {front back : List Char} (heq : joinWith sep pieces = front ++ sep :: back) :
    ∃ k, 0 < k ∧ k < pieces.length ∧ front = joinWith sep (pieces.take k) := by
  have hne : pieces ≠ [] := by
    rintro rfl
    simp [joinWith] at heq
  have hpieces : pieces = splitWhere (· == sep) front ++ splitWhere (· == sep) back := by
    rw [← splitWhere_append (· == sep) (beq_self_eq_true sep), ← heq, splitWhere_joinWith hne h]
  have hfront := List.length_pos_of_ne_nil (splitWhere_ne_nil (· == sep) front)
  have hback := List.length_pos_of_ne_nil (splitWhere_ne_nil (· == sep) back)
  refine ⟨(splitWhere (· == sep) front).length, hfront, ?_, ?_⟩
  · rw [hpieces, List.length_append]
    omega
  · rw [hpieces, List.take_left, joinWith_splitWhere]

/-! ## What stands in a text -/

theorem prefix_of_prefix_append_cons (hsep : sep ∉ pattern) {s t : List Char}
    (h : pattern <+: s ++ sep :: t) : pattern <+: s := by
  rcases List.prefix_or_prefix_of_prefix h (List.prefix_append s _) with hs | ⟨rest, rfl⟩
  · exact hs
  · cases rest with
    | nil => simp
    | cons c rest =>
        rw [List.prefix_append_right_inj] at h
        obtain ⟨rfl, -⟩ := List.cons_prefix_cons.1 h
        exact absurd (by simp) hsep

theorem infix_or_infix_of_append_cons (hsep : sep ∉ pattern) {s t : List Char}
    (h : pattern <:+: s ++ sep :: t) : pattern <:+: s ∨ pattern <:+: t := by
  induction s with
  | nil =>
      rcases List.infix_cons_iff.1 h with hstart | hlater
      · have hnil := prefix_of_prefix_append_cons (s := []) hsep hstart
        exact .inl hnil.isInfix
      · exact .inr hlater
  | cons c s ih =>
      rcases List.infix_cons_iff.1 h with hstart | hlater
      · exact .inl (prefix_of_prefix_append_cons hsep hstart).isInfix
      · exact (ih hlater).imp_left fun hs => hs.trans (List.suffix_cons c s).isInfix

theorem exists_infix_of_infix_joinWith (hsep : sep ∉ pattern) (hne : pattern ≠ [])
    {pieces : List (List Char)} (h : pattern <:+: joinWith sep pieces) :
    ∃ piece ∈ pieces, pattern <:+: piece := by
  induction pieces with
  | nil => exact absurd (List.infix_nil.1 h) hne
  | cons piece rest ih =>
      cases rest with
      | nil => exact ⟨piece, List.mem_cons_self, h⟩
      | cons next more =>
          rcases infix_or_infix_of_append_cons hsep h with hpiece | hrest
          · exact ⟨piece, List.mem_cons_self, hpiece⟩
          · obtain ⟨other, hother, hin⟩ := ih hrest
            exact ⟨other, List.mem_cons_of_mem piece hother, hin⟩

theorem infix_joinWith_of_mem {piece : List Char} {pieces : List (List Char)}
    (h : piece ∈ pieces) : piece <:+: joinWith sep pieces := by
  induction pieces with
  | nil => cases h
  | cons first rest ih =>
      cases rest with
      | nil =>
          obtain rfl := List.mem_singleton.1 h
          exact List.infix_rfl
      | cons next more =>
          rcases List.mem_cons.1 h with rfl | hrest
          · exact (List.prefix_append piece _).isInfix
          · have hlater : joinWith sep (next :: more) <:+ joinWith sep (first :: next :: more) :=
              ⟨first ++ [sep], by simp [joinWith]⟩
            exact (ih hrest).trans hlater.isInfix

/-- Two separators do not meet if only the first piece may be empty. -/
theorem not_infix_joinWith {pieces : List (List Char)} (h : ∀ piece ∈ pieces, sep ∉ piece)
    (hne : ∀ piece ∈ pieces.tail, piece ≠ []) : ¬ [sep, sep] <:+: joinWith sep pieces := by
  rintro ⟨front, back, heq⟩
  rw [List.append_assoc, List.cons_append, List.singleton_append] at heq
  have hpieces : pieces ≠ [] := by
    rintro rfl
    simp [joinWith] at heq
  -- Splitting at both separators leaves an empty piece between them.
  have hback : splitWhere (· == sep) (sep :: back) = [] :: splitWhere (· == sep) back :=
    splitWhere_append (· == sep) (beq_self_eq_true sep) [] back
  have hsplit : pieces = splitWhere (· == sep) front ++ [] :: splitWhere (· == sep) back := by
    rw [← hback, ← splitWhere_append (· == sep) (beq_self_eq_true sep), heq,
      splitWhere_joinWith hpieces h]
  obtain ⟨first, rest, hfront⟩ := List.exists_cons_of_ne_nil (splitWhere_ne_nil (· == sep) front)
  rw [hfront, List.cons_append] at hsplit
  exact hne [] (by simp [hsplit]) rfl

theorem replace_eq_self {text s : List Char} (h : ¬ pattern <:+: s) :
    replace pattern text s = s := by
  unfold replace
  induction s with
  | nil => rfl
  | cons c s ih =>
      rw [List.infix_cons_iff, not_or] at h
      rw [substitute_cons_of_none, ih h.2]
      exact if_neg fun hstart => h.1 (List.isPrefixOf_iff_prefix.1 hstart)

end SolutionPlan.Text
