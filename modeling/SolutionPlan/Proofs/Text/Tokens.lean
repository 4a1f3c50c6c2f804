import SolutionPlan.Proofs.Text.Pieces

/-!
# Tokens

A text with tokens can be expanded in one pass, or by a replacement for each token in turn. The
later replacements search what came out of the earlier ones, so the two agree if no token stands in
the text of the single pass.
-/

namespace SolutionPlan.Text

/-- A name in brackets behind a dollar sign. -/
structure IsToken (token : List Char) : Prop where
  head : token.head? = some '$'
  last : token.getLast? = some ')'
  dollar : '$' ∉ token.tail
  bracket : ')' ∉ token.dropLast

instance (token : List Char) : Decidable (IsToken token) :=
  decidable_of_iff
    (token.head? = some '$' ∧ token.getLast? = some ')' ∧ '$' ∉ token.tail ∧ ')' ∉ token.dropLast)
    ⟨fun ⟨a, b, c, d⟩ => ⟨a, b, c, d⟩, fun ⟨a, b, c, d⟩ => ⟨a, b, c, d⟩⟩

abbrev Meaning := List Char × List Char

def tokenAt? (table : List Meaning) (s : List Char) : Option (Nat × List Char) :=
  table.findSome? fun m => if m.1.isPrefixOf s then some (m.1.length - 1, m.2) else none

/-- Each token becomes what it stands for, in one pass from left to right. -/
def expandTokens (table : List Meaning) (s : List Char) : List Char :=
  substitute (tokenAt? table) s

theorem replace_eq_expandTokens (m : Meaning) (s : List Char) :
    replace m.1 m.2 s = expandTokens [m] s := by
  have hrule : (fun rest => if m.1.isPrefixOf rest then some (m.1.length - 1, m.2) else none) =
      tokenAt? [m] := by
    funext rest
    unfold tokenAt?
    rw [List.findSome?_cons, List.findSome?_nil]
    split <;> rfl
  unfold replace expandTokens
  rw [hrule]

/-! ## Tokens in texts -/

namespace IsToken

variable {a b : List Char}

theorem eq_cons (h : IsToken a) : ∃ s, a = '$' :: s ∧ '$' ∉ s := by
  obtain ⟨s, rfl⟩ := List.head?_eq_some_iff.1 h.head
  exact ⟨s, rfl, h.dollar⟩

theorem ne_nil (h : IsToken a) : a ≠ [] := by
  obtain ⟨s, rfl, -⟩ := h.eq_cons
  exact List.cons_ne_nil _ _

private theorem eq_of_prefix_token (ha : IsToken a) (hb : IsToken b) (h : a <+: b) : a = b := by
  obtain ⟨rest, rfl⟩ := h
  rcases List.eq_nil_or_concat rest with rfl | ⟨front, c, rfl⟩
  · rw [List.append_nil]
  · obtain ⟨s, rfl⟩ := List.getLast?_eq_some_iff.1 ha.last
    have hbracket := hb.bracket
    rw [List.concat_eq_append, ← List.append_assoc, List.dropLast_concat] at hbracket
    exact absurd (by simp) hbracket

/-- No token is the start of another one. -/
theorem eq_of_begins (ha : IsToken a) (hb : IsToken b) {s : List Char} (h : a <+: b ++ s) :
    a = b := by
  rcases List.prefix_or_prefix_of_prefix h (List.prefix_append b s) with hab | hba
  · exact eq_of_prefix_token ha hb hab
  · exact (eq_of_prefix_token hb ha hba).symm

/-- Inside a token no other one starts. -/
theorem eq_of_begins_suffix (ha : IsToken a) (hb : IsToken b) {back s : List Char}
    (hne : back ≠ []) (hback : back <:+ b) (h : a <+: back ++ s) : a = b := by
  obtain ⟨t, rfl, -⟩ := ha.eq_cons
  obtain ⟨c, rest, rfl⟩ := List.exists_cons_of_ne_nil hne
  obtain ⟨rfl, -⟩ := List.cons_prefix_cons.1 h
  obtain ⟨front, rfl⟩ := hback
  cases front with
  | nil => exact ha.eq_of_begins hb h
  | cons d front => exact absurd (by simp) hb.dollar

end IsToken

/-! ## Expanding piece by piece -/

section Expand

variable {table front back : List Meaning}

theorem expandTokens_append_of_forall {w s : List Char}
    (h : ∀ rest ≠ [], rest <:+ w → ∀ m ∈ table, ¬ m.1 <+: rest ++ s) :
    expandTokens table (w ++ s) = w ++ expandTokens table s := by
  apply substitute_append_of_forall
  intro rest hne hsuffix
  unfold tokenAt?
  rw [List.findSome?_eq_none_iff]
  intro m hm
  rw [if_neg fun hprefix => h rest hne hsuffix m hm (List.isPrefixOf_iff_prefix.1 hprefix)]

theorem expandTokens_cons {c : Char} {s : List Char} (h : ∀ m ∈ table, ¬ m.1 <+: c :: s) :
    expandTokens table (c :: s) = c :: expandTokens table s := by
  apply expandTokens_append_of_forall (w := [c])
  intro rest hne hsuffix
  rcases List.suffix_cons_iff.1 hsuffix with rfl | hnil
  · exact h
  · exact absurd (List.suffix_nil.1 hnil) hne

theorem expandTokens_cons_of_ne (htable : ∀ m ∈ table, IsToken m.1) {c : Char} (hc : c ≠ '$')
    (s : List Char) : expandTokens table (c :: s) = c :: expandTokens table s := by
  apply expandTokens_cons
  intro m hm h
  obtain ⟨name, hname, -⟩ := (htable m hm).eq_cons
  rw [hname] at h
  exact hc (List.cons_prefix_cons.1 h).1.symm

theorem expandTokens_nil (s : List Char) : expandTokens [] s = s := by
  induction s with
  | nil => rfl
  | cons c s ih => rw [expandTokens_cons (by simp), ih]

theorem tokenAt?_token (htable : ∀ m ∈ table, IsToken m.1) {token : List Char}
    (htoken : IsToken token) (s : List Char) :
    tokenAt? table (token ++ s) =
      (table.lookup token).map fun value => (token.length - 1, value) := by
  unfold tokenAt?
  induction table with
  | nil => rfl
  | cons m rest ih =>
      have hrest := ih fun other hother => htable other (List.mem_cons_of_mem m hother)
      rw [List.findSome?_cons, List.lookup_cons, hrest]
      by_cases hm : m.1 = token
      · subst hm
        simp
      · have hnot : m.1.isPrefixOf (token ++ s) = false := by
          rw [← Bool.not_eq_true, List.isPrefixOf_iff_prefix]
          exact fun h => hm ((htable m List.mem_cons_self).eq_of_begins htoken h)
        simp [hnot, beq_false_of_ne (Ne.symm hm)]

theorem expandTokens_token (htable : ∀ m ∈ table, IsToken m.1) {token : List Char}
    (htoken : IsToken token) (s : List Char) :
    expandTokens table (token ++ s) =
      (table.lookup token).getD token ++ expandTokens table s := by
  cases hfound : table.lookup token with
  | some value =>
      obtain ⟨name, rfl, -⟩ := htoken.eq_cons
      have hrule := tokenAt?_token htable htoken s
      rw [hfound, Option.map_some, List.cons_append] at hrule
      rw [expandTokens, List.cons_append, substitute_cons_of_some hrule, ← expandTokens]
      simp
  | none =>
      rw [Option.getD_none]
      apply expandTokens_append_of_forall
      intro rest hne hsuffix m hm hprefix
      have hsame := (htable m hm).eq_of_begins_suffix htoken hne hsuffix hprefix
      rw [List.lookup_eq_none_iff] at hfound
      simpa [hsame] using hfound m hm

/-- A text is made of the tokens of a table and of characters at which none of them starts. -/
theorem tokens_induction {motive : List Char → Prop} (htable : ∀ m ∈ table, IsToken m.1)
    (nil : motive [])
    (token : ∀ m ∈ table, ∀ s, motive s → motive (m.1 ++ s))
    (char : ∀ c s, (∀ m ∈ table, ¬ m.1 <+: c :: s) → motive s → motive (c :: s))
    (s : List Char) : motive s := by
  induction hlength : s.length using Nat.strong_induction_on generalizing s with
  | _ n ih =>
      subst hlength
      by_cases hstart : ∃ m ∈ table, m.1 <+: s
      · obtain ⟨m, hm, rest, rfl⟩ := hstart
        have hshorter : rest.length < (m.1 ++ rest).length := by
          have hpos := List.length_pos_iff.2 (htable m hm).ne_nil
          rw [List.length_append]
          omega
        exact token m hm rest (ih _ hshorter rest rfl)
      · cases s with
        | nil => exact nil
        | cons c rest =>
            have hnone : ∀ m ∈ table, ¬ m.1 <+: c :: rest := fun m hm h => hstart ⟨m, hm, h⟩
            exact char c rest hnone (ih _ (by simp) rest rfl)

end Expand

/-! ## One pass and many -/

section Passes

variable {front back : List Meaning} (htable : ∀ m ∈ front ++ back, IsToken m.1)

include htable

/-- What stands in front of the next dollar sign after some of the passes stays there. -/
theorem prefix_expandTokens {u : List Char} (hu : '$' ∉ u) (w s : List Char)
    (h : u <+: w ++ expandTokens front s) : u <+: w ++ expandTokens (front ++ back) s := by
  have hfront : ∀ m ∈ front, IsToken m.1 := fun m hm => htable m (List.mem_append_left back hm)
  induction s using tokens_induction htable generalizing w with
  | nil => exact h
  | token m hm s ih =>
      have htoken := htable m hm
      rw [expandTokens_token hfront htoken] at h
      rw [expandTokens_token htable htoken, List.lookup_append]
      cases hfound : front.lookup m.1 with
      | some value =>
          rw [hfound, Option.getD_some, ← List.append_assoc] at h
          rw [Option.some_or, Option.getD_some, ← List.append_assoc]
          exact ih (w ++ value) h
      | none =>
          obtain ⟨name, hname, -⟩ := htoken.eq_cons
          rw [hfound, Option.getD_none, hname] at h
          exact (prefix_of_prefix_append_cons hu h).trans (List.prefix_append w _)
  | char c s hnone ih =>
      have hnoneFront : ∀ m ∈ front, ¬ m.1 <+: c :: s :=
        fun m hm => hnone m (List.mem_append_left back hm)
      rw [expandTokens_cons hnoneFront, List.append_cons] at h
      rw [expandTokens_cons hnone, List.append_cons]
      exact ih (w ++ [c]) h

/-- A token that starts in a piece which some of the passes leave starts there in the end. -/
theorem not_prefix_of_not_infix {token : List Char} (htoken : IsToken token) {w s : List Char}
    (hfree : ¬ token <:+: w ++ expandTokens (front ++ back) s) :
    ∀ rest ≠ [], rest <:+ w → ¬ token <+: rest ++ expandTokens front s := by
  intro rest hne hsuffix h
  obtain ⟨name, rfl, hname⟩ := htoken.eq_cons
  obtain ⟨c, rest, rfl⟩ := List.exists_cons_of_ne_nil hne
  obtain ⟨rfl, hbehind⟩ := List.cons_prefix_cons.1 h
  have hend := prefix_expandTokens htable hname rest s hbehind
  have hstart : '$' :: name <+: ('$' :: rest) ++ expandTokens (front ++ back) s :=
    List.cons_prefix_cons.2 ⟨rfl, hend⟩
  have hback : ('$' :: rest) ++ expandTokens (front ++ back) s <:+
      w ++ expandTokens (front ++ back) s := by
    obtain ⟨before, rfl⟩ := hsuffix
    exact ⟨before, by simp⟩
  exact hfree (hstart.isInfix.trans hback.isInfix)

end Passes

/-- One more pass. The token has no meaning in front of its own pass, and it is nowhere in the text
of the single pass. -/
theorem expandTokens_expandTokens {front back : List Meaning} {m : Meaning}
    (htable : ∀ other ∈ front ++ m :: back, IsToken other.1) {s : List Char}
    (hfree : ¬ m.1 <:+: expandTokens (front ++ m :: back) s) :
    expandTokens [m] (expandTokens front s) = expandTokens (front ++ [m]) s := by
  have hm : IsToken m.1 := htable m (by simp)
  have hfront : ∀ other ∈ front, IsToken other.1 := fun other h => htable other (by simp [h])
  have hnext : ∀ other ∈ front ++ [m], IsToken other.1 := by
    intro other h
    apply htable
    simp only [List.mem_append, List.mem_cons] at h ⊢
    tauto
  induction s using tokens_induction htable with
  | nil => rfl
  | token other hother s ih =>
      have htoken := htable other hother
      rw [expandTokens_token htable htoken] at hfree
      have hlater := ih fun h => hfree (h.trans (List.suffix_append _ _).isInfix)
      rw [expandTokens_token hfront htoken, expandTokens_token hnext htoken, List.lookup_append]
      rw [List.lookup_append] at hfree
      cases hfound : front.lookup other.1 with
      | some value =>
          rw [hfound, Option.some_or, Option.getD_some] at hfree
          have hclear := not_prefix_of_not_infix htable hm hfree
          rw [Option.some_or, Option.getD_some, ← hlater]
          apply expandTokens_append_of_forall
          simpa using hclear
      | none =>
          have hsingle : ∀ other ∈ [m], IsToken other.1 := by simpa using hm
          rw [Option.none_or, Option.getD_none, expandTokens_token hsingle htoken, hlater]
  | char c s hnone ih =>
      have hnoneFront : ∀ other ∈ front, ¬ other.1 <+: c :: s :=
        fun other h => hnone other (by simp [h])
      have hnoneNext : ∀ other ∈ front ++ [m], ¬ other.1 <+: c :: s := by
        intro other h
        apply hnone
        simp only [List.mem_append, List.mem_cons] at h ⊢
        tauto
      rw [expandTokens_cons hnone] at hfree
      have hlater := ih fun h => hfree (h.trans (List.suffix_cons c _).isInfix)
      have hclear := not_prefix_of_not_infix htable hm (w := [c]) hfree
      have hhere : ¬ m.1 <+: c :: expandTokens front s :=
        hclear [c] (List.cons_ne_nil c []) List.suffix_rfl
      rw [expandTokens_cons hnoneFront, expandTokens_cons hnoneNext, ← hlater]
      apply expandTokens_cons
      simpa using hhere

/-- After the first passes, which have come to the text of a single pass for their tokens, the
others come to that for all tokens. -/
theorem foldl_replace_expandTokens {front back : List Meaning}
    (htable : ∀ m ∈ front ++ back, IsToken m.1) {s : List Char}
    (hfree : ∀ m ∈ front ++ back, ¬ m.1 <:+: expandTokens (front ++ back) s) :
    back.foldl (fun s m => replace m.1 m.2 s) (expandTokens front s) =
      expandTokens (front ++ back) s := by
  induction back generalizing front with
  | nil => rw [List.append_nil, List.foldl_nil]
  | cons m back ih =>
      have hpass := expandTokens_expandTokens htable (hfree m (by simp))
      rw [List.append_cons] at htable hfree ⊢
      rw [List.foldl_cons, replace_eq_expandTokens, hpass]
      exact ih htable hfree

/-- The passes come to the text of the single pass if that has none of the tokens in it. -/
theorem foldl_replace {table : List Meaning} (htable : ∀ m ∈ table, IsToken m.1) {s : List Char}
    (hfree : ∀ m ∈ table, ¬ m.1 <:+: expandTokens table s) :
    table.foldl (fun s m => replace m.1 m.2 s) s = expandTokens table s := by
  rw [← List.nil_append table] at htable hfree
  have hall := foldl_replace_expandTokens htable hfree
  rwa [expandTokens_nil, List.nil_append] at hall

end SolutionPlan.Text
