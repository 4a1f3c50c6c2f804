import SolutionPlan.Glob.Match

/-!
# Patterns behind a literal directory

An escaped text compiles to tokens that take this text only. A pattern that stands behind such a
text and a slash compiles to the same tokens as alone, but for a `**` that is left out directly
behind another one, and so it takes what the pattern takes behind the text.
-/

namespace SolutionPlan.Glob

/-! ## What a literal takes -/

def literalToken (c : Char) : Token := if isSpecial c then .oneOf [.char c] else .char c

def literal (s : List Char) : List Token := s.map literalToken

theorem slash_not_special : isSpecial '/' = false := by decide

theorem takes_literalToken {c d : Char} :
    (literalToken c).takes .sensitive d = true ↔ d = c := by
  unfold literalToken
  split
  · next hspecial =>
      have hslash : c ≠ '/' := by
        rintro rfl
        simp [slash_not_special] at hspecial
      simp only [Token.takes, List.any_cons, List.any_nil, Bool.or_false, ClassItem.holds,
        CaseRule.same, Bool.and_eq_true, bne_iff_ne, beq_iff_eq]
      constructor
      · exact fun h => h.2
      · rintro rfl
        exact ⟨hslash, rfl⟩
  · simp [Token.takes, CaseRule.same]

theorem matchTokens_literalToken (c : Char) (tokens : List Token) (u : List Char) :
    matchTokens .sensitive (literalToken c :: tokens) u = true ↔
      ∃ rest, u = c :: rest ∧ matchTokens .sensitive tokens rest = true := by
  have htakes := @takes_literalToken c
  cases hc : literalToken c with
  | anySequence | anyComponents | anyChar | noneOf items =>
      unfold literalToken at hc
      split at hc <;> cases hc
  | char _ | oneOf _ =>
      rw [hc] at htakes
      cases u with
      | nil => simp [matchTokens]
      | cons d u =>
          simp only [matchTokens, Bool.and_eq_true, htakes, List.cons.injEq]
          constructor
          · rintro ⟨rfl, hrest⟩
            exact ⟨u, ⟨rfl, rfl⟩, hrest⟩
          · rintro ⟨rest, ⟨rfl, rfl⟩, hrest⟩
            exact ⟨rfl, hrest⟩

theorem matchTokens_literal (s : List Char) (tokens : List Token) (u : List Char) :
    matchTokens .sensitive (literal s ++ tokens) u = true ↔
      ∃ rest, u = s ++ rest ∧ matchTokens .sensitive tokens rest = true := by
  induction s generalizing u with
  | nil => simp [literal]
  | cons c s ih =>
      have hcons : literal (c :: s) ++ tokens = literalToken c :: (literal s ++ tokens) := rfl
      rw [hcons, matchTokens_literalToken]
      constructor
      · rintro ⟨rest, rfl, hrest⟩
        obtain ⟨last, rfl, hlast⟩ := (ih rest).1 hrest
        exact ⟨last, rfl, hlast⟩
      · rintro ⟨last, rfl, hlast⟩
        exact ⟨s ++ last, rfl, (ih (s ++ last)).2 ⟨last, rfl, hlast⟩⟩

/-! ## Repeated `**` -/

theorem mem_afterSlashes {s r : List Char} :
    r ∈ afterSlashes s ↔ ∃ before, s = before ++ '/' :: r := by
  induction s with
  | nil => simp [afterSlashes]
  | cons c s ih =>
      have hlater : (∃ before, s = before ++ '/' :: r) →
          ∃ before, c :: s = before ++ '/' :: r := by
        rintro ⟨before, rfl⟩
        exact ⟨c :: before, rfl⟩
      have hcases : (∃ before, c :: s = before ++ '/' :: r) →
          (c = '/' ∧ r = s) ∨ ∃ before, s = before ++ '/' :: r := by
        rintro ⟨before, h⟩
        cases before with
        | nil => exact .inl ⟨(List.cons.inj h).1, (List.cons.inj h).2.symm⟩
        | cons d before => exact .inr ⟨before, (List.cons.inj h).2⟩
      rw [afterSlashes]
      split
      · next hc =>
          subst hc
          rw [List.mem_cons, ih]
          constructor
          · rintro (rfl | h)
            · exact ⟨[], rfl⟩
            · exact hlater h
          · intro h
            exact (hcases h).imp And.right id
      · next hc =>
          rw [ih]
          constructor
          · exact hlater
          · intro h
            exact (hcases h).resolve_left fun hslash => hc hslash.1

theorem mem_afterComponents {s r : List Char} :
    r ∈ afterComponents s ↔ r = s ∨ (∃ before, s = before ++ '/' :: r) ∨ r = [] := by
  simp [afterComponents, mem_afterSlashes]

theorem afterComponents_trans {s r q : List Char} (hr : r ∈ afterComponents s)
    (hq : q ∈ afterComponents r) : q ∈ afterComponents s := by
  rw [mem_afterComponents] at *
  rcases hq with rfl | ⟨between, rfl⟩ | rfl
  · exact hr
  · rcases hr with rfl | ⟨before, rfl⟩ | hnil
    · exact .inr (.inl ⟨between, rfl⟩)
    · exact .inr (.inl ⟨before ++ '/' :: between, by simp⟩)
    · simp at hnil
  · exact .inr (.inr rfl)

theorem matchTokens_anyComponents_twice (rule : CaseRule) (tokens : List Token) (u : List Char) :
    matchTokens rule (.anyComponents :: .anyComponents :: tokens) u =
      matchTokens rule (.anyComponents :: tokens) u := by
  rw [Bool.eq_iff_iff]
  simp only [matchTokens, List.any_eq_true]
  constructor
  · rintro ⟨r, hr, q, hq, hmatch⟩
    exact ⟨q, afterComponents_trans hr hq, hmatch⟩
  · rintro ⟨q, hq, hmatch⟩
    exact ⟨q, hq, q, mem_afterComponents.2 (.inl rfl), hmatch⟩

/-! ## Single wildcards -/

theorem matchTokens_anyComponents (rule : CaseRule) (u : List Char) :
    matchTokens rule [.anyComponents] u = true := by
  simp only [matchTokens, List.any_eq_true]
  exact ⟨[], mem_afterComponents.2 (.inr (.inr rfl)), rfl⟩

theorem matchTokens_anySequence_iff {rule : CaseRule} {u : List Char} :
    matchTokens rule [.anySequence] u = true ↔ '/' ∉ u := by
  simp only [matchTokens, List.any_eq_true, List.isEmpty_iff, exists_eq_right]
  induction u with
  | nil => simp [afterSequence]
  | cons c u ih =>
      rw [afterSequence]
      by_cases hc : c = '/'
      · simp [hc]
      · rw [if_neg hc, List.mem_cons, ih, List.mem_cons]
        simp [Ne.symm hc]

/-! ## Compiling an escaped text -/

theorem classToken?_escaped {c : Char} (hc : isSpecial c = true) (rest : List Char) :
    classToken? (c :: ']' :: rest) = some (.oneOf [.char c], rest) := by
  have hbang : c ≠ '!' := by
    rintro rfl
    exact absurd hc (by decide)
  have hcut : Text.cutAt? ']' (']' :: rest) = some ([], rest) := by
    simp [Text.cutAt?]
  unfold classToken?
  split
  · next heq => exact absurd (List.cons.inj heq).1 hbang
  · next heq => exact absurd (List.cons.inj heq).1 hbang
  · next heq =>
      obtain ⟨rfl, rfl⟩ := List.cons.inj heq
      simp [hcut, classItems]
  · next heq => cases heq

theorem compileFrom_class {rest after : List Char} {token : Token}
    (hclass : classToken? rest = some (token, after)) (position : Nat) (before : Option Char)
    (done : List Token) :
    compileFrom position before done ('[' :: rest) =
      compileFrom (position + 1 + (rest.length - after.length)) (some ']') (token :: done)
        after := by
  rw [compileFrom]
  split
  · next hread =>
      rw [hclass] at hread
      obtain ⟨rfl, rfl⟩ := Prod.mk.inj (Option.some.inj hread)
      rfl
  · next hread =>
      rw [hclass] at hread
      cases hread

theorem compileFrom_plain {c : Char} (hquestion : c ≠ '?') (hstar : c ≠ '*') (hbracket : c ≠ '[')
    (position : Nat) (before : Option Char) (done : List Token) (rest : List Char) :
    compileFrom position before done (c :: rest) =
      compileFrom (position + 1) (some c) (.char c :: done) rest := by
  rw [compileFrom.eq_def]
  split
  all_goals first
    | next heq => cases heq
    | next heq => obtain ⟨rfl, rfl⟩ := List.cons.inj heq; contradiction
    | skip
  next heq =>
    obtain ⟨rfl, rfl⟩ := List.cons.inj heq
    rfl

theorem compileFrom_escape (s rest : List Char) (position : Nat) (before : Option Char)
    (done : List Token) :
    ∃ position' before', compileFrom position before done (escape s ++ rest) =
      compileFrom position' before' ((literal s).reverse ++ done) rest := by
  induction s generalizing position before done with
  | nil => exact ⟨position, before, rfl⟩
  | cons c s ih =>
      have hreverse : (literal (c :: s)).reverse ++ done =
          (literal s).reverse ++ literalToken c :: done := by simp [literal]
      rw [hreverse]
      by_cases hc : isSpecial c = true
      · have htext : escape (c :: s) ++ rest = '[' :: c :: ']' :: (escape s ++ rest) := by
          simp [escape, hc]
        rw [htext, compileFrom_class (classToken?_escaped hc _), literalToken, if_pos hc]
        exact ih _ _ _
      · have htext : escape (c :: s) ++ rest = c :: (escape s ++ rest) := by
          simp [escape, hc]
        have hplain := hc
        simp only [isSpecial, Bool.or_eq_true, beq_iff_eq, not_or] at hplain
        rw [htext, compileFrom_plain hplain.1.1.1 hplain.1.1.2 hplain.1.2, literalToken, if_neg hc]
        exact ih _ _ _

/-! ## Compiling behind a directory

What is read behind a directory is compared with what is read of the pattern alone. The reversed
tokens end alike, unless the pattern starts with two `**`, of which only the pattern alone keeps
both. -/

/-- The reversed tokens `behind` are those of the pattern alone on top of `base`. -/
def StandsOn (base done behind : List Token) : Prop :=
  behind = done ++ base ∨
    ∃ later, done = later ++ [.anyComponents, .anyComponents] ∧
      behind = later ++ .anyComponents :: base

theorem StandsOn.cons {base done behind : List Token} (h : StandsOn base done behind)
    (token : Token) : StandsOn base (token :: done) (token :: behind) := by
  rcases h with rfl | ⟨later, rfl, rfl⟩
  · exact .inl rfl
  · exact .inr ⟨token :: later, rfl, rfl⟩

private theorem pushComponents_of_ne {token : Token} (h : token ≠ .anyComponents)
    (done : List Token) : pushComponents (token :: done) = .anyComponents :: token :: done := by
  unfold pushComponents
  split
  · next heq => exact absurd (List.cons.inj heq).1 h
  · rfl

theorem StandsOn.pushComponents {base : List Token} {done behind : List Token}
    (h : StandsOn (.char '/' :: base) done behind) :
    StandsOn (.char '/' :: base) (pushComponents done) (pushComponents behind) := by
  rcases h with rfl | ⟨later, rfl, rfl⟩
  · cases done with
    | nil => exact .inl rfl
    | cons top rest =>
        by_cases htop : top = .anyComponents
        · subst htop
          cases rest with
          | nil => exact .inr ⟨[], rfl, rfl⟩
          | cons next rest => exact .inl rfl
        · rw [List.cons_append, pushComponents_of_ne htop, pushComponents_of_ne htop]
          exact .inl rfl
  · cases later with
    | nil => exact .inr ⟨[], rfl, rfl⟩
    | cons top rest =>
        by_cases htop : top = .anyComponents
        · subst htop
          refine .inr ⟨.anyComponents :: rest, ?_, ?_⟩
          · cases rest <;> rfl
          · cases rest <;> rfl
        · rw [List.cons_append, List.cons_append, pushComponents_of_ne htop,
            pushComponents_of_ne htop]
          exact .inr ⟨.anyComponents :: top :: rest, rfl, rfl⟩

theorem compileFrom_standsOn {base : List Token} {position : Nat} {before : Option Char}
    {done : List Token} {s : List Char} {tokens : List Token}
    (h : compileFrom position before done s = .ok tokens) {position' : Nat}
    {before' : Option Char} {behind : List Token}
    (hbefore : (before' = none ∨ before' = some '/') ↔ (before = none ∨ before = some '/'))
    (hdone : StandsOn (.char '/' :: base) done behind) :
    ∃ all, compileFrom position' before' behind s = .ok all ∧
      StandsOn (.char '/' :: base) tokens.reverse all.reverse := by
  -- The induction follows the reader. Only a `**` looks at the tokens that were read before it.
  induction position, before, done, s using compileFrom.induct
    generalizing position' before' behind with
  | case1 position before done =>
      rw [compileFrom] at h
      obtain rfl := Except.ok.inj h
      exact ⟨behind.reverse, compileFrom.eq_1 .., by simpa using hdone⟩
  | case2 position before done rest ih =>
      rw [compileFrom] at h ⊢
      exact ih h Iff.rfl (hdone.cons .anyChar)
  | case3 position before done tail =>
      rw [compileFrom] at h
      cases h
  | case4 position before done hstart hnext =>
      rw [compileFrom, if_pos hstart] at h
      obtain rfl := Except.ok.inj h
      refine ⟨(pushComponents behind).reverse, ?_, by simpa using hdone.pushComponents⟩
      rw [compileFrom, if_pos (hbefore.2 hstart)]
  | case5 position before done hstart rest hnext ih =>
      rw [compileFrom.eq_5 _ _ _ _ _ hnext, if_pos hstart, if_pos rfl] at h
      rw [compileFrom.eq_5 _ _ _ _ _ hnext, if_pos (hbefore.2 hstart), if_pos rfl]
      exact ih h Iff.rfl hdone.pushComponents
  | case6 position before done hstart c rest hc hnext =>
      rw [compileFrom.eq_5 _ _ _ _ _ hnext, if_pos hstart, if_neg hc] at h
      cases h
  | case7 position before done rest hnext hstart =>
      cases rest with
      | nil =>
          rw [compileFrom.eq_4, if_neg hstart] at h
          cases h
      | cons c rest =>
          rw [compileFrom.eq_5 _ _ _ _ _ hnext, if_neg hstart] at h
          cases h
  | case8 position before done rest htwo hone ih =>
      rw [compileFrom.eq_6 _ _ _ _ htwo hone] at h ⊢
      exact ih h Iff.rfl (hdone.cons .anySequence)
  | case9 position before done rest token after hclass ih =>
      rw [compileFrom_class hclass] at h ⊢
      exact ih h Iff.rfl (hdone.cons token)
  | case10 position before done rest hclass =>
      rw [compileFrom] at h
      split at h
      · next hread =>
          rw [hclass] at hread
          cases hread
      · cases h
  | case11 position before done c rest hquestion hthree htwo hstar hbracket ih =>
      rw [compileFrom_plain hquestion hstar hbracket] at h ⊢
      exact ih h Iff.rfl (hdone.cons (.char c))

/-- What the pattern takes alone it takes behind a directory, and nothing else. -/
theorem compile_behind {s pattern : List Char} {tokens : List Token}
    (h : compile (String.ofList pattern) = .ok tokens) :
    ∃ all, compile (String.ofList (escape s ++ '/' :: pattern)) = .ok all ∧
      ∀ u, matchTokens .sensitive all u = true ↔
        ∃ rest, u = s ++ '/' :: rest ∧ matchTokens .sensitive tokens rest = true := by
  have hslash : literalToken '/' = .char '/' := rfl
  have hbase (more : List Token) (u : List Char) :
      matchTokens .sensitive ((.char '/' :: (literal s).reverse).reverse ++ more) u = true ↔
        ∃ rest, u = s ++ '/' :: rest ∧ matchTokens .sensitive more rest = true := by
    have hliteral : (.char '/' :: (literal s).reverse).reverse ++ more =
        literal (s ++ ['/']) ++ more := by simp [literal, hslash]
    rw [hliteral, matchTokens_literal]
    simp
  unfold compile at h ⊢
  rw [String.toList_ofList] at h ⊢
  obtain ⟨position, before, hescape⟩ := compileFrom_escape s ('/' :: pattern) 0 none []
  have hstart : StandsOn (.char '/' :: (literal s).reverse) [] (.char '/' :: (literal s).reverse) :=
    .inl rfl
  have hboundary : (some '/' = none ∨ some '/' = some '/') ↔
      ((none : Option Char) = none ∨ none = some '/') := by simp
  rw [hescape, List.append_nil, compileFrom_plain (by decide) (by decide) (by decide)]
  obtain ⟨all, hall, hstands⟩ := compileFrom_standsOn h hboundary hstart
  refine ⟨all, hall, ?_⟩
  intro u
  rcases hstands with hsame | ⟨later, htokens, hlater⟩
  · have hall : all = (.char '/' :: (literal s).reverse).reverse ++ tokens := by
      rw [← List.reverse_reverse all, hsame]
      simp
    rw [hall, hbase]
  · have hall : all = (.char '/' :: (literal s).reverse).reverse ++
        .anyComponents :: later.reverse := by
      rw [← List.reverse_reverse all, hlater]
      simp
    have htwice : tokens = .anyComponents :: .anyComponents :: later.reverse := by
      rw [← List.reverse_reverse tokens, htokens]
      simp
    rw [hall, hbase, htwice]
    simp only [matchTokens_anyComponents_twice]

end SolutionPlan.Glob
