import Mathlib.Data.List.Forall2
import SolutionPlan.Proofs.Glob.Literal

/-!
# Names with wildcards

In a name `*` stands for any characters, `?` for one and every other character for itself. Tokens
that read a name take such a text from the front, and never take a slash.
-/

namespace SolutionPlan.Glob

inductive Fits (rule : CaseRule) : List Char → List Char → Prop where
  | nil : Fits rule [] []
  | sequence (run : List Char) {name s : List Char} : Fits rule name s →
      Fits rule ('*' :: name) (run ++ s)
  | one {c d : Char} {name s : List Char} : c ≠ '*' → c = '?' ∨ rule.same d c = true →
      Fits rule name s → Fits rule (c :: name) (d :: s)

variable {rule : CaseRule} {name s u : List Char} {c : Char}

theorem fits_nil_iff : Fits rule [] s ↔ s = [] := by
  constructor
  · intro h
    cases h
    rfl
  · rintro rfl
    exact .nil

theorem fits_sequence_iff :
    Fits rule ('*' :: name) u ↔ ∃ run s, u = run ++ s ∧ Fits rule name s := by
  constructor
  · intro h
    cases h with
    | sequence run h => exact ⟨run, _, rfl, h⟩
    | one hstar => exact absurd rfl hstar
  · rintro ⟨run, s, rfl, h⟩
    exact .sequence run h

theorem fits_one_iff (hstar : c ≠ '*') : Fits rule (c :: name) u ↔
    ∃ d s, u = d :: s ∧ (c = '?' ∨ rule.same d c = true) ∧ Fits rule name s := by
  constructor
  · intro h
    cases h with
    | sequence => exact absurd rfl hstar
    | one _ hone h => exact ⟨_, _, rfl, hone, h⟩
  · rintro ⟨d, s, rfl, hone, h⟩
    exact .one hstar hone h

/-- A name that stands for nothing has only `*` in it, and so stands for everything. -/
theorem Fits.of_nil (h : Fits rule name []) (hne : name ≠ []) (s : List Char) :
    Fits rule name s := by
  cases name with
  | nil => exact absurd rfl hne
  | cons c name =>
      by_cases hstar : c = '*'
      · subst hstar
        obtain ⟨run, rest, hnil, hrest⟩ := fits_sequence_iff.1 h
        obtain ⟨-, rfl⟩ := List.append_eq_nil_iff.1 hnil.symm
        exact fits_sequence_iff.2 ⟨s, [], (List.append_nil s).symm, hrest⟩
      · obtain ⟨_, _, hnil, -⟩ := (fits_one_iff hstar).1 h
        cases hnil

/-! ## Tokens that read a name -/

inductive Token.Reads : Token → Char → Prop where
  | sequence : anySequence.Reads '*'
  | any : anyChar.Reads '?'
  | char {c : Char} : c ≠ '*' → c ≠ '?' → (char c).Reads c
  | member {c : Char} : c ≠ '*' → c ≠ '?' → (oneOf [.char c]).Reads c

def nameToken (c : Char) : Token :=
  if c = '*' then .anySequence else if c = '?' then .anyChar else .char c

variable {token : Token} {tokens read : List Token}

theorem reads_nameToken (c : Char) : (nameToken c).Reads c := by
  unfold nameToken
  split
  · next h => exact h ▸ .sequence
  · next hstar =>
      split
      · next h => exact h ▸ .any
      · next hquestion => exact .char hstar hquestion

theorem forall₂_reads {token : Char → Token} (h : ∀ c, (token c).Reads c) (name : List Char) :
    List.Forall₂ Token.Reads (name.map token) name := by
  rw [List.forall₂_map_left_iff, List.forall₂_same]
  exact fun c _ => h c

theorem CaseRule.same_comm (c d : Char) : rule.same c d = rule.same d c := by
  cases rule <;> exact BEq.comm

theorem CaseRule.eq_slash_of_same (h : rule.same '/' c = true) : c = '/' := by
  cases rule with
  | sensitive => exact (beq_iff_eq.1 h).symm
  | ignoring =>
      have hlower : c.toLower = '/' := (beq_iff_eq.1 h).symm
      unfold Char.toLower at hlower
      split at hlower
      · next hupper =>
          -- The lower case of a letter stands behind the slash.
          have hfirst := UInt32.le_iff_toNat_le.1 hupper.1
          have hlast := UInt32.le_iff_toNat_le.1 hupper.2
          have hsum := congrArg (fun d : Char => d.val.toNat) hlower
          simp only [UInt32.toNat_add] at hsum
          have hshift : ('a'.val - 'A'.val).toNat = 32 := rfl
          have hA : 'A'.val.toNat = 65 := rfl
          have hZ : 'Z'.val.toNat = 90 := rfl
          have hslash : '/'.val.toNat = 47 := rfl
          omega
      · exact hlower

theorem matchTokens_sequence_iff : matchTokens rule (.anySequence :: tokens) u = true ↔
    ∃ run s, u = run ++ s ∧ '/' ∉ run ∧ matchTokens rule tokens s = true := by
  simp only [matchTokens, List.any_eq_true]
  induction u with
  | nil => simp [afterSequence, and_assoc]
  | cons c u ih =>
      simp only [afterSequence, List.mem_cons, exists_eq_or_imp]
      constructor
      · rintro (hmatch | ⟨s, hs, hmatch⟩)
        · exact ⟨[], c :: u, rfl, List.not_mem_nil, hmatch⟩
        · split at hs
          · cases hs
          · next hc =>
              obtain ⟨run, s, rfl, hrun, hmatch⟩ := ih.1 ⟨s, hs, hmatch⟩
              refine ⟨c :: run, s, rfl, ?_, hmatch⟩
              rw [List.mem_cons, not_or]
              exact ⟨Ne.symm hc, hrun⟩
      · rintro ⟨run, s, hu, hrun, hmatch⟩
        cases run with
        | nil => exact .inl (by rw [hu]; exact hmatch)
        | cons d run =>
            obtain ⟨rfl, rfl⟩ := List.cons.inj hu
            rw [List.mem_cons, not_or] at hrun
            rw [if_neg (Ne.symm hrun.1)]
            exact .inr (ih.2 ⟨run, s, rfl, hrun.2, hmatch⟩)

/-- A token that reads no `*` takes one character, and no slash if it reads none. -/
theorem Token.Reads.matchTokens_iff (h : token.Reads c) (hstar : c ≠ '*') (hslash : c ≠ '/') :
    matchTokens rule (token :: tokens) u = true ↔ ∃ d s, u = d :: s ∧
      (d ≠ '/' ∧ (c = '?' ∨ rule.same d c = true)) ∧ matchTokens rule tokens s = true := by
  have hsame (d : Char) (hd : rule.same d c = true) : d ≠ '/' := by
    rintro rfl
    exact hslash (CaseRule.eq_slash_of_same hd)
  have htakes (d : Char) :
      token.takes rule d = true ↔ d ≠ '/' ∧ (c = '?' ∨ rule.same d c = true) := by
    cases h with
    | sequence => exact absurd rfl hstar
    | any => simp [Token.takes]
    | char _ hquestion => simpa [Token.takes, hquestion] using hsame d
    | member _ hquestion => simp [Token.takes, ClassItem.holds, hquestion]
  cases u with
  | nil => cases h <;> simp_all [matchTokens]
  | cons d u =>
      have hone : matchTokens rule (token :: tokens) (d :: u) =
          (token.takes rule d && matchTokens rule tokens u) := by
        cases h with
        | sequence => exact absurd rfl hstar
        | any | char | member => rw [matchTokens] <;> simp
      rw [hone, Bool.and_eq_true, htakes]
      simp

theorem matchTokens_append (h : List.Forall₂ Token.Reads read name) (hname : '/' ∉ name) :
    matchTokens rule (read ++ tokens) u = true ↔
      ∃ front back, u = front ++ back ∧ '/' ∉ front ∧ Fits rule name front ∧
        matchTokens rule tokens back = true := by
  induction h generalizing u with
  | nil =>
      simp only [fits_nil_iff, List.nil_append]
      constructor
      · exact fun hmatch => ⟨[], u, rfl, List.not_mem_nil, rfl, hmatch⟩
      · rintro ⟨-, back, rfl, -, rfl, hmatch⟩
        exact hmatch
  | @cons token c read name hread hrest ih =>
      rw [List.mem_cons, not_or] at hname
      have ih := fun u => ih (u := u) hname.2
      by_cases hstar : c = '*'
      · subst hstar
        obtain rfl : token = .anySequence := by
          cases hread with
          | sequence => rfl
          | char hstar | member hstar => exact absurd rfl hstar
        simp only [List.cons_append, matchTokens_sequence_iff, ih, fits_sequence_iff]
        constructor
        · rintro ⟨run, -, rfl, hrun, front, back, rfl, hfront, hfits, hmatch⟩
          refine ⟨run ++ front, back, (List.append_assoc ..).symm, ?_, ⟨run, front, rfl, hfits⟩,
            hmatch⟩
          simp [hrun, hfront]
        · rintro ⟨-, back, rfl, hfront, ⟨run, front, rfl, hfits⟩, hmatch⟩
          rw [List.mem_append, not_or] at hfront
          exact ⟨run, front ++ back, List.append_assoc .., hfront.1, front, back, rfl, hfront.2,
            hfits, hmatch⟩
      · simp only [List.cons_append, hread.matchTokens_iff hstar (Ne.symm hname.1), ih,
          fits_one_iff hstar]
        constructor
        · rintro ⟨d, -, rfl, ⟨hd, hone⟩, front, back, rfl, hfront, hfits, hmatch⟩
          refine ⟨d :: front, back, rfl, ?_, ⟨d, front, rfl, hone, hfits⟩, hmatch⟩
          simp [Ne.symm hd, hfront]
        · rintro ⟨-, back, rfl, hfront, ⟨d, front, rfl, hone, hfits⟩, hmatch⟩
          rw [List.mem_cons, not_or] at hfront
          exact ⟨d, front ++ back, rfl, ⟨Ne.symm hfront.1, hone⟩, front, back, rfl, hfront.2,
            hfits, hmatch⟩

theorem matchTokens_read (h : List.Forall₂ Token.Reads read name) (hname : '/' ∉ name) :
    matchTokens rule read u = true ↔ '/' ∉ u ∧ Fits rule name u := by
  have happend : matchTokens rule (read ++ []) u = true ↔ ∃ front back, u = front ++ back ∧
      '/' ∉ front ∧ Fits rule name front ∧ matchTokens rule [] back = true :=
    matchTokens_append h hname
  simpa [matchTokens] using happend

/-! ## Compiling a name -/

theorem compileFrom_sequence {rest : List Char} (h : rest.head? ≠ some '*') (position : Nat)
    (before : Option Char) (done : List Token) :
    compileFrom position before done ('*' :: rest) =
      compileFrom (position + 1) (some '*') (.anySequence :: done) rest := by
  apply compileFrom.eq_6
  · rintro tail rfl
    exact h rfl
  · rintro tail rfl
    exact h rfl

def plainText (c : Char) : List Char := if c = '[' ∨ c = ']' then escape [c] else [c]

def plainToken (c : Char) : Token := if c = '[' ∨ c = ']' then .oneOf [.char c] else nameToken c

theorem reads_plainToken (c : Char) : (plainToken c).Reads c := by
  unfold plainToken
  split
  · next hbracket =>
      rcases hbracket with rfl | rfl
      · exact .member (by decide) (by decide)
      · exact .member (by decide) (by decide)
  · exact reads_nameToken c

theorem plainText_of_bracket {c : Char} (h : c = '[' ∨ c = ']') : plainText c = ['[', c, ']'] := by
  rcases h with rfl | rfl <;> rfl

theorem head?_flatMap_plainText_ne (h : ¬ ['*', '*'] <:+: '*' :: name) :
    (name.flatMap plainText).head? ≠ some '*' := by
  cases name with
  | nil => simp
  | cons c name =>
      have hstar : c ≠ '*' := by
        rintro rfl
        exact h ⟨[], name, rfl⟩
      rw [List.flatMap_cons]
      by_cases hbracket : c = '[' ∨ c = ']'
      · simp [plainText_of_bracket hbracket]
      · simpa [plainText, hbracket] using hstar

theorem compileFrom_plainText (h : ¬ ['*', '*'] <:+: name) (position : Nat) (before : Option Char)
    (done : List Token) :
    compileFrom position before done (name.flatMap plainText) =
      .ok (done.reverse ++ name.map plainToken) := by
  induction name generalizing position before done with
  | nil => simp [compileFrom]
  | cons c name ih =>
      have ih (position : Nat) (before : Option Char) : compileFrom position before
          (plainToken c :: done) (name.flatMap plainText) =
            .ok (done.reverse ++ (c :: name).map plainToken) := by
        rw [ih fun hstars => h (hstars.trans (List.suffix_cons c name).isInfix)]
        simp
      rw [List.flatMap_cons]
      by_cases hbracket : c = '[' ∨ c = ']'
      · have hspecial : isSpecial c = true := by
          rcases hbracket with rfl | rfl <;> rfl
        have htoken : .oneOf [.char c] = plainToken c := (if_pos hbracket).symm
        rw [plainText_of_bracket hbracket, List.cons_append, List.cons_append, List.cons_append,
          List.nil_append, compileFrom_class (classToken?_escaped hspecial _), htoken, ih]
      · have htoken : plainToken c = nameToken c := if_neg hbracket
        rw [plainText, if_neg hbracket, List.singleton_append]
        rw [htoken] at ih
        by_cases hstar : c = '*'
        · subst hstar
          rw [compileFrom_sequence (head?_flatMap_plainText_ne h)]
          exact ih _ _
        · by_cases hquestion : c = '?'
          · subst hquestion
            rw [compileFrom]
            exact ih _ _
          · rw [nameToken, if_neg hstar, if_neg hquestion] at ih
            rw [compileFrom_plain hquestion hstar fun heq => hbracket (.inl heq)]
            exact ih _ _

end SolutionPlan.Glob
