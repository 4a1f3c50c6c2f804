import Mathlib.Data.List.TakeWhile
import SolutionPlan.Parameters

/-!
# Expanding a text

A token starts with `#[` and ends at the next `]`, with no blank between them. What `expand` gives
is described by a scan from left to right that goes on behind each token, so nothing that a token
stands for is looked at again, and by the meaning of a single token.
-/

namespace SolutionPlan.Parameters

/-! ## Tokens -/

def IsWritten (w : List Char) : Prop := w ≠ [] ∧ ∀ c ∈ w, c ≠ ']' ∧ Text.isBlank c = false

def bracketed (w : List Char) : List Char := '#' :: '[' :: (w ++ [']'])

def StartsToken (s : List Char) : Prop := ∃ w, IsWritten w ∧ bracketed w <+: s

def Negates (w : List Char) : Prop := w.head? = some '!' ∧ 1 < w.length

instance (w : List Char) : Decidable (Negates w) := inferInstanceAs (Decidable (_ ∧ _))

def meaning (ps : Parameters) (w : List Char) : List Char :=
  if Negates w then
    if ps.value? (String.ofList w.tail) = some "true" then "false".toList
    else if ps.value? (String.ofList w.tail) = some "false" then "true".toList
    else bracketed w
  else
    match ps.value? (String.ofList w) with
    | some value => value.toList
    | none => bracketed w

/-- The scan. Everything in front of the first token is copied, and the scan goes on behind it. -/
inductive Expands (ps : Parameters) : List Char → List Char → Prop
  | copied {s : List Char} (free : ∀ rest, rest <:+ s → ¬ StartsToken rest) : Expands ps s s
  | token {front w back out : List Char} (written : IsWritten w)
      (first : ∀ rest ≠ [], rest <:+ front → ¬ StartsToken (rest ++ (bracketed w ++ back)))
      (behind : Expands ps back out) :
      Expands ps (front ++ (bracketed w ++ back)) (front ++ (ps.meaning w ++ out))

/-! ## Finding tokens -/

theorem isTokenChar_iff {c : Char} :
    isTokenChar c = true ↔ c ≠ ']' ∧ Text.isBlank c = false := by
  simp [isTokenChar]

theorem tokenText?_bracketed {w : List Char} (h : IsWritten w) (s : List Char) :
    tokenText? (bracketed w ++ s) = some w := by
  have hall : ∀ c ∈ w, isTokenChar c = true := fun c hc => isTokenChar_iff.2 (h.2 c hc)
  have hend : isTokenChar ']' = false := by decide
  have htake : (w ++ ']' :: s).takeWhile isTokenChar = w := by
    rw [List.takeWhile_append_of_pos hall]
    simp [hend]
  have hdrop : (w ++ ']' :: s).dropWhile isTokenChar = ']' :: s := by
    rw [List.dropWhile_append_of_pos hall]
    simp [hend]
  simp [bracketed, tokenText?, htake, hdrop, h.1]

theorem tokenText?_eq_some_iff {s w : List Char} :
    tokenText? s = some w ↔ IsWritten w ∧ bracketed w <+: s := by
  constructor
  · intro h
    unfold tokenText? at h
    split at h
    · next rest =>
        simp only [Option.ite_none_right_eq_some, Option.some.injEq] at h
        obtain ⟨⟨hne, hclosed⟩, rfl⟩ := h
        obtain ⟨back, hback⟩ := List.head?_eq_some_iff.1 hclosed
        refine ⟨⟨hne, fun c hc => ?_⟩, back, ?_⟩
        · exact isTokenChar_iff.1 (List.mem_takeWhile_imp hc)
        · have hrest := List.takeWhile_append_dropWhile (p := isTokenChar) (l := rest)
          rw [hback] at hrest
          simpa [bracketed] using hrest
    · cases h
  · rintro ⟨hw, back, rfl⟩
    exact tokenText?_bracketed hw back

theorem tokenText?_eq_none_iff {s : List Char} : tokenText? s = none ↔ ¬ StartsToken s := by
  simp [Option.eq_none_iff_forall_ne_some, tokenText?_eq_some_iff, StartsToken]

/-! ## What one token becomes -/

variable {ps : Parameters} {s out : List Char}

theorem ofWritten_eq (w : List Char) :
    Token.ofWritten w = if Negates w then ⟨true, w.tail⟩ else ⟨false, w⟩ := by
  cases w with
  | nil => rfl
  | cons c rest =>
      cases rest with
      | nil => simp [Negates, Token.ofWritten]
      | cons d rest =>
          by_cases hc : c = '!' <;> simp [hc, Negates, Token.ofWritten]

theorem getD_tokenValue?_ofWritten (ps : Parameters) (w : List Char) :
    ((ps.tokenValue? (Token.ofWritten w)).map String.toList).getD (bracketed w) =
      ps.meaning w := by
  rw [ofWritten_eq, meaning]
  by_cases hneg : Negates w
  · rw [if_pos hneg, if_pos hneg]
    cases hvalue : ps.value? (String.ofList w.tail) with
    | none => simp [tokenValue?, hvalue]
    | some value =>
        by_cases htrue : value = "true"
        · simp [tokenValue?, hvalue, parseBool?, htrue]
        · by_cases hfalse : value = "false" <;>
            simp [tokenValue?, hvalue, parseBool?, htrue, hfalse]
  · rw [if_neg hneg, if_neg hneg]
    cases hvalue : ps.value? (String.ofList w) <;> simp [tokenValue?, hvalue]

theorem replacement?_bracketed (ps : Parameters) {w : List Char} (h : IsWritten w)
    (s : List Char) :
    ps.replacement? (bracketed w ++ s) = some (w.length + 2, ps.meaning w) := by
  rw [replacement?, tokenText?_bracketed h, Option.map_some, ← getD_tokenValue?_ofWritten]
  cases ps.tokenValue? (Token.ofWritten w) <;> rfl

theorem replacement?_eq_none (h : ¬ StartsToken s) : ps.replacement? s = none := by
  rw [replacement?, tokenText?_eq_none_iff.2 h, Option.map_none]

theorem substitute_bracketed {w : List Char} (h : IsWritten w) (s : List Char) :
    Text.substitute ps.replacement? (bracketed w ++ s) =
      ps.meaning w ++ Text.substitute ps.replacement? s := by
  have hrule := replacement?_bracketed ps h s
  rw [bracketed, List.cons_append] at hrule ⊢
  rw [Text.substitute_cons_of_some hrule]
  simp

/-! ## The scan -/

theorem Expands.cons {c : Char} (hc : ¬ StartsToken (c :: s)) (h : Expands ps s out) :
    Expands ps (c :: s) (c :: out) := by
  cases h with
  | copied free =>
      apply Expands.copied
      intro rest hrest
      rcases List.suffix_cons_iff.1 hrest with rfl | hlater
      · exact hc
      · exact free rest hlater
  | @token front w back out written first behind =>
      rw [← List.cons_append, ← List.cons_append]
      refine .token written (fun rest hne hrest => ?_) behind
      rcases List.suffix_cons_iff.1 hrest with rfl | hlater
      · exact hc
      · exact first rest hne hlater

theorem Expands.token_append {w : List Char} (hw : IsWritten w) (h : Expands ps s out) :
    Expands ps (bracketed w ++ s) (ps.meaning w ++ out) := by
  rw [← List.nil_append (bracketed w ++ s), ← List.nil_append (ps.meaning w ++ out)]
  exact .token hw (by simp +contextual) h

theorem expands_substitute (ps : Parameters) (s : List Char) :
    Expands ps s (Text.substitute ps.replacement? s) := by
  induction hlength : s.length using Nat.strong_induction_on generalizing s with
  | _ n ih =>
      subst hlength
      by_cases hstart : StartsToken s
      · obtain ⟨w, hw, back, rfl⟩ := hstart
        rw [substitute_bracketed hw]
        have hshorter : back.length < (bracketed w ++ back).length := by
          simp [bracketed]
          omega
        exact (ih back.length hshorter back rfl).token_append hw
      · cases s with
        | nil => exact .copied (by simpa using hstart)
        | cons c s =>
            rw [Text.substitute_cons_of_none (replacement?_eq_none hstart)]
            exact (ih s.length (by simp) s rfl).cons hstart

theorem Expands.eq_substitute (h : Expands ps s out) :
    out = Text.substitute ps.replacement? s := by
  induction h with
  | @copied s free =>
      have hcopy : Text.substitute ps.replacement? (s ++ []) = s ++ [] :=
        Text.substitute_append_of_forall fun rest _ hrest =>
          replacement?_eq_none (by simpa using free rest hrest)
      simpa using hcopy.symm
  | @token front w back out written first behind ih =>
      rw [Text.substitute_append_of_forall fun rest hne hrest =>
        replacement?_eq_none (first rest hne hrest), substitute_bracketed written, ← ih]

theorem expands_iff : Expands ps s out ↔ out = Text.substitute ps.replacement? s :=
  ⟨Expands.eq_substitute, fun h => h ▸ expands_substitute ps s⟩

theorem meaning_of_isEmpty (h : ps.entries.isEmpty) (w : List Char) :
    ps.meaning w = bracketed w := by
  have hnone (name : String) : ps.value? name = none := by
    simp [value?, Table.get?, List.isEmpty_iff.1 h]
  simp [meaning, hnone]

theorem Expands.eq_of_isEmpty (hps : ps.entries.isEmpty) (h : Expands ps s out) : out = s := by
  induction h with
  | copied _ => rfl
  | token _ _ _ ih => rw [ih, meaning_of_isEmpty hps]

/-- What `expand` gives is what the scan comes to, and nothing else is. -/
theorem expand_eq_iff_expands (ps : Parameters) (text out : String) :
    ps.expand text = out ↔ Expands ps text.toList out.toList := by
  by_cases hps : ps.entries.isEmpty
  · have hcopy := (expands_substitute ps text.toList).eq_of_isEmpty hps
    rw [expand, if_pos hps, expands_iff, hcopy, String.toList_inj, eq_comm]
  · rw [expand, if_neg hps, expands_iff, ← String.toList_inj, String.toList_ofList, eq_comm]

/-- What stands between the first `#[` and the next `]` is one name. -/
example : (Parameters.mk [("arch", ⟨some "#[", none⟩), ("debug", ⟨none, some "true"⟩)]).expand
    "#[#[debug]] #[arch]debug] #[!debug]" = "#[#[debug]] #[debug] false" := by
  cbv

end SolutionPlan.Parameters
