import SolutionPlan.Glob.Pattern

/-!
# Matching

No wildcard but `**` matches a slash. A `**` skips whole components from the place where it stands,
or all that is left. Equality of characters may ignore ASCII case.

`matchTokens` says what matches by trying every way to share the text among the tokens. `accepts`
gives the same answers (`accepts_eq_matchTokens`) in time proportional to the product of the two
lengths.
-/

namespace SolutionPlan.Glob

inductive CaseRule where
  | sensitive
  | ignoring
deriving DecidableEq, Repr

def CaseRule.same (rule : CaseRule) (a b : Char) : Bool :=
  match rule with
  | sensitive => a == b
  | ignoring => a.toLower == b.toLower

private def isAsciiLetter (c : Char) : Bool := c.isAlpha

/-- When case is ignored, a range between two letters also holds the letters whose lower case lies
between the lower cases of its ends. -/
def ClassItem.holds (rule : CaseRule) (c : Char) : ClassItem → Bool
  | char d => rule.same c d
  | range first last =>
      (first ≤ c && c ≤ last) ||
        (rule == .ignoring && isAsciiLetter first && isAsciiLetter last && c.toNat < 128 &&
          first.toLower ≤ c.toLower && c.toLower ≤ last.toLower)

def Token.takes (rule : CaseRule) (c : Char) : Token → Bool
  | char d => rule.same c d
  | anyChar => c != '/'
  | oneOf items => c != '/' && items.any (ClassItem.holds rule c)
  | noneOf items => c != '/' && !items.any (ClassItem.holds rule c)
  | anySequence => false
  | anyComponents => false

/-- What is left after each number of characters that a `*` can take. -/
def afterSequence : List Char → List (List Char)
  | [] => [[]]
  | c :: s => (c :: s) :: if c = '/' then [] else afterSequence s

def afterSlashes : List Char → List (List Char)
  | [] => []
  | c :: s => if c = '/' then s :: afterSlashes s else afterSlashes s

/-- What is left after each run that a `**` can take. -/
def afterComponents (s : List Char) : List (List Char) := s :: (afterSlashes s ++ [[]])

def matchTokens (rule : CaseRule) : List Token → List Char → Bool
  | [], s => s.isEmpty
  | .anySequence :: tokens, s => (afterSequence s).any (matchTokens rule tokens)
  | .anyComponents :: tokens, s => (afterComponents s).any (matchTokens rule tokens)
  | _ :: _, [] => false
  | token :: tokens, c :: s => token.takes rule c && matchTokens rule tokens s

/-! ## All suffixes at once

The answers for every suffix of a text, that for the text itself first, follow token by token from
the answers for the tokens behind. -/

def suffixes : List Char → List (List Char)
  | [] => [[]]
  | c :: s => (c :: s) :: suffixes s

def answersOne (takes : Char → Bool) : List Char → List Bool → List Bool
  | c :: s, _ :: next => (takes c && next.headD false) :: answersOne takes s next
  | _, _ => [false]

def answersSequence : List Char → List Bool → List Bool
  | c :: s, here :: next =>
      let later := answersSequence s next
      (here || c != '/' && later.headD false) :: later
  | _, next => next

/-- The answers for the rest of the text behind a slash, or for its end. -/
def answersBehind : List Char → List Bool → List Bool
  | c :: s, _ :: next =>
      let later := answersBehind s next
      (c == '/' && next.headD false || later.headD false) :: later
  | _, next => next

/-- The answers for tokens that start with this one, from those for the tokens behind it. -/
def Token.answers (rule : CaseRule) (s : List Char) (token : Token) (next : List Bool) :
    List Bool :=
  match token with
  | anySequence => answersSequence s next
  | anyComponents => List.zipWith or next (answersBehind s next)
  | token => answersOne (token.takes rule) s next

def answers (rule : CaseRule) (s : List Char) (tokens : List Token) : List Bool :=
  tokens.foldr (Token.answers rule s) ((suffixes s).map List.isEmpty)

/-- The tokens take the whole text. Up to the first `*` or `**` each takes one character. -/
def accepts (rule : CaseRule) : List Token → List Char → Bool
  | [], s => s.isEmpty
  | .anySequence :: tokens, s => (answers rule s (.anySequence :: tokens)).headD false
  | .anyComponents :: tokens, s => (answers rule s (.anyComponents :: tokens)).headD false
  | _ :: _, [] => false
  | token :: tokens, c :: s => token.takes rule c && accepts rule tokens s

theorem suffixes_eq_cons (s : List Char) : ∃ rest, suffixes s = s :: rest := by
  cases s with
  | nil => exact ⟨[], rfl⟩
  | cons c s => exact ⟨suffixes s, rfl⟩

theorem headD_map_suffixes (p : List Char → Bool) (s : List Char) :
    ((suffixes s).map p).headD false = p s := by
  obtain ⟨rest, h⟩ := suffixes_eq_cons s
  rw [h]
  rfl

theorem answersOne_map (takes : Char → Bool) (p : List Char → Bool) (s : List Char) :
    answersOne takes s ((suffixes s).map p) =
      (suffixes s).map fun
        | [] => false
        | c :: s => takes c && p s := by
  induction s with
  | nil => rfl
  | cons c s ih =>
      rw [suffixes, List.map_cons, List.map_cons, answersOne, ih, headD_map_suffixes]

theorem answersSequence_map (p : List Char → Bool) (s : List Char) :
    answersSequence s ((suffixes s).map p) =
      (suffixes s).map fun s => (afterSequence s).any p := by
  induction s with
  | nil => simp [answersSequence, suffixes, afterSequence]
  | cons c s ih =>
      rw [suffixes, List.map_cons, List.map_cons, answersSequence, ih]
      simp only [headD_map_suffixes, afterSequence, List.any_cons]
      by_cases h : c = '/'
      · simp [h]
      · rw [if_neg h, bne_iff_ne.2 h, Bool.true_and]

theorem answersBehind_map (p : List Char → Bool) (s : List Char) :
    answersBehind s ((suffixes s).map p) =
      (suffixes s).map fun s => (afterSlashes s ++ [[]]).any p := by
  induction s with
  | nil => simp [answersBehind, suffixes, afterSlashes]
  | cons c s ih =>
      rw [suffixes, List.map_cons, List.map_cons, answersBehind, ih]
      simp only [headD_map_suffixes, afterSlashes]
      by_cases h : c = '/' <;> simp [h]

theorem zipWith_or_map (p q : List Char → Bool) (ss : List (List Char)) :
    List.zipWith or (ss.map p) (ss.map q) = ss.map fun s => p s || q s := by
  induction ss with
  | nil => rfl
  | cons s ss ih => rw [List.map_cons, List.map_cons, List.map_cons, List.zipWith_cons_cons, ih]

theorem answers_eq_map (rule : CaseRule) (s : List Char) (tokens : List Token) :
    answers rule s tokens = (suffixes s).map (matchTokens rule tokens) := by
  induction tokens with
  | nil =>
      refine List.map_congr_left fun s _ => ?_
      rw [matchTokens]
  | cons token tokens ih =>
      have hcons : answers rule s (token :: tokens) =
          token.answers rule s (answers rule s tokens) := rfl
      rw [hcons, ih]
      cases token with
      | anySequence =>
          rw [Token.answers, answersSequence_map]
          exact List.map_congr_left fun s _ => by rw [matchTokens]
      | anyComponents =>
          rw [Token.answers, answersBehind_map, zipWith_or_map]
          exact List.map_congr_left fun s _ => by rw [matchTokens, afterComponents, List.any_cons]
      | char _ | anyChar | oneOf _ | noneOf _ =>
          rw [Token.answers, answersOne_map]
          · refine List.map_congr_left fun s _ => ?_
            cases s with
            | nil => simp [matchTokens]
            | cons c s => simp [matchTokens]
          all_goals nofun

theorem headD_answers (rule : CaseRule) (s : List Char) (tokens : List Token) :
    (answers rule s tokens).headD false = matchTokens rule tokens s := by
  rw [answers_eq_map, headD_map_suffixes]

theorem accepts_eq_matchTokens (rule : CaseRule) (tokens : List Token) (s : List Char) :
    accepts rule tokens s = matchTokens rule tokens s := by
  induction tokens generalizing s with
  | nil => rw [accepts, matchTokens]
  | cons token tokens ih =>
      cases token with
      | anySequence | anyComponents => rw [accepts, headD_answers]
      | char _ | anyChar | oneOf _ | noneOf _ =>
          cases s with
          | nil => simp [accepts, matchTokens]
          | cons c s => simp [accepts, matchTokens, ih]

end SolutionPlan.Glob
