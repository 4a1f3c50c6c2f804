import SolutionPlan.Text.Basic

/-!
# Glob patterns

A pattern is a list of tokens: characters, `?`, `*`, character classes and `**`, which has to be a
whole component of the pattern. Compiling reads a text into tokens or says at which character,
counted from zero, it is not a pattern.
-/

namespace SolutionPlan.Glob

inductive ClassItem where
  | char (c : Char)
  | range (first last : Char)
deriving DecidableEq, Repr

inductive Token where
  | char (c : Char)
  | anyChar
  | anySequence
  | anyComponents
  | oneOf (items : List ClassItem)
  | noneOf (items : List ClassItem)
deriving DecidableEq, Repr

inductive PatternErrorKind where
  | wildcards
  | recursiveWildcards
  | invalidRange
deriving DecidableEq, Repr

structure PatternError where
  position : Nat
  kind : PatternErrorKind
deriving DecidableEq, Repr

def PatternErrorKind.message : PatternErrorKind → String
  | wildcards => "wildcards are either regular `*` or recursive `**`"
  | recursiveWildcards => "recursive wildcards must form a single path component"
  | invalidRange => "invalid range pattern"

def PatternError.message (e : PatternError) : String :=
  s!"Pattern syntax error near position {e.position}: {e.kind.message}"

/-! ## Character classes -/

/-- `x-y` is a range; every other character stands for itself. -/
def classItems : List Char → List ClassItem
  | a :: '-' :: b :: rest => .range a b :: classItems rest
  | c :: rest => .char c :: classItems rest
  | [] => []

/-- The class whose text follows a `[`, and what follows it. The first character is a member
whatever it is, and the next `]` ends the class. -/
def classToken? : List Char → Option (Token × List Char)
  | '!' :: first :: rest =>
      (Text.cutAt? ']' rest).map fun (members, rest) =>
        (.noneOf (classItems (first :: members)), rest)
  | '!' :: [] => none
  | first :: rest =>
      (Text.cutAt? ']' rest).map fun (members, rest) =>
        (.oneOf (classItems (first :: members)), rest)
  | [] => none

theorem length_cutAt? {sep : Char} {s before after : List Char}
    (h : Text.cutAt? sep s = some (before, after)) : after.length < s.length := by
  unfold Text.cutAt? at h
  split at h
  · simp at h
  · next c rest hs =>
    obtain ⟨-, rfl⟩ := by simpa using h
    have hle : (s.dropWhile (· != sep)).length ≤ s.length :=
      (List.dropWhile_sublist _).length_le
    rw [hs] at hle
    simp only [List.length_cons] at hle
    omega

theorem length_classToken? {s rest : List Char} {token : Token}
    (h : classToken? s = some (token, rest)) : rest.length < s.length := by
  unfold classToken? at h
  split at h
  · obtain ⟨⟨_, _⟩, hcut, h⟩ := Option.map_eq_some_iff.1 h
    obtain ⟨-, rfl⟩ := by simpa using h
    have := length_cutAt? hcut
    simp only [List.length_cons]
    omega
  · simp at h
  · obtain ⟨⟨_, _⟩, hcut, h⟩ := Option.map_eq_some_iff.1 h
    obtain ⟨-, rfl⟩ := by simpa using h
    have := length_cutAt? hcut
    simp only [List.length_cons]
    omega
  · simp at h

/-! ## Compiling -/

/-- A `**` directly after another one adds nothing, unless that one is the only token so far. The
tokens are reversed. -/
def pushComponents : List Token → List Token
  | .anyComponents :: t :: done => .anyComponents :: t :: done
  | done => .anyComponents :: done

/-- Reads `s`, which starts at character `position` after the character `before`, onto the reversed
tokens `done`. -/
def compileFrom (position : Nat) (before : Option Char) (done : List Token) (s : List Char) :
    Except PatternError (List Token) :=
  match s with
  | [] => .ok done.reverse
  | '?' :: rest => compileFrom (position + 1) (some '?') (.anyChar :: done) rest
  | '*' :: '*' :: '*' :: _ => .error ⟨position + 2, .wildcards⟩
  | '*' :: '*' :: rest =>
      if before = none ∨ before = some '/' then
        match rest with
        | [] => .ok (pushComponents done).reverse
        | c :: rest =>
            if c = '/' then compileFrom (position + 3) (some '/') (pushComponents done) rest
            else .error ⟨position + 2, .recursiveWildcards⟩
      else .error ⟨position - 1, .recursiveWildcards⟩
  | '*' :: rest => compileFrom (position + 1) (some '*') (.anySequence :: done) rest
  | '[' :: rest =>
      match h : classToken? rest with
      | some (token, after) =>
          compileFrom (position + 1 + (rest.length - after.length)) (some ']') (token :: done) after
      | none => .error ⟨position, .invalidRange⟩
  | c :: rest => compileFrom (position + 1) (some c) (.char c :: done) rest
termination_by s.length
decreasing_by
  all_goals simp_wf
  all_goals try omega
  all_goals
    have hle := length_classToken? h
    omega

def compile (text : String) : Except PatternError (List Token) := compileFrom 0 none [] text.toList

/-- Wildcards and brackets, which mean themselves only inside a class. -/
def isSpecial (c : Char) : Bool := c == '?' || c == '*' || c == '[' || c == ']'

def escape (s : List Char) : List Char :=
  s.flatMap fun c => if isSpecial c then ['[', c, ']'] else [c]

end SolutionPlan.Glob
