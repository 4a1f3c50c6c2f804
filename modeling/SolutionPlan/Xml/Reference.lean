import SolutionPlan.Text.Basic
import SolutionPlan.Text.Digits
import SolutionPlan.Xml.Character

/-!
# References and line ends

Character data as pieces, each a literal character or one named by a reference. Line ends become one
line feed in text and a space in an attribute value; a referred character always stays as it is.
-/

namespace SolutionPlan.Xml

inductive Piece where
  | literal (c : Char)
  | referred (c : Char)
deriving DecidableEq, Repr

/-! ## References -/

/-- Numbers that are no character mean the replacement character; a number needs 32 bits at most. -/
def numberedChar? (n : Nat) : Option Char :=
  if n < UInt32.size then
    let c := if n.isValidChar then Char.ofNat n else '\ufffd'
    if isAllowed c then some c else none
  else none

def predefinedEntities : List (String × Char) :=
  [("quot", '"'), ("apos", '\''), ("amp", '&'), ("lt", '<'), ("gt", '>')]

def referredChar : List Char → Except Malformed Char
  | '#' :: 'x' :: digits =>
      match (Text.number? 16 digits).bind numberedChar? with
      | some c => .ok c
      | none => .error .reference
  | '#' :: digits =>
      match (Text.number? 10 digits).bind numberedChar? with
      | some c => .ok c
      | none => .error .reference
  | [] => .error .reference
  | c :: rest =>
      if isNameStart c && rest.all isName then
        let name := String.ofList (c :: rest)
        match predefinedEntities.lookup name with
        | some c => .ok c
        | none => .error (.unknownEntity name)
      else .error .reference

/-- Reads character data; `skip` counts the characters that belong to the last reference. -/
def piecesFrom : Nat → List Char → Except Malformed (List Piece)
  | _, [] => .ok []
  | skip + 1, _ :: s => piecesFrom skip s
  | 0, c :: s =>
      if c = '&' then
        match Text.cutAt? ';' s with
        | none => .error .reference
        | some (body, _) => do
            let c ← referredChar body
            let rest ← piecesFrom (body.length + 1) s
            .ok (.referred c :: rest)
      else do
        let rest ← piecesFrom 0 s
        .ok (.literal c :: rest)

def pieces (s : List Char) : Except Malformed (List Piece) := piecesFrom 0 s

/-! ## Line ends -/

/-- A literal carriage return is a line end of its own or with the line feed behind it. Next to a
reference it is kept where no literal character follows; `referred` says that the last piece was a
reference. -/
def lineEnds (referred : Bool) : List Piece → List Char
  | [] => []
  | .referred c :: rest => c :: lineEnds true rest
  | .literal '\r' :: [] => if referred then ['\r'] else ['\n']
  | .literal '\r' :: .literal '\n' :: rest => '\n' :: lineEnds false rest
  | .literal '\r' :: .literal c :: rest => '\n' :: lineEnds false (.literal c :: rest)
  | .literal '\r' :: .referred c :: rest => '\r' :: lineEnds false (.referred c :: rest)
  | .literal c :: rest => c :: lineEnds false rest

/-- Each literal line end or tab of an attribute value is one space. -/
def spacesForBlanks : List Piece → List Char
  | [] => []
  | .referred c :: rest => c :: spacesForBlanks rest
  | .literal '\r' :: .literal '\n' :: rest => spacesForBlanks (.literal '\n' :: rest)
  | .literal c :: rest =>
      (if c = '\r' ∨ c = '\n' ∨ c = '\t' then ' ' else c) :: spacesForBlanks rest

def textValue (s : List Char) : Except Malformed (List Char) := (pieces s).map (lineEnds false)

/-- Marked sections hold no references. -/
def sectionValue (s : List Char) : List Char := lineEnds false (s.map .literal)

def attributeValue (s : List Char) : Except Malformed String :=
  (pieces s).map fun ps => String.ofList (spacesForBlanks ps)

end SolutionPlan.Xml
