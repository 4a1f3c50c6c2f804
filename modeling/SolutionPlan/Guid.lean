import SolutionPlan.Text.Basic
import SolutionPlan.Text.Digits

/-!
# Globally unique identifiers

A number of 128 bits. It is written as 32 hexadecimal digits, in groups of 8, 4, 4, 4 and 12 behind
one another, and read with or without the hyphens between the groups.
-/

namespace SolutionPlan

structure Guid where
  value : BitVec 128
deriving DecidableEq, Repr

namespace Guid

def ofNat (n : Nat) : Guid := ⟨BitVec.ofNat 128 n⟩

def nil : Guid := ofNat 0

def isNil (g : Guid) : Bool := g == nil

/-- The identifier of the fourth version with the other bits of the number. -/
def ofRandom (n : Nat) : Guid :=
  ⟨(BitVec.ofNat 128 n &&& BitVec.ofNat 128 0xFFFFFFFFFFFF0FFF3FFFFFFFFFFFFFFF) |||
    BitVec.ofNat 128 0x00000000000040008000000000000000⟩

/-! ## Writing -/

private def hexDigit (n : Nat) : Char := ("0123456789ABCDEF".toList)[n]?.getD '0'

def digits (g : Guid) : List Char :=
  (List.range 32).map fun i => hexDigit ((g.value.toNat >>> (4 * (31 - i))) % 16)

def groupLengths : List Nat := [8, 4, 4, 4, 12]

def groups : List Nat → List Char → List (List Char)
  | [], _ => []
  | n :: lengths, s => s.take n :: groups lengths (s.drop n)

/-- The written form: capital letters, hyphens between the groups, and braces around it all. -/
def text (g : Guid) : String :=
  String.ofList ('\x7b' :: Text.joinWith '-' (groups groupLengths g.digits) ++ ['\x7d'])

/-! ## Reading -/

def ofDigits? (digits : List Char) : Option Guid :=
  if digits.length = 32 then (Text.number? 16 digits).map ofNat else none

def ofGroups? (s : List Char) : Option Guid :=
  let found := Text.splitWhere (· == '-') s
  if found.map List.length = groupLengths then ofDigits? found.flatten else none

private def afterScheme? (s : List Char) : Option (List Char) :=
  if Text.sameIgnoringCase (String.ofList (s.take 9)) "urn:uuid:" then some (s.drop 9) else none

/-- Thirty-two digits, or the groups with hyphens: bare, in braces or behind `urn:uuid:`. -/
def parse? (text : String) : Option Guid :=
  let s := text.toList
  match afterScheme? s, s with
  | some rest, _ => ofGroups? rest
  | none, '\x7b' :: rest => if rest.getLast? = some '\x7d' then ofGroups? rest.dropLast else none
  | none, s => if s.contains '-' then ofGroups? s else ofDigits? s

end Guid

end SolutionPlan
