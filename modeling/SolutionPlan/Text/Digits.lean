/-!
# Numbers in digits

Reading a number written in a base up to sixteen, and a signed number of 64 bits in base ten.
Letters may have either case, and zeros may stand in front.
-/

namespace SolutionPlan.Text

def digitValue? (base : Nat) (c : Char) : Option Nat :=
  let value :=
    if c.isDigit then c.toNat - '0'.toNat
    else if 'a' ≤ c ∧ c ≤ 'f' then c.toNat - 'a'.toNat + 10
    else if 'A' ≤ c ∧ c ≤ 'F' then c.toNat - 'A'.toNat + 10
    else base
  if value < base then some value else none

def number? (base : Nat) : List Char → Option Nat
  | [] => none
  | digits =>
      digits.foldlM (fun total c => (digitValue? base c).map fun digit => base * total + digit) 0

/-- A decimal number with at most one sign, if 64 bits hold it. -/
def signedNumber? (s : List Char) : Option Int :=
  let value? : Option Int :=
    match s with
    | '+' :: digits => (number? 10 digits).map Int.ofNat
    | '-' :: digits => (number? 10 digits).map fun n => -Int.ofNat n
    | digits => (number? 10 digits).map Int.ofNat
  value?.filter fun n => Int64.minValue.toInt ≤ n && n ≤ Int64.maxValue.toInt

end SolutionPlan.Text
