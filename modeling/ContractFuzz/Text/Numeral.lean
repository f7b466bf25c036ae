/-!
# Numerals

Positional numerals over ASCII digits, in the spellings that people type: plain machine numbers
with a bound, and unbounded ones whose digits may be grouped by underscores.

## Main definitions

* `digitValue?`, `valueOf`: digits and what a list of them stands for.
* `readBounded`: a plain numeral of a number below a bound.
* `readGrouped`, `readSigned`: unbounded numerals, without and with a minus sign.
* `decimal`, `decimalInt`: the shortest decimal numeral of a number.
-/

namespace ContractFuzz.Text

/-- What a digit counts in the given base; letters of either case follow on nine. -/
def digitValue? (base : Nat) (c : Char) : Option Nat :=
  let n := c.toNat
  let value :=
    if 48 ≤ n ∧ n ≤ 57 then some (n - 48)
    else if 97 ≤ n ∧ n ≤ 122 then some (n - 87)
    else if 65 ≤ n ∧ n ≤ 90 then some (n - 55)
    else none
  value.filter (· < base)

/-- The number that a list of digit values stands for, the most significant first. -/
def valueOf (base : Nat) (digits : List Nat) : Nat :=
  digits.foldl (fun n d => n * base + d) 0

/-- The number written by one or more digits and nothing else. -/
def readDigits (base : Nat) (cs : List Char) : Option Nat :=
  if cs.isEmpty then none else (cs.mapM (digitValue? base)).map (valueOf base)

/-- A machine number below `limit`: digits after at most one plus sign. -/
def readBounded (base limit : Nat) (cs : List Char) : Option Nat :=
  let digits := match cs with
    | '+' :: r => r
    | _ => cs
  (readDigits base digits).filter (· < limit)

/-- An unbounded number: digits after at most one plus sign, the first of them followed by any
mixture of digits and underscores. -/
def readGrouped (base : Nat) (cs : List Char) : Option Nat :=
  let digits := match cs with
    | '+' :: r => r
    | _ => cs
  match digits with
  | '_' :: _ => none
  | _ => readDigits base (digits.filter (· != '_'))

/-- An unbounded number that may be negative. The minus sign is not followed by a plus sign. -/
def readSigned (base : Nat) (cs : List Char) : Option Int :=
  match cs with
  | '-' :: '+' :: _ => none
  | '-' :: r => (readGrouped base r).map fun n => -(n : Int)
  | _ => (readGrouped base cs).map fun n => (n : Int)

/-- The decimal digits of a number, without leading zeros. -/
def decimal (n : Nat) : List Char := Nat.toDigits 10 n

/-- The decimal digits of an integer, after a minus sign if it is negative. -/
def decimalInt (i : Int) : List Char :=
  if i < 0 then '-' :: decimal i.natAbs else decimal i.natAbs

end ContractFuzz.Text
