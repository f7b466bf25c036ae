import ContractFuzz.Binary64.Decimal
/-!
# Shortest decimals

The decimal with the fewest digits that reads back as a given number; of several the nearest one,
and of two that are equally near the even one.

## Main definitions

* `Binary64.Shortest.decimal`: that decimal.
* `Binary64.document`: how it is written, with a fraction or a power of ten.
-/

namespace ContractFuzz.Binary64

namespace Shortest

/-- The ratio that a word stores, without its sign. -/
def ratio (word : Nat) : Nat × Nat :=
  let step := word / fractions
  let part := word % fractions
  if step = 0 then (part, Nat.pow 2 1074)
  else ((part + fractions) * Nat.pow 2 (step - 1075), Nat.pow 2 (1075 - step))

/-- The number of places before the point of a positive ratio that is not below `10 ^ (-400)`; it
is negative if zeros follow the point. -/
def places (num den : Nat) : Int :=
  ((Nat.toDigits 10 (num * Nat.pow 10 400 / den)).length : Int) - 400

/-- The better of the two multiples of a power of ten next to a word's ratio, if one of them reads
back. -/
def onGrid? (word num den : Nat) (power : Int) : Option Nat :=
  let n := num * Nat.pow 10 (-power).toNat
  let d := den * Nat.pow 10 power.toNat
  let below := n / d
  let isBelow := ofDigits below power = word
  let isAbove := ofDigits (below + 1) power = word
  if isBelow ∧ isAbove then some (roundRatio n d)
  else if isBelow then some below
  else if isAbove then some (below + 1)
  else none

/-- The first hit on grids of more and more digits; with seventeen there is one. -/
def search (word num den : Nat) : (tries : Nat) → Int → Nat × Int
  | 0, power => (num * Nat.pow 10 (-power).toNat / (den * Nat.pow 10 power.toNat), power)
  | tries + 1, power =>
    match onGrid? word num den power with
    | some digits => (digits, power)
    | none => search word num den tries (power - 1)

/-- The digits without zeros at the end, and the power of ten by which they count. -/
def trimmed (digits : Nat) (power : Int) : List Char × Int :=
  let all := (Nat.toDigits 10 digits).reverse
  let kept := all.dropWhile (· == '0')
  (kept.reverse, power + (all.length - kept.length : Nat))

/-- The shortest decimal of the word of a positive number: its digits, and the power of ten by
which they count. -/
def decimal (word : Nat) : List Char × Int :=
  let (num, den) := ratio word
  let top := places num den
  let (digits, power) := search word num den 17 (top - 1)
  trimmed digits power

end Shortest

/-- A power of ten with its sign. -/
def powerText (power : Int) : List Char :=
  if power < 0 then 'e' :: '-' :: Nat.toDigits 10 power.natAbs
  else 'e' :: '+' :: Nat.toDigits 10 power.toNat

/-- Digits with a point after the given number of places. From `10 ^ (-5)` up to `10 ^ 16` there is
no power of ten, and always a digit on either side of the point. -/
def placed (digits : List Char) (power : Int) : List Char :=
  let count := digits.length
  let point := power + count
  if 0 ≤ power ∧ point ≤ 16 then digits ++ List.replicate power.toNat '0' ++ ['.', '0']
  else if 0 < point ∧ point ≤ 16 then
    digits.take point.toNat ++ '.' :: digits.drop point.toNat
  else if -5 < point ∧ point ≤ 0 then
    '0' :: '.' :: List.replicate (-point).toNat '0' ++ digits
  else if count = 1 then digits ++ powerText (point - 1)
  else digits.take 1 ++ '.' :: digits.drop 1 ++ powerText (point - 1)

/-- A finite number as it is written in a document. -/
def document (x : Binary64) : List Char :=
  let word := x.bits.toNat % signBit
  let unsigned :=
    if word = 0 then ['0', '.', '0']
    else
      let (digits, power) := Shortest.decimal word
      placed digits power
  if x.bits.toNat < signBit then unsigned else '-' :: unsigned

end ContractFuzz.Binary64
