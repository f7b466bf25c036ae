import ContractFuzz.Binary64
/-!
# Numbers nearest to decimals

The word of a decimal number, correctly rounded: of the two words next to it the nearer one, and
the even one of two that are equally near. All arithmetic is exact.

## Main definitions

* `Binary64.ofRatio`: the word nearest to a ratio of natural numbers.
* `Binary64.ofDecimal`: the word nearest to a decimal number.
-/

namespace ContractFuzz.Binary64

/-- The natural number nearest to a ratio, the even one of two. -/
def roundRatio (num den : Nat) : Nat :=
  let whole := num / den
  let twice := 2 * (num % den)
  if twice < den then whole
  else if den < twice then whole + 1
  else whole + whole % 2

/-- The ratio in units of the power of two with the exponent `scale`. -/
def scaled (num den : Nat) (scale : Int) : Nat × Nat :=
  (num * Nat.pow 2 (-scale).toNat, den * Nat.pow 2 scale.toNat)

/-- The exponent of the greatest power of two that is at most a positive ratio. -/
def exponent (num den : Nat) : Int :=
  let guess := (num.log2 : Int) - den.log2
  let (n, d) := scaled num den guess
  if n < d then guess - 1 else guess

/-- The number of words with the same sign and exponent. -/
def fractions : Nat := 0x10000000000000

/-- The word of positive infinity. -/
def infinity : Nat := 0x7ff0000000000000

/-- The word nearest to a ratio, without sign. Words are numbered in the order of the numbers they
store: a word is the multiple of its unit, counted from the words with a smaller unit on. -/
def ofRatio (num den : Nat) : Nat :=
  if num = 0 then 0
  else
    let unit := Max.max (exponent num den - 52) (-1074)
    let (n, d) := scaled num den unit
    Nat.min infinity ((unit + 1074).toNat * fractions + roundRatio n d)

/-- The word nearest to `digits * 10 ^ power`, without sign. Numbers far out of the range are not
written out. -/
def ofDigits (digits : Nat) (power : Int) : Nat :=
  let top := power + (Nat.toDigits 10 digits).length
  if digits = 0 then 0
  else if top > 310 then infinity
  else if top < -330 then 0
  else ofRatio (digits * Nat.pow 10 power.toNat) (Nat.pow 10 (-power).toNat)

/-- The word nearest to a decimal number. -/
def ofDecimal (negative : Bool) (digits : Nat) (power : Int) : Binary64 :=
  ⟨.ofNat (ofDigits digits power + if negative then signBit else 0)⟩

end ContractFuzz.Binary64
