import ContractFuzz.Binary64.Decimal
import ContractFuzz.Text.Numeral
import ContractFuzz.Text.Toml.Document
/-!
# Bare values in TOML documents

Values that are written without quotes or brackets: truth values, numbers, dates and times.

## Main definitions

* `Toml.readInteger`, `Toml.readReal`: numbers.
* `Toml.isDate`, `Toml.isTime`: dates and times that the calendar and the clock know.
* `Toml.bare`: any bare value.
-/

namespace ContractFuzz.Text.Toml

/-! ### Numbers -/

/-- One or more digits, between which single underscores may stand. -/
def ungroup (base : Nat) : List Char → Option (List Nat)
  | [] => none
  | [c] => (digitValue? base c).map fun d => [d]
  | c :: '_' :: r => do return (← digitValue? base c) :: (← ungroup base r)
  | c :: r => do return (← digitValue? base c) :: (← ungroup base r)

/-- Digits that do not start with a superfluous zero. -/
def unpadded (cs : List Char) : Option (List Nat) :=
  (ungroup 10 cs).filter fun digits => digits.length == 1 || digits.head? != some 0

/-- Whether there is a minus sign, and the text after the sign. -/
def splitSign : List Char → Bool × List Char
  | '-' :: r => (true, r)
  | '+' :: r => (false, r)
  | cs => (false, cs)

/-- A number with its sign. -/
def signed (negative : Bool) (n : Nat) : Int := if negative then -n else n

/-- An integer of any size: decimal with a sign, or to another base without. -/
def readAnyInteger : List Char → Option Int
  | '0' :: 'x' :: r => (ungroup 16 r).map fun digits => (valueOf 16 digits : Int)
  | '0' :: 'o' :: r => (ungroup 8 r).map fun digits => (valueOf 8 digits : Int)
  | '0' :: 'b' :: r => (ungroup 2 r).map fun digits => (valueOf 2 digits : Int)
  | cs =>
    let (negative, r) := splitSign cs
    (unpadded r).map fun digits => signed negative (valueOf 10 digits)

/-- An integer that has a place in a word of 64 bits. -/
def readInteger (cs : List Char) : Option Int :=
  (readAnyInteger cs).filter fun n => Int64.minValue.toInt ≤ n && n ≤ Int64.maxValue.toInt

/-- The power of ten after the digits of a number, zero if there is none. -/
def readPower : List Char → Option Int
  | [] => some 0
  | c :: r =>
    if c == 'e' || c == 'E' then
      let (negative, r) := splitSign r
      (ungroup 10 r).map fun digits => signed negative (valueOf 10 digits)
    else none

/-- The digits that a text starts with, and its rest. -/
def splitDigits (cs : List Char) : List Char × List Char :=
  let isPart (c : Char) := c.isDigit || c == '_'
  (cs.takeWhile isPart, cs.dropWhile isPart)

/-- The digits of a number that is written with a fraction or a power of ten, and the power of ten
by which they count. -/
def readDecimal (cs : List Char) : Option (List Nat × Int) := do
  let (whole, r) := splitDigits cs
  let whole ← unpadded whole
  match r with
  | [] => none
  | '.' :: r =>
    let (fraction, r) := splitDigits r
    let fraction ← ungroup 10 fraction
    return (whole ++ fraction, (← readPower r) - fraction.length)
  | r => return (whole, ← readPower r)

/-- The number nearest to a written one. Positive numbers must not be too great. -/
def readReal (cs : List Char) : Option Binary64 :=
  let (negative, r) := splitSign cs
  match r with
  | ['i', 'n', 'f'] => some (if negative then ⟨0xfff0000000000000⟩ else ⟨0x7ff0000000000000⟩)
  | ['n', 'a', 'n'] => some (if negative then ⟨0xfff8000000000000⟩ else ⟨0x7ff8000000000000⟩)
  | _ => do
    let (digits, power) ← readDecimal r
    let x := Binary64.ofDecimal negative (valueOf 10 digits) power
    if x.bits = 0x7ff0000000000000 then none else some x

/-! ### Dates and times -/

/-- Whether two digits form a number in a range. -/
def isBetween (low high : Nat) (c d : Char) : Bool :=
  (readDigits 10 [c, d]).any fun n => low ≤ n && n ≤ high

/-- The number of days of a month. -/
def daysOfMonth (year month : Nat) : Nat :=
  if month = 2 then
    if year % 4 = 0 ∧ (year % 100 ≠ 0 ∨ year % 400 = 0) then 29 else 28
  else if month = 4 ∨ month = 6 ∨ month = 9 ∨ month = 11 then 30
  else 31

/-- A date, such as `2024-02-29`. -/
def isDate : List Char → Bool
  | [y₁, y₂, y₃, y₄, '-', m₁, m₂, '-', d₁, d₂] =>
    match readDigits 10 [y₁, y₂, y₃, y₄], readDigits 10 [m₁, m₂] with
    | some year, some month =>
      1 ≤ month && month ≤ 12 && isBetween 1 (daysOfMonth year month) d₁ d₂
    | _, _ => false
  | _ => false

/-- A time, such as `07:32:00.5`. A second may be inserted at the end of a minute. -/
def isTime : List Char → Bool
  | h₁ :: h₂ :: ':' :: m₁ :: m₂ :: ':' :: s₁ :: s₂ :: r =>
    isBetween 0 23 h₁ h₂ && isBetween 0 59 m₁ m₂ && isBetween 0 60 s₁ s₂ &&
      match r with
      | [] => true
      | '.' :: fraction => !fraction.isEmpty && fraction.all Char.isDigit
      | _ => false
  | _ => false

/-- How far a clock is from universal time, if that is said. -/
def isOffset : List Char → Bool
  | [] => true
  | ['Z'] => true
  | ['z'] => true
  | [sign, h₁, h₂, ':', m₁, m₂] =>
    (sign == '+' || sign == '-') && isBetween 0 23 h₁ h₂ && isBetween 0 59 m₁ m₂
  | _ => false

/-- A time that may be followed by an offset. -/
def isZonedTime (cs : List Char) : Bool :=
  let isPart (c : Char) := c.isDigit || c == ':' || c == '.'
  isTime (cs.takeWhile isPart) && isOffset (cs.dropWhile isPart)

/-- A time, or a date with a time after the letter `T`. -/
def isMoment (cs : List Char) : Bool :=
  isTime cs || isDate (cs.take 10) &&
    match cs.drop 10 with
    | c :: r => (c == 'T' || c == 't') && isZonedTime r
    | [] => true

/-! ### All bare values -/

/-- The characters of bare values. None of them may follow a value. -/
def isBareChar (c : Char) : Bool :=
  c.isAlphanum || c == '+' || c == '-' || c == '_' || c == '.' || c == ':'

/-- The value that a word stands for. -/
def ofWord (word : List Char) : Option Toml :=
  if word = ['t', 'r', 'u', 'e'] then some (.bool true)
  else if word = ['f', 'a', 'l', 's', 'e'] then some (.bool false)
  else if isMoment word then some .moment
  else
    match readReal word with
    | some x => some (.real x)
    | none => (readInteger word).map .integer

/-- What is left after the time that may follow a date after one space. -/
def afterDate (cs : List Char) : Option (List Char) :=
  match cs with
  | ' ' :: r =>
    let time := r.takeWhile isBareChar
    if time.isEmpty then some cs
    else if isZonedTime time then some (r.dropWhile isBareChar)
    else none
  | _ => some cs

/-- A bare value, and what follows it. -/
def bare (cs : List Char) : Option (Toml × List Char) := do
  let word := cs.takeWhile isBareChar
  let r := cs.dropWhile isBareChar
  let v ← ofWord word
  return (v, ← if isDate word then afterDate r else some r)

end ContractFuzz.Text.Toml
