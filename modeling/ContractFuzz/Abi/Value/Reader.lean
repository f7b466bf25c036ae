import ContractFuzz.Abi.Value
import ContractFuzz.Sorted.Map
import ContractFuzz.Text.Json
/-!
# Values from documents

The value that a JSON document describes. Integers that fit into a machine word are exact; all
other numbers are floating-point numbers.

## Main definitions

* `Value.ofNumber?`: the value of a written number.
* `Value.ofJson?`, `Value.parse`: the value of a document.
-/

namespace ContractFuzz.Value

open Text (Json Number)

/-- Append digits to a number as long as it fits into a machine word: the number, and how many
digits are left. -/
def appendDigits (n : Nat) : List Nat → Nat × Nat
  | [] => (n, 0)
  | d :: ds => if n * 10 + d < UInt64.size then appendDigits (n * 10 + d) ds else (n, ds.length + 1)

/-- The leading digits of a number, as far as they fit into a machine word, and the power of ten by
which they count. -/
def significand (n : Number) : Nat × Int :=
  let (whole, dropped) := appendDigits 0 n.whole
  let (all, left) := appendDigits whole n.fraction
  (all, n.power.getD 0 + dropped - (n.fraction.length - left : Nat))

/-- A number times a power of ten, in floating-point arithmetic. Great divisors are taken in parts,
and great results are refused. -/
def scaleByTen : (parts : Nat) → Binary64 → Int → Option Binary64
  | 0, x, _ => some x
  | parts + 1, x, power =>
    let ten (power : Int) : Float := (Binary64.ofDecimal false 1 power).toFloat
    if x.toFloat == 0 then some x
    else if power > 308 then none
    else if power ≥ 0 then
      let y := x.toFloat * ten power
      if y.isInf then none else some (.ofFloat y)
    else if power ≥ -308 then some (.ofFloat (x.toFloat / ten (-power)))
    else scaleByTen parts (.ofFloat (x.toFloat / ten 308)) (power + 308)

/-- The floating-point number that is read for a written one. After three divisions by great powers
of ten nothing is left of a machine word. -/
def readReal (n : Number) : Option Binary64 := do
  let (digits, power) := significand n
  let x ← scaleByTen 4 (.ofDecimal false digits 0) power
  return if n.negative then ⟨x.bits ||| 0x8000000000000000⟩ else x

/-- The value of a written number, if it is not too great. -/
def ofNumber? (n : Number) : Option Value :=
  let digits := Text.valueOf 10 n.whole
  if n.fraction.isEmpty && n.power.isNone then
    if !n.negative && digits < UInt64.size then some (.integer digits)
    else if n.negative && 0 < digits && digits ≤ Binary64.signBit then some (.integer (-digits))
    else (readReal n).map .real
  else (readReal n).map .real

mutual

/-- The value that a document describes, if its strings are texts and its numbers are not too
great. -/
def ofJson? : Json → Option Value
  | .null => some .null
  | .bool b => some (.bool b)
  | .number n => ofNumber? n
  | .string s => s.map .text
  | .array items => (ofItems? items).map .list
  | .object members =>
    (ofMembers? members).map fun fields => .record (SortedMap.ofList fields).entries

/-- The values that documents describe. -/
def ofItems? : List Json → Option (List Value)
  | [] => some []
  | j :: js => do return (← ofJson? j) :: (← ofItems? js)

/-- The fields that the members of an object describe. -/
def ofMembers? : List (Option String × Json) → Option (List (String × Value))
  | [] => some []
  | (name, j) :: ms => do return (← name, ← ofJson? j) :: (← ofMembers? ms)

end

/-- The value of a text that is a document. -/
def parse (s : String) : Option Value := (Json.parse s).bind ofJson?

end ContractFuzz.Value
