/-!
# Binary floating-point words

Floating-point numbers as the words that store them, with the sign of what is not a number. The
arithmetic is that of `Float`; a result that is not a number keeps the sign of the operand that is
none, and has a negative sign when neither is.

## Main definitions

* `Binary64`, with conversions from and to `Float`.
* `Binary64.add`, `Binary64.mul`, `Binary64.max`.
* `Binary64.rank`: the place of a word in the total order of all words.
-/

namespace ContractFuzz

/-- A floating-point number, as the word that stores it. -/
structure Binary64 where
  /-- The word. -/
  bits : UInt64
deriving DecidableEq, Inhabited

namespace Binary64

/-- The number that a word stores. -/
def toFloat (x : Binary64) : Float := .ofBits x.bits

/-- Not a number, with a negative sign: the result of an invalid operation. -/
def invalid : Binary64 := ⟨0xfff8000000000000⟩

/-- The word of a number. -/
def ofFloat (x : Float) : Binary64 := if x.isNaN then invalid else ⟨x.toBits⟩

/-- Whether a word stores no number. -/
def isNaN (x : Binary64) : Bool := x.bits &&& 0x7fffffffffffffff > 0x7ff0000000000000

/-- A word that stores no number, marked as the result of an operation. -/
def quiet (x : Binary64) : Binary64 := ⟨x.bits ||| 0x0008000000000000⟩

/-- An operation on numbers, extended to words that store none: the first of them is the result. -/
def lift (op : Float → Float → Float) (x y : Binary64) : Binary64 :=
  if x.isNaN then x.quiet
  else if y.isNaN then y.quiet
  else ofFloat (op x.toFloat y.toFloat)

/-- The sum. -/
def add (x y : Binary64) : Binary64 := lift (· + ·) x y

/-- The product. -/
def mul (x y : Binary64) : Binary64 := lift (· * ·) x y

/-- The greater of two numbers, and the number if the other word stores none. -/
def max (x y : Binary64) : Binary64 :=
  if x.isNaN then y else if y.isNaN then x else if x.toFloat < y.toFloat then y else x

instance : Add Binary64 := ⟨add⟩

instance : Mul Binary64 := ⟨mul⟩

/-- The number of words without a sign. -/
def signBit : Nat := 0x8000000000000000

/-- The place in the total order, in which negative numbers precede positive ones, zeros included,
and what is not a number lies outside the infinities on the side of its sign. -/
def rank (x : Binary64) : Nat :=
  if x.bits < 0x8000000000000000 then x.bits.toNat + signBit else UInt64.size - 1 - x.bits.toNat

theorem rank_inj {x y : Binary64} (h : x.rank = y.rank) : x = y := by
  have hx := x.bits.toNat_lt
  have hy := y.bits.toNat_lt
  have bound (z : UInt64) : z < 0x8000000000000000 ↔ z.toNat < signBit := UInt64.lt_iff_toNat_lt
  simp only [rank, bound, signBit, UInt64.size] at h
  cases x; cases y
  congr 1
  apply UInt64.toNat_inj.1
  simp only at h hx hy
  split at h <;> split at h <;> omega

end Binary64

end ContractFuzz
