import ContractFuzz.Text.Numeral
/-!
# Elementary types

The types of call arguments: unsigned and signed integers of whole bytes, addresses, truth values,
texts and byte strings.

## Main definitions

* `AbiKind`, `AbiType`: a kind of value, and the name under which a parameter declares it.
* `AbiKind.ofName?`, `AbiType.ofName?`: the supported names.
-/

namespace ContractFuzz

/-- A size in bytes, from one to thirty-two. -/
structure Width where
  /-- The number of bytes. -/
  bytes : Nat
  /-- There is at least one. -/
  one_le : 1 ≤ bytes
  /-- There are at most thirty-two. -/
  le_max : bytes ≤ 32
deriving DecidableEq

namespace Width

/-- The size in bits. -/
def bits (w : Width) : Nat := 8 * w.bytes

/-- The number of words of the size. -/
def words (w : Width) : Nat := Nat.pow 2 w.bits

/-- The number of words of the size that stand for numbers without a minus sign. -/
def half (w : Width) : Nat := Nat.pow 2 (w.bits - 1)

/-- The largest size. -/
def max : Width := ⟨32, by decide, by decide⟩

/-- The size of an address. -/
def address : Width := ⟨20, by decide, by decide⟩

/-- A number of bytes, if it is a size. -/
def ofBytes? (n : Nat) : Option Width :=
  if h : 1 ≤ n ∧ n ≤ 32 then some ⟨n, h.1, h.2⟩ else none

/-- A number of bits, if it is a size. -/
def ofBits? (n : Nat) : Option Width := if n % 8 = 0 then ofBytes? (n / 8) else none

end Width

/-- The kinds of values. -/
inductive AbiKind where
  | uint (width : Width)
  | int (width : Width)
  | address
  | bool
  | string
  /-- Byte strings: of any length, or of a fixed one. -/
  | bytes (length : Option Width)
deriving DecidableEq

namespace AbiKind

/-- The kind of integers that the rest of their name describes by a number of bits; without one
they have the largest size. -/
def integer? (kind : Width → AbiKind) (bits : List Char) : Option AbiKind :=
  if bits.isEmpty then some (kind .max)
  else (Text.readBounded 10 UInt32.size bits).bind fun n => (Width.ofBits? n).map kind

/-- The kind of fixed byte strings that the rest of their name describes by a length. -/
def fixedBytes? (length : List Char) : Option AbiKind :=
  (Text.readBounded 10 UInt64.size length).bind fun n =>
    (Width.ofBytes? n).map fun w => .bytes (some w)

/-- The kind that a type name stands for. -/
def ofName? (name : String) : Option AbiKind :=
  if name = "bool" then some .bool
  else if name = "address" ∨ name = "address payable" then some .address
  else if name = "string" then some .string
  else if name = "bytes" then some (.bytes none)
  else match name.toList with
    | 'u' :: 'i' :: 'n' :: 't' :: bits => integer? .uint bits
    | 'i' :: 'n' :: 't' :: bits => integer? .int bits
    | 'b' :: 'y' :: 't' :: 'e' :: 's' :: length => fixedBytes? length
    | _ => none

/-- The size of the kinds whose values are machine words. -/
def wordWidth? : AbiKind → Option Width
  | uint w => some w
  | int w => some w
  | address => some .address
  | _ => none

end AbiKind

/-- A type as a parameter declares it. -/
structure AbiType where
  /-- The declared name, by which the corpus knows the type. -/
  name : String
  /-- What its values are. -/
  kind : AbiKind
deriving DecidableEq

/-- The type of a supported name. -/
def AbiType.ofName? (name : String) : Option AbiType :=
  (AbiKind.ofName? name).map fun kind => ⟨name, kind⟩

end ContractFuzz
