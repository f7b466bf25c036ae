import ContractFuzz.Abi.Type
import ContractFuzz.Abi.Value
import ContractFuzz.Failure
import ContractFuzz.Text.Blank
import ContractFuzz.Text.Hex
/-!
# Reading and writing values

The correspondence between texts, typed values and machine words. Every kind of value has one
canonical text: decimal without leading zeros for integers, `0x` and lower-case digits for bytes.

## Main definitions

* `bigEndian`, `leastBytes`, `fitBytes`: numbers as bytes.
* `AbiKind.word?`, `AbiKind.ofWord`: values as words in two's complement, and back.
* `AbiKind.read?`: the value that a text stands for.
* `AbiType.deserialize`: the same, with the failure that names text and type.
-/

namespace ContractFuzz

/-- The canonical text of a byte string. -/
def bytesText (bytes : List UInt8) : String := String.ofList ('0' :: 'x' :: Text.hexText bytes)

/-- The bytes of a text of hexadecimal digits, which may follow `0x`. -/
def readBytes (cs : List Char) : Option (List UInt8) :=
  match cs with
  | '0' :: 'x' :: r => Text.readHex r
  | _ => Text.readHex cs

/-- The number with the given bytes, the most significant first. -/
def bigEndian (bytes : List UInt8) : Nat := bytes.foldl (fun n b => n * 256 + b.toNat) 0

/-- The lowest `count` bytes of a number, the most significant first. -/
def bigEndianBytes (count n : Nat) : List UInt8 :=
  match count with
  | 0 => []
  | count + 1 => bigEndianBytes count (n / 256) ++ [UInt8.ofNat n]

/-- The bytes of a number without leading zeros, the most significant first; zero has one byte. -/
def leastBytes (n : Nat) : List UInt8 := bigEndianBytes (n.log2 / 8 + 1) n

/-- The last `count` bytes, after zeros where there are fewer. -/
def fitBytes (count : Nat) (bytes : List UInt8) : List UInt8 :=
  List.replicate (count - bytes.length) 0 ++ bytes.drop (bytes.length - count)

/-- The number of a text: hexadecimal after `0x`, else decimal. -/
def readUnsigned (cs : List Char) : Option Nat :=
  match cs with
  | '0' :: 'x' :: r => Text.readGrouped 16 r
  | _ => Text.readGrouped 10 cs

namespace AbiKind

/-- The two's complement word of a value, of the kinds that are words. Unsigned numbers that are too
large are not cut. The remainder of a negative number may be negative, so it is taken once more
after the number of words is added. -/
def word? (kind : AbiKind) (v : Value) : Option Nat := do
  let cs := (← v.text?).toList
  match kind with
  | uint _ => readUnsigned cs
  | int w => (Text.readSigned 10 cs).map fun i => ((i.tmod w.words + w.words).tmod w.words).toNat
  | address => (readBytes cs).map bigEndian
  | _ => none

/-- The value of a two's complement word. -/
def ofWord (kind : AbiKind) (word : Nat) : Value :=
  match kind with
  | int w =>
    let i : Int := if w.half ≤ word then (word : Int) - w.words else word
    .text (String.ofList (Text.decimalInt i))
  | address => .text (bytesText (fitBytes Width.address.bytes (leastBytes word)))
  | _ => .text (String.ofList (Text.decimal word))

/-- The value of a kind that every fresh argument has. -/
def zero : AbiKind → Value
  | bool => .bool false
  | string => .text ""
  | bytes length => .text (bytesText (List.replicate (length.elim 0 Width.bytes) 0))
  | kind => kind.ofWord 0

/-- The value of a truth value's text. -/
def readBool? (cs : List Char) : Option Value :=
  if cs = ['t', 'r', 'u', 'e'] ∨ cs = ['1'] then some (.bool true)
  else if cs = ['f', 'a', 'l', 's', 'e'] ∨ cs = ['0'] then some (.bool false)
  else none

/-- The value that a text without surrounding blanks stands for. -/
def read? (kind : AbiKind) (cs : List Char) : Option Value :=
  match kind with
  | bool => readBool? cs
  | string => some (.text (String.ofList cs))
  | bytes length =>
    ((readBytes cs).filter fun b => length.all fun w => w.bytes == b.length).map
      fun b => .text (bytesText b)
  | address =>
    ((readBytes cs).filter fun b => b.length == Width.address.bytes).map
      fun b => .text (bytesText b)
  | uint w =>
    ((readUnsigned cs).filter fun n => n < w.words).map
      fun n => .text (String.ofList (Text.decimal n))
  | int w =>
    ((Text.readSigned 10 cs).filter fun i => -(w.half : Int) ≤ i ∧ i < w.half).map
      fun i => .text (String.ofList (Text.decimalInt i))

/-- The part of a text that counts: all of it for texts, and for all other kinds what stands
between the blanks. -/
def significant (kind : AbiKind) (raw : String) : String :=
  match kind with
  | string => raw
  | _ => Text.trim raw

end AbiKind

namespace AbiType

/-- The value that a serialized text stands for. -/
def deserialize (type : AbiType) (raw : String) : Except Failure Value :=
  let raw := type.kind.significant raw
  match type.kind.read? raw.toList with
  | some v => .ok v
  | none => .error (.invalidValue type.name raw)

/-- A supported type by its declared name. -/
def named (name : String) : Except Failure AbiType :=
  match ofName? name with
  | some type => .ok type
  | none => .error (.unsupportedType name)

end AbiType

end ContractFuzz
