import ContractFuzz.Abi.Codec
import ContractFuzz.Random.Source
/-!
# Generation and mutation

Fresh random values of every kind, and the small random changes that fuzzing makes to them. Words
are changed mostly by their bits, texts by their characters.

## Main definitions

* `AbiKind.generate`: a random value.
* `Mutator`, `AbiKind.mutators`: the changes, and which of them a kind has.
* `Mutator.apply`: carrying one out.
-/

namespace ContractFuzz

/-- A kind of random change to a value. -/
inductive Mutator where
  /-- Invert one bit of a word. -/
  | flipBit
  /-- Invert the bits at two drawn places of a word, which may be the same. -/
  | flipTwoBits
  /-- Invert one byte of a word. -/
  | flipByte
  /-- Add or subtract one, modulo the size of the word. -/
  | addOrSubOne
  /-- Replace a word by one at the edge of its range. -/
  | boundary
  /-- Replace a word by a random one. -/
  | havoc
  /-- Append a mark to a text. -/
  | appendMark
  /-- Drop the last character of a text. -/
  | dropLast
  /-- Replace a text by the empty one. -/
  | clear
  /-- Replace one character of a text by the next one. -/
  | bumpChar
  /-- Invert one bit of a byte string. -/
  | flipBytesBit
  /-- Invert all bits of a byte string. -/
  | invert
  /-- Append a random byte. -/
  | pushByte
  /-- Drop the last byte. -/
  | popByte
  /-- Negate a truth value. -/
  | negate
deriving DecidableEq

namespace AbiKind

/-- The changes that a kind has; one is chosen at random, so repetition gives weight. -/
def mutators : AbiKind → List Mutator
  | bool => [.negate]
  | string => [.appendMark, .dropLast, .clear, .bumpChar]
  | bytes none => [.flipBytesBit, .invert, .pushByte, .popByte]
  | bytes (some _) => [.flipBytesBit, .invert]
  | _ =>
    [.flipBit, .flipBit, .flipBit, .flipTwoBits, .flipByte, .addOrSubOne, .boundary, .havoc]

/-- The size of the words of a kind. -/
def width (kind : AbiKind) : Width := kind.wordWidth?.getD .max

end AbiKind

/-- The letters and digits of random texts. -/
def textAlphabet : List Char :=
  "abcdefghijklmnopqrstuvwxyzABCDEFGHIJKLMNOPQRSTUVWXYZ0123456789".toList

/-- The greatest length of random texts and byte strings. -/
def maxGeneratedLength : Nat := 32

namespace Draw

/-- A word of at most `width` bytes, of which there is a random number. -/
def word (width : Width) : Draw Nat := do
  return bigEndian (← bytes (← below (width.bytes + 1)))

/-- As many random letters as asked for. -/
def letters : Nat → Draw (List Char)
  | 0 => pure []
  | n + 1 => do
    let c := textAlphabet.getD (← below textAlphabet.length) 'a'
    return c :: (← letters n)

end Draw

namespace AbiKind

/-- A random value of a kind. -/
def generate : AbiKind → Draw Value
  | bool => do return .bool (← Draw.coin)
  | string => do
    return .text (String.ofList (← Draw.letters (← Draw.below (maxGeneratedLength + 1))))
  | bytes none => do
    return .text (bytesText (← Draw.bytes (← Draw.below (maxGeneratedLength + 1))))
  | bytes (some w) => do return .text (bytesText (← Draw.bytes w.bytes))
  | kind => do return kind.ofWord (← Draw.word kind.width)

end AbiKind

/-- The next character, or the same one if the next code point is none. -/
def nextChar (c : Char) : Char :=
  let n := c.toNat + 1
  if n.isValidChar then Char.ofNat n else c

/-- The words at the edges of a kind's range: zero and the greatest word, and between them, for
signed kinds, the greatest and the least number, for others one. -/
def boundaryWords (kind : AbiKind) : List Nat :=
  let greatest := kind.width.words - 1
  match kind with
  | .int w => [0, greatest, w.half - 1, w.half]
  | _ => [0, 1, greatest]

namespace Mutator

/-- A change of words: read the word (zero if there is none), change it, cut it to its size. -/
def onWord (kind : AbiKind) (v : Value) (change : Nat → Draw Nat) : Draw Value := do
  return kind.ofWord ((← change ((kind.word? v).getD 0)) % kind.width.words)

/-- A change of the characters of a text. -/
def onText (v : Value) (change : List Char → Draw (List Char)) : Draw Value := do
  return .text (String.ofList (← change (v.text?.getD "").toList))

/-- A change of bytes; other values count as no bytes. -/
def onBytes (v : Value) (change : List UInt8 → Draw (List UInt8)) : Draw Value := do
  let bytes := ((v.text?.map String.toList).bind readBytes).getD []
  return .text (bytesText (← change bytes))

/-- Carry out a change of a value of the given kind. -/
def apply (kind : AbiKind) (m : Mutator) (v : Value) : Draw Value :=
  let bits := kind.width.bits
  match m with
  | flipBit => onWord kind v fun w => do return w ^^^ 1 <<< (← Draw.below bits)
  | flipTwoBits => onWord kind v fun w => do
    let first := 1 <<< (← Draw.below bits)
    let second := 1 <<< (← Draw.below bits)
    return w ^^^ (first ||| second)
  | flipByte => onWord kind v fun w => do
    return w ^^^ 255 <<< ((← Draw.below kind.width.bytes) * 8)
  | addOrSubOne => onWord kind v fun w => do
    return if ← Draw.coin then w + 1 else w + kind.width.words - 1
  | boundary => onWord kind v fun _ => do
    let words := boundaryWords kind
    return words.getD (← Draw.below words.length) 0
  | havoc => onWord kind v fun _ => Draw.word kind.width
  | appendMark => onText v fun cs => return cs ++ ['F', 'U', 'Z', 'Z']
  | dropLast => onText v fun cs => return cs.dropLast
  | clear => onText v fun _ => return []
  | bumpChar => onText v fun cs =>
    if cs.isEmpty then return [] else do return cs.modify (← Draw.below cs.length) nextChar
  | flipBytesBit => onBytes v fun bytes =>
    if bytes.isEmpty then return [] else do
      let index ← Draw.below bytes.length
      let bit ← Draw.below 8
      return bytes.modify index (· ^^^ UInt8.ofNat (1 <<< bit))
  | invert => onBytes v fun bytes => return bytes.map (~~~ ·)
  | pushByte => onBytes v fun bytes => do return bytes ++ [← Draw.byte]
  | popByte => onBytes v fun bytes => return bytes.dropLast
  | negate => return .bool (!v.bool?.getD false)

end Mutator

end ContractFuzz
