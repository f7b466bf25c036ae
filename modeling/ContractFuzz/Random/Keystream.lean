/-!
# The keystream generator

The pseudo-random words of a seeded campaign: the ChaCha stream cipher with twelve rounds, its key
expanded from a 64-bit seed by a permuted congruential generator.

## Main definitions

* `Keystream.blockWords`: the sixteen words of one block.
* `Keystream`: a position in the stream of all blocks.
* `Keystream.ofSeed`, `Keystream.next`.
-/

namespace ContractFuzz

/-- A position in the word stream of a cipher key. -/
structure Keystream where
  /-- The cipher key. -/
  key : Vector UInt32 8
  /-- Number of the next block to compute. -/
  block : UInt64
  /-- Words of the current block that were not handed out yet. -/
  pending : List UInt32
deriving Inhabited

namespace Keystream

/-- Rotate a word to the left. -/
def rotateLeft (x : UInt32) (n : UInt32) : UInt32 := (x <<< n) ||| (x >>> (32 - n))

/-- Mix four words of the cipher state. -/
def quarterRound (s : Vector UInt32 16) (a b c d : Fin 16) : Vector UInt32 16 :=
  let s := s.set a (s[a] + s[b])
  let s := s.set d (rotateLeft (s[d] ^^^ s[a]) 16)
  let s := s.set c (s[c] + s[d])
  let s := s.set b (rotateLeft (s[b] ^^^ s[c]) 12)
  let s := s.set a (s[a] + s[b])
  let s := s.set d (rotateLeft (s[d] ^^^ s[a]) 8)
  let s := s.set c (s[c] + s[d])
  s.set b (rotateLeft (s[b] ^^^ s[c]) 7)

/-- Mix the columns of the state, then its diagonals. -/
def doubleRound (s : Vector UInt32 16) : Vector UInt32 16 :=
  let s := quarterRound s 0 4 8 12
  let s := quarterRound s 1 5 9 13
  let s := quarterRound s 2 6 10 14
  let s := quarterRound s 3 7 11 15
  let s := quarterRound s 0 5 10 15
  let s := quarterRound s 1 6 11 12
  let s := quarterRound s 2 7 8 13
  quarterRound s 3 4 9 14

/-- The state before mixing: the cipher's constants, the key, the number of the block and a zero
nonce. -/
def initial (key : Vector UInt32 8) (number : UInt64) : Vector UInt32 16 :=
  #v[0x61707865, 0x3320646e, 0x79622d32, 0x6b206574,
    key[0], key[1], key[2], key[3], key[4], key[5], key[6], key[7],
    number.toUInt32, (number >>> 32).toUInt32, 0, 0]

/-- The words of one block: the mixed state added to the initial one. -/
def blockWords (key : Vector UInt32 8) (number : UInt64) : List UInt32 :=
  let start := initial key number
  let mixed := Nat.repeat doubleRound 6 start
  (Vector.zipWith (· + ·) mixed start).toList

/-- The first word of the stream not handed out yet. -/
def next (s : Keystream) : UInt32 × Keystream :=
  match s.pending with
  | w :: r => (w, { s with pending := r })
  | [] =>
    match blockWords s.key s.block with
    | w :: r => (w, { s with block := s.block + 1, pending := r })
    | [] => (0, { s with block := s.block + 1 })

/-- One step of the generator that expands a seed to a key. -/
def expandStep (state : UInt64) : UInt64 := state * 6364136223846793005 + 11634580027462260723

/-- The key word that belongs to a state of the expansion. -/
def expandWord (state : UInt64) : UInt32 :=
  let x := (((state >>> 18) ^^^ state) >>> 27).toUInt32
  let r := (state >>> 59).toUInt32
  (x >>> r) ||| (x <<< ((32 - r) &&& 31))

/-- The cipher key of a seed: the words of the first eight states after it. -/
def expandKey (seed : UInt64) : Vector UInt32 8 :=
  Vector.ofFn fun i => expandWord (Nat.repeat expandStep (i.val + 1) seed)

/-- The stream of a seed, from its start. -/
def ofSeed (seed : UInt64) : Keystream := ⟨expandKey seed, 0, []⟩

end Keystream

end ContractFuzz
