import ContractFuzz.Random.Keystream
/-!
# Sources of randomness

Where random words come from, and the draws that are made from them. A draw is a function of the
source that also returns what is left of it, so a campaign with the same sources is the same
campaign.

## Main definitions

* `Source`: a seeded keystream, or any given stream of words.
* `Draw`: a computation that consumes words of a source.
* `Draw.below`, `Draw.choose`, `Draw.fraction`, `Draw.coin`, `Draw.bytes`: the draws in use.

## Main results

* `Draw.below_lt`: a number drawn below a bound is below it.
-/

namespace ContractFuzz

/-- A source of random words. -/
inductive Source where
  /-- The words of a keystream. -/
  | keystream (stream : Keystream)
  /-- The words of any infinite sequence, from a position on. -/
  | sequence (word : Nat → UInt64) (position : Nat)

instance : Inhabited Source := ⟨.sequence (fun _ => 0) 0⟩

namespace Source

/-- The source of a seed. -/
def ofSeed (seed : UInt64) : Source := .keystream (.ofSeed seed)

/-- The source that gives the listed words over and over, or zeros if there are none. -/
def cycle (words : Array UInt64) : Source :=
  .sequence (fun i => words.getD (i % words.size) 0) 0

end Source

/-- A computation that consumes words of a source. -/
abbrev Draw := StateM Source

namespace Draw

/-- The low byte of a word, and so on upwards: as many bytes as asked for. -/
def littleEndian : Nat → Nat → List UInt8
  | 0, _ => []
  | k + 1, w => UInt8.ofNat w :: littleEndian k (w / 256)

/-- Thirty-two random bits. A sequence of longer words gives the low half of one. -/
def word32 : Draw UInt32 := fun s =>
  match s with
  | .keystream k => let (w, k) := k.next; (w, .keystream k)
  | .sequence word i => ((word i).toUInt32, .sequence word (i + 1))

/-- Sixty-four random bits. A keystream gives two words, the low half first. -/
def word64 : Draw UInt64 := fun s =>
  match s with
  | .keystream k =>
    let (low, k) := k.next
    let (high, k) := k.next
    (high.toUInt64 <<< 32 ||| low.toUInt64, .keystream k)
  | .sequence word i => (word i, .sequence word (i + 1))

/-- The bytes of `n` words of a keystream, each with its low byte first. -/
def keystreamBytes : Nat → Keystream → List UInt8 × Keystream
  | 0, k => ([], k)
  | n + 1, k =>
    let (w, k) := k.next
    let (rest, k) := keystreamBytes n k
    (littleEndian 4 w.toNat ++ rest, k)

/-- A number of random bytes. Bytes of the last word that are not needed are lost. -/
def bytes (count : Nat) : Draw (List UInt8) := fun s =>
  match s with
  | .keystream k =>
    let (all, k) := keystreamBytes ((count + 3) / 4) k
    (all.take count, .keystream k)
  | .sequence word i =>
    let n := (count + 7) / 8
    let all := (List.range n).flatMap fun j => littleEndian 8 (word (i + j)).toNat
    (all.take count, .sequence word (i + n))

/-- One random byte. -/
def byte : Draw UInt8 := do return (← word32).toUInt8

/-- The number that a random `word` below `size` selects below `n`, and what is left of
the word for a correction. -/
def scale (size n word : Nat) : Nat × Nat := (word * n / size, word * n % size)

/-- Choose a number below `n` by scaling a word below `size`. When the remainder shows that
the choice may be biased, a second word decides whether to move up by one. -/
def scaled (size : Nat) (word : Draw Nat) (n : Nat) : Draw Nat := fun s =>
  let (w, s) := word s
  let (choice, rest) := scale size n w
  if rest > size - n then
    let (v, s) := word s
    (if rest + (scale size n v).1 ≥ size then choice + 1 else choice, s)
  else (choice, s)

/-- A number below `n`, drawn from words of 32 bits if `n` fits into one. -/
def below (n : Nat) : Draw Nat :=
  if n < UInt32.size then scaled UInt32.size (do return (← word32).toNat) n
  else scaled UInt64.size (do return (← word64).toNat) n

private theorem scale_lt {size n w : Nat} (hn : 0 < n) (hw : w < size) :
    (scale size n w).1 < n ∧
      ((scale size n w).2 > size - n → (scale size n w).1 + 1 < n) := by
  simp only [scale]
  have hsplit := Nat.div_add_mod (w * n) size
  have hle : w * n + n ≤ size * n := by
    rw [← Nat.succ_mul]; exact Nat.mul_le_mul_right n hw
  generalize w * n / size = q at *
  generalize w * n % size = r at *
  have hq : q < n := by
    refine Nat.lt_of_not_le fun h => ?_
    have := Nat.mul_le_mul_left size h
    omega
  refine ⟨hq, fun hr => ?_⟩
  refine Nat.lt_of_le_of_ne hq fun h => ?_
  subst h
  have : size * (q + 1) = size * q + size := Nat.mul_succ size q
  omega

theorem scaled_lt {size n : Nat} {word : Draw Nat} (hn : 0 < n)
    (hw : ∀ s, (word s).1 < size) (s : Source) : (scaled size word n s).1 < n := by
  have h := scale_lt hn (hw s)
  rcases hd : word s with ⟨w, s'⟩
  rcases hc : scale size n w with ⟨choice, rest⟩
  simp only [hd, hc] at h
  simp only [scaled, hd, hc]
  split
  · next hr =>
    have := h.2 hr
    rcases word s' with ⟨v, s''⟩
    simp only
    split <;> omega
  · exact h.1

theorem below_lt {n : Nat} (hn : 0 < n) (s : Source) : (below n s).1 < n := by
  unfold below
  split
  · exact scaled_lt hn (fun s => UInt32.toNat_lt _) s
  · exact scaled_lt hn (fun s => UInt64.toNat_lt _) s

/-- A member of a list; nothing is drawn for the empty one. -/
def choose {α : Type} (l : List α) : Draw (Option α) :=
  if l.isEmpty then pure none else do return l[← below l.length]?

/-- A multiple of `2 ^ -53` from 0 up to and without 1. -/
def fraction : Draw Float := do return ((← word64) >>> 11).toFloat / 9007199254740992

/-- A fair coin. -/
def coin : Draw Bool := do return (← word64) < 0x8000000000000000

end Draw

end ContractFuzz
