import ContractFuzz.Proofs.Abi.Word
import Mathlib.Data.Nat.Bitwise
/-!
# What the changes of words do

The changes of integers and addresses are changes of their words. Those that invert bits invert the
ones that are drawn and no others, so that the same draws undo them. Adding or subtracting one goes
around at the ends of the range, and the words at the edges are few. All but the last of these lead
to a different value.

## Main definitions

* `Inverted` : two words that differ in certain bits.
* `Mutator.mask?` : the bits that a change inverts, as they are drawn.
* `Mutator.Inverts` : a change of a value inverts certain bits of its word, and inverts them back.

## Main results

* `Mutator.inverts_of_mask?` : the changes that invert bits.
* `Mutator.addOrSubOne_word`, `Mutator.boundary_word` : the other ones.
* `Mutator.apply_word_exact` : all of it for one value.
-/

namespace ContractFuzz

/-- The second word has the bits of the first one, inverted at certain places. -/
structure Inverted (places : Nat → Prop) (old new : Nat) : Prop where
  /-- At these places the bits differ. -/
  inverted {place : Nat} (h : places place) : new.testBit place = !old.testBit place
  /-- At all others they agree. -/
  kept {place : Nat} (h : ¬ places place) : new.testBit place = old.testBit place

section Inverted

variable {places : Nat → Prop} {mask old new : Nat}

/-- A mask inverts the bits at the places where it has one. -/
theorem inverted_xor (h : ∀ place, mask.testBit place = true ↔ places place) (old : Nat) :
    Inverted places old (old ^^^ mask) where
  inverted hplace := by rw [Nat.testBit_xor, (h _).mpr hplace, Bool.xor_true]
  kept hplace := by
    have hmask := Bool.eq_false_iff.mpr (mt (h _).mp hplace)
    rw [Nat.testBit_xor, hmask, Bool.xor_false]

theorem Inverted.ne (h : Inverted places old new) {place : Nat} (hplace : places place) :
    new ≠ old := by
  rintro rfl
  simpa using h.inverted hplace

end Inverted

/-! ### Masks -/

theorem testBit_one_shiftLeft_iff (i j : Nat) : (1 <<< i).testBit j = true ↔ j = i := by
  rw [Nat.one_shiftLeft, Nat.testBit_two_pow, decide_eq_true_eq, eq_comm]

theorem testBit_byte_shiftLeft_iff (i j : Nat) :
    (255 <<< (i * 8)).testBit j = true ↔ j / 8 = i := by
  have hbyte : 255 = 2 ^ 8 - 1 := rfl
  rw [Nat.testBit_shiftLeft, hbyte, Nat.testBit_two_pow_sub_one, Bool.and_eq_true,
    decide_eq_true_eq, decide_eq_true_eq]
  omega

namespace Mutator

open AbiKind

/-- The bits that a change inverts, if it is one that inverts bits, as they are drawn. -/
def mask? (width : Width) : Mutator → Option (Draw Nat)
  | flipBit => some do return 1 <<< (← Draw.below width.bits)
  | flipTwoBits => some do
    let first ← Draw.below width.bits
    let second ← Draw.below width.bits
    return 1 <<< first ||| 1 <<< second
  | flipByte => some do return 255 <<< ((← Draw.below width.bytes) * 8)
  | _ => none

/-- Of the word of the value the bits at certain places are inverted. If the same is drawn once
more, they are inverted back. -/
structure Inverts (m : Mutator) (kind : AbiKind) (source : Source) (places : Nat → Prop)
    (v : Value) (word : Nat) : Prop where
  /-- The new value is the one with these bits inverted. -/
  inverted : ∃ new, kind.HasWord (m.apply kind v source).1 new ∧ Inverted places word new
  /-- The same change of the new value is the former value. -/
  involutive : (m.apply kind (m.apply kind v source).1 source).1 = v

/-- What has inverted some bit is another value. -/
theorem Inverts.ne {m : Mutator} {kind : AbiKind} {source : Source} {places : Nat → Prop}
    {v : Value} {word place : Nat} (h : m.Inverts kind source places v word)
    (hv : kind.HasWord v word) (hplace : places place) : (m.apply kind v source).1 ≠ v := by
  obtain ⟨new, hnew, hinverted⟩ := h.inverted
  intro heq
  exact hinverted.ne hplace ((heq ▸ hnew).word_unique hv)

section Word

variable {kind : AbiKind} {width : Width} (hkind : kind.wordWidth? = some width) {v : Value}
  {word : Nat} (source : Source)

include hkind

/-! ### Changes that invert bits -/

theorem hasWord_apply_of_mask? (hv : kind.HasWord v word) {m : Mutator} {mask : Draw Nat}
    (hmask : m.mask? width = some mask) (hlt : (mask source).1 < width.words) :
    kind.HasWord (m.apply kind v source).1 (word ^^^ (mask source).1) := by
  have happly : (m.apply kind v source).1 =
      kind.ofWord (((kind.word? v).getD 0 ^^^ (mask source).1) % width.words) := by
    obtain rfl := AbiKind.width_eq hkind
    cases m <;> cases hmask <;> rfl
  have hnew : word ^^^ (mask source).1 < width.words := Nat.xor_lt_two_pow (hv.lt hkind) hlt
  rw [happly, hv.word?_eq, Option.getD_some, Nat.mod_eq_of_lt hnew]
  exact hasWord_ofWord hkind hnew

/-- A change with a mask inverts the bits of the mask. -/
theorem inverts_of_mask? (hv : kind.HasWord v word) {m : Mutator} {mask : Draw Nat}
    (hmask : m.mask? width = some mask) {places : Nat → Prop}
    (hplaces : ∀ place, (mask source).1.testBit place = true ↔ places place)
    (hbits : ∀ place, places place → place < width.bits) :
    m.Inverts kind source places v word := by
  have hlt : (mask source).1 < width.words := by
    refine Nat.lt_pow_two_of_testBit _ fun place hplace => Bool.eq_false_iff.mpr fun hset => ?_
    exact absurd (hbits place ((hplaces place).mp hset)) (Nat.not_lt.mpr hplace)
  have hnew := hasWord_apply_of_mask? hkind source hv hmask hlt
  have hback := hasWord_apply_of_mask? hkind source hnew hmask hlt
  rw [Nat.xor_assoc, Nat.xor_self, Nat.xor_zero] at hback
  exact ⟨⟨_, hnew, inverted_xor hplaces word⟩, hback.value_unique hv⟩

/-! ### Other changes -/

omit hkind in
private theorem add_mod_ne {words change : Nat} (hword : word < words) (hpos : 0 < change)
    (hlt : change < words) : (word + change) % words ≠ word := by
  by_cases hsmall : word + change < words
  · rw [Nat.mod_eq_of_lt hsmall]
    omega
  · rw [Nat.mod_eq_sub_mod (by omega), Nat.mod_eq_of_lt (by omega)]
    omega

/-- Adding or subtracting one leads to the next word or the previous one, around the ends. -/
theorem addOrSubOne_word (hv : kind.HasWord v word) :
    ∃ new, kind.HasWord (addOrSubOne.apply kind v source).1 new ∧ new ≠ word ∧
      ((new : Int) = (word + 1) % width.words ∨ (new : Int) = (word - 1) % width.words) := by
  have hword := hv.lt hkind
  have hpos : 1 < width.words := by
    have hhalf : 0 < width.half := Nat.two_pow_pos _
    have hwords := width.words_eq
    omega
  have happly : (addOrSubOne.apply kind v source).1 = kind.ofWord
      ((if (Draw.coin source).1 then word + 1 else word + width.words - 1) % width.words) := by
    obtain rfl := AbiKind.width_eq hkind
    change kind.ofWord ((if (Draw.coin source).1 then (kind.word? v).getD 0 + 1 else
      (kind.word? v).getD 0 + kind.width.words - 1) % kind.width.words) = _
    rw [hv.word?_eq, Option.getD_some]
  have hnew : ∀ changed, kind.HasWord (kind.ofWord (changed % width.words))
      (changed % width.words) := fun changed =>
    hasWord_ofWord hkind (Nat.mod_lt _ (Nat.lt_of_succ_lt hpos))
  rw [happly]
  split
  · refine ⟨_, hnew _, add_mod_ne hword Nat.one_pos hpos, .inl ?_⟩
    push_cast
    rfl
  · refine ⟨_, hnew _, ?_, .inr ?_⟩
    · rw [Nat.add_sub_assoc (Nat.le_of_lt hpos)]
      exact add_mod_ne hword (by omega) (by omega)
    · have hsub : ((word + width.words - 1 : Nat) : Int) = word - 1 + width.words := by omega
      rw [Int.natCast_emod, hsub, Int.add_emod_right]

/-- The words at the edges are drawn from a list. -/
theorem boundary_word :
    ∃ edge ∈ boundaryWords kind, kind.HasWord (boundary.apply kind v source).1 edge := by
  have hpos : 0 < (boundaryWords kind).length := by
    unfold boundaryWords
    split <;> exact Nat.succ_pos _
  have hdrawn := Draw.below_lt hpos source
  have hmem := List.getElem_mem hdrawn
  have hlt : ∀ edge ∈ boundaryWords kind, edge < width.words := by
    have hhalf : 0 < width.half := Nat.two_pow_pos _
    have hwords := width.words_eq
    have hwidth := AbiKind.width_eq hkind
    unfold boundaryWords
    split
    · obtain rfl := Option.some.inj hkind
      simp only [List.mem_cons, List.not_mem_nil, or_false, hwidth]
      rintro edge (rfl | rfl | rfl | rfl) <;> omega
    · simp only [List.mem_cons, List.not_mem_nil, or_false, hwidth]
      rintro edge (rfl | rfl | rfl) <;> omega
  refine ⟨_, hmem, ?_⟩
  have happly : (boundary.apply kind v source).1 = kind.ofWord
      ((boundaryWords kind).getD (Draw.below (boundaryWords kind).length source).1 0 %
        kind.width.words) := rfl
  rw [happly, AbiKind.width_eq hkind, List.getD_eq_getElem _ _ hdrawn,
    Nat.mod_eq_of_lt (hlt _ hmem)]
  exact hasWord_ofWord hkind (hlt _ hmem)

/-- One drawn bit is inverted. -/
theorem inverts_flipBit (hv : kind.HasWord v word) :
    flipBit.Inverts kind source (· = (Draw.below width.bits source).1) v word :=
  inverts_of_mask? hkind source hv rfl (fun _ => testBit_one_shiftLeft_iff _ _) fun _ hplace =>
    hplace ▸ Draw.below_lt width.bits_pos source

/-- Two drawn bits are inverted, or one if the same is drawn twice. -/
theorem inverts_flipTwoBits (hv : kind.HasWord v word) :
    flipTwoBits.Inverts kind source (fun place => place = (Draw.below width.bits source).1 ∨
      place = (Draw.below width.bits (Draw.below width.bits source).2).1) v word := by
  refine inverts_of_mask? hkind source hv rfl (fun place => ?_) ?_
  · change (1 <<< (Draw.below width.bits source).1 |||
      1 <<< (Draw.below width.bits (Draw.below width.bits source).2).1).testBit place = true ↔ _
    rw [Nat.testBit_or, Bool.or_eq_true, testBit_one_shiftLeft_iff, testBit_one_shiftLeft_iff]
  · rintro place (rfl | rfl) <;> exact Draw.below_lt width.bits_pos _

/-- The eight bits of one drawn byte are inverted. -/
theorem inverts_flipByte (hv : kind.HasWord v word) :
    flipByte.Inverts kind source (· / 8 = (Draw.below width.bytes source).1) v word := by
  refine inverts_of_mask? hkind source hv rfl (fun _ => testBit_byte_shiftLeft_iff _ _) ?_
  intro place hplace
  have hdrawn := Draw.below_lt width.one_le source
  rw [Width.bits]
  omega

end Word

/-- The edges of a kind without negative numbers. -/
theorem boundaryWords_of_ne_int {kind : AbiKind} (h : ∀ w, kind ≠ .int w) :
    boundaryWords kind = [0, 1, kind.width.words - 1] := by
  unfold boundaryWords
  split
  · exact absurd rfl (h _)
  · rfl

/-- The edges of a signed kind as numbers. -/
theorem exists_hasWord_of_mem_boundaryWords {w : Width} {edge : Nat}
    (h : edge ∈ boundaryWords (.int w)) :
    ∃ i ∈ ([0, -1, w.half - 1, -w.half] : List Int),
      (AbiKind.int w).HasWord (.text (String.ofList (Text.decimalInt i))) edge := by
  have hhalf : 0 < w.half := Nat.two_pow_pos _
  have hwords := w.words_eq
  have hedges : boundaryWords (.int w) = [0, w.words - 1, w.half - 1, w.half] := rfl
  simp only [hedges, List.mem_cons, List.not_mem_nil, or_false] at h
  rcases h with rfl | rfl | rfl | rfl
  · exact ⟨0, by simp, .int (by omega) (by omega) rfl⟩
  · exact ⟨-1, by simp, .int (by omega) (by omega) (by rw [if_pos (by omega)]; omega)⟩
  · exact ⟨w.half - 1, by simp, .int (by omega) (by omega) (by rw [if_neg (by omega)]; omega)⟩
  · exact ⟨-w.half, by simp, .int (by omega) (by omega) (by rw [if_pos (by omega)]; omega)⟩

/-- The changes of a value of an integer kind or of an address, whose word has as many bits as its
kind. Inverting a bit inverts the drawn bit of the word, inverting two bits the two drawn ones,
which may be the same, and inverting a byte the eight bits of the drawn byte; the same draws undo
it. Adding or subtracting one leads to the next word or the previous one, around the ends of the
range. The edges of a signed kind are zero, minus one, the greatest number and the least one, and
those of others are the words zero, one and the greatest one. All changes but those to an edge and
to a random word lead to another value. -/
theorem apply_word_exact {kind : AbiKind} {width : Width} (hkind : kind.wordWidth? = some width)
    {v : Value} (hv : kind.IsValue v) (source : Source) :
    ∃ word, kind.HasWord v word ∧ word < width.words ∧
      (∃ bit < width.bits, bit = (Draw.below width.bits source).1 ∧
        flipBit.Inverts kind source (· = bit) v word) ∧
      (∃ first < width.bits, ∃ second < width.bits, first = (Draw.below width.bits source).1 ∧
        second = (Draw.below width.bits (Draw.below width.bits source).2).1 ∧
        flipTwoBits.Inverts kind source (fun place => place = first ∨ place = second) v word) ∧
      (∃ byte < width.bytes, byte = (Draw.below width.bytes source).1 ∧
        flipByte.Inverts kind source (· / 8 = byte) v word) ∧
      (∃ new, kind.HasWord (addOrSubOne.apply kind v source).1 new ∧
        ((new : Int) = (word + 1) % width.words ∨ (new : Int) = (word - 1) % width.words)) ∧
      (∀ m ∈ kind.mutators, m = boundary ∨ m = havoc ∨ (m.apply kind v source).1 ≠ v) ∧
      ((∀ w, kind ≠ .int w) → ∃ edge ∈ [0, 1, width.words - 1],
        kind.HasWord (boundary.apply kind v source).1 edge) ∧
      ∀ w, kind = .int w → ∃ edge ∈ ([0, -1, w.half - 1, -w.half] : List Int),
        (boundary.apply kind v source).1 = .text (String.ofList (Text.decimalInt edge)) := by
  obtain ⟨word, hword⟩ := exists_hasWord hkind hv
  have hbit := inverts_flipBit hkind source hword
  have hbits := inverts_flipTwoBits hkind source hword
  have hbyte := inverts_flipByte hkind source hword
  obtain ⟨new, hnew, hne, hstep⟩ := addOrSubOne_word hkind source hword
  obtain ⟨edge, hedge, hat⟩ := boundary_word (v := v) hkind source
  refine ⟨word, hword, hword.lt hkind,
    ⟨_, Draw.below_lt width.bits_pos _, rfl, hbit⟩,
    ⟨_, Draw.below_lt width.bits_pos _, _, Draw.below_lt width.bits_pos _, rfl, rfl, hbits⟩,
    ⟨_, Draw.below_lt width.one_le _, rfl, hbyte⟩,
    ⟨new, hnew, hstep⟩, fun m hm => ?_, fun hunsigned => ⟨edge, ?_, hat⟩, ?_⟩
  · rw [AbiKind.mutators_of_wordWidth? hkind] at hm
    simp only [List.mem_cons, List.not_mem_nil, or_false] at hm
    rcases hm with rfl | rfl | rfl | rfl | rfl | rfl | rfl | rfl
    · exact .inr (.inr (hbit.ne hword rfl))
    · exact .inr (.inr (hbit.ne hword rfl))
    · exact .inr (.inr (hbit.ne hword rfl))
    · exact .inr (.inr (hbits.ne hword (.inl rfl)))
    · exact .inr (.inr (hbyte.ne hword (Nat.mul_div_cancel_left _ (by decide : 0 < 8))))
    · exact .inr (.inr fun heq => hne ((heq ▸ hnew).word_unique hword))
    · exact .inl rfl
    · exact .inr (.inl rfl)
  · rwa [boundaryWords_of_ne_int hunsigned, AbiKind.width_eq hkind] at hedge
  · rintro w rfl
    obtain ⟨i, hi, hword'⟩ := exists_hasWord_of_mem_boundaryWords hedge
    exact ⟨i, hi, hat.value_unique hword'⟩

/-- The least number of eight bits is the word 128. With a source of zeros its lowest bit is
inverted, and all but two of its changes lead to other numbers. -/
theorem apply_word_exact_leastByte :
    let kind := AbiKind.int ⟨1, by decide, by decide⟩
    let v := Value.text (String.ofList (Text.decimalInt (-128)))
    let source := Source.cycle #[]
    kind.IsValue v ∧ kind.HasWord v 128 ∧ flipBit.Inverts kind source (· = 0) v 128 ∧
      ∀ m ∈ kind.mutators, m = boundary ∨ m = havoc ∨ (m.apply kind v source).1 ≠ v := by
  intro kind v source
  have hword : kind.HasWord v 128 := .int (by decide) (by decide) (by decide)
  have hkind : kind.wordWidth? = some ⟨1, by decide, by decide⟩ := rfl
  have hdrawn : (Draw.below 8 source).1 = 0 := by decide +kernel
  obtain ⟨word, hword', -, ⟨bit, -, hbit, inverts⟩, -, -, -, different, -⟩ :=
    apply_word_exact hkind hword.isValue source
  obtain rfl : word = 128 := hword'.word_unique hword
  obtain rfl : bit = 0 := hbit.trans hdrawn
  exact ⟨hword.isValue, hword, inverts, different⟩

end Mutator

end ContractFuzz
