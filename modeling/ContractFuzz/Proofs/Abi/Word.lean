import ContractFuzz.Proofs.Abi.Mutation
import Mathlib.Data.Nat.Basic
/-!
# Values as machine words

Every value of an integer kind and every address stands for one word of its size, and every word of
that size is the word of one value. Numbers are words as they are, negative ones in two's
complement, and addresses are read byte by byte.

## Main definitions

* `AbiKind.HasWord` : a value and its word.

## Main results

* `fitBytes_leastBytes`, `tmod_add_tmod` : the bytes of an address, the remainder of a number.
* `AbiKind.exists_hasWord`, `AbiKind.HasWord.lt` : every such value has a word of its size.
* `AbiKind.hasWord_ofWord`, `AbiKind.HasWord.ofWord_eq` : the value of a word.
* `AbiKind.HasWord.word?_eq` : the word of a value.
-/

namespace ContractFuzz

/-- The words of values: a number that is not negative is its own word, the word of a negative one
is as far below the number of words as the number is below zero, and the bytes of an address make up
its word, the most significant first. -/
inductive AbiKind.HasWord : AbiKind → Value → Nat → Prop
  | uint {w : Width} {word : Nat} (h : word < w.words) :
      HasWord (.uint w) (.text (String.ofList (Text.decimal word))) word
  | int {w : Width} {i : Int} {word : Nat} (least : -(w.half : Int) ≤ i) (greatest : i < w.half)
      (complement : (word : Int) = if i < 0 then i + w.words else i) :
      HasWord (.int w) (.text (String.ofList (Text.decimalInt i))) word
  | address {bytes : List UInt8} (h : bytes.length = Width.address.bytes) :
      HasWord .address (.text (bytesText bytes)) (bigEndian bytes)

/-! ### The bytes of a word -/

theorem bigEndian_concat (bytes : List UInt8) (b : UInt8) :
    bigEndian (bytes ++ [b]) = bigEndian bytes * 256 + b.toNat := by
  simp [bigEndian]

theorem bigEndianBytes_bigEndian {count : Nat} {bytes : List UInt8} (h : bytes.length = count) :
    bigEndianBytes count (bigEndian bytes) = bytes := by
  induction count generalizing bytes with
  | zero => exact (List.length_eq_zero_iff.mp h).symm
  | succ count ih =>
    obtain ⟨init, last, rfl⟩ := (List.eq_nil_or_concat' bytes).resolve_left
      (List.ne_nil_of_length_eq_add_one h)
    have hlast := last.toNat_lt
    have hinit : init.length = count := by simpa using h
    have hdiv : (bigEndian init * 256 + last.toNat) / 256 = bigEndian init := by omega
    have hbyte : UInt8.ofNat (bigEndian init * 256 + last.toNat) = last := by
      rw [← UInt8.toNat_inj, UInt8.toNat_ofNat']
      omega
    rw [bigEndian_concat, bigEndianBytes, hdiv, ih hinit, hbyte]

theorem bigEndian_bigEndianBytes {count n : Nat} (h : n < Nat.pow 256 count) :
    bigEndian (bigEndianBytes count n) = n := by
  induction count generalizing n with
  | zero => exact (Nat.lt_one_iff.mp h).symm
  | succ count ih =>
    have hdiv : n / 256 < Nat.pow 256 count := Nat.div_lt_of_lt_mul (Nat.mul_comm _ 256 ▸ h)
    rw [bigEndianBytes, bigEndian_concat, ih hdiv, UInt8.toNat_ofNat']
    omega

theorem bigEndian_zeros_append (count : Nat) (bytes : List UInt8) :
    bigEndian (List.replicate count 0 ++ bytes) = bigEndian bytes := by
  induction count with
  | zero => rfl
  | succ count ih => rw [List.replicate_succ, List.cons_append]; exact ih

/-- The last ones of the lowest bytes are the lowest ones. -/
theorem drop_bigEndianBytes (extra count n : Nat) :
    (bigEndianBytes (extra + count) n).drop extra = bigEndianBytes count n := by
  induction count generalizing n with
  | zero => exact List.drop_eq_nil_of_le (Nat.le_of_eq (length_bigEndianBytes _ n))
  | succ count ih =>
    have hlength : extra ≤ (bigEndianBytes (extra + count) (n / 256)).length := by
      rw [length_bigEndianBytes]
      exact Nat.le_add_right extra count
    rw [← Nat.add_assoc, bigEndianBytes, bigEndianBytes, List.drop_append_of_le_length hlength, ih]

/-- A number written with enough bytes for it and then fitted has the bytes that are asked for. -/
theorem fitBytes_bigEndianBytes {length n : Nat} (h : n < Nat.pow 256 length) (count : Nat) :
    fitBytes count (bigEndianBytes length n) = bigEndianBytes count n := by
  rcases Nat.le_total length count with hle | hle
  · -- Zeros do not change the number, and it has only one form of this length.
    have hvalue : bigEndian (fitBytes count (bigEndianBytes length n)) = n := by
      rw [fitBytes, length_bigEndianBytes, Nat.sub_eq_zero_of_le hle, List.drop_zero,
        bigEndian_zeros_append, bigEndian_bigEndianBytes h]
    have hbytes := bigEndianBytes_bigEndian
      (length_fitBytes count (bigEndianBytes length n))
    rw [hvalue] at hbytes
    exact hbytes.symm
  · obtain ⟨extra, rfl⟩ := Nat.exists_eq_add_of_le' hle
    rw [fitBytes, length_bigEndianBytes, Nat.sub_eq_zero_of_le hle, Nat.add_sub_cancel,
      List.replicate_zero, List.nil_append, drop_bigEndianBytes]

/-- The bytes without leading zeros are enough. -/
theorem fitBytes_leastBytes (count n : Nat) :
    fitBytes count (leastBytes n) = bigEndianBytes count n := by
  refine fitBytes_bigEndianBytes ?_ count
  have hpow : Nat.pow 256 (n.log2 / 8 + 1) = Nat.pow 2 (8 * (n.log2 / 8 + 1)) :=
    (Nat.pow_mul 2 8 _).symm
  rw [hpow]
  exact Nat.lt_of_lt_of_le Nat.lt_log2_self (Nat.pow_le_pow_right Nat.two_pos (by omega))

/-! ### Words of a size -/

/-- The remainder of a division that rounds toward zero, taken again after a whole round. -/
theorem tmod_add_tmod {m : Int} (hm : 0 < m) (i : Int) : (i.tmod m + m).tmod m = i % m := by
  have hlow := Int.lt_tmod_of_pos i hm
  calc (i.tmod m + m).tmod m
    _ = (i.tmod m + m) % m := Int.tmod_eq_emod_of_nonneg (by omega)
    _ = i.tmod m % m := Int.add_emod_right _ _
    _ = (i.tmod m + m * i.tdiv m) % m := (Int.add_mul_emod_self_left ..).symm
    _ = i % m := by rw [Int.tmod_add_mul_tdiv]

namespace AbiKind

variable {kind : AbiKind} {width : Width} {v v' : Value} {word word' : Nat}

/-- A value that has a word is one of its kind. -/
theorem HasWord.isValue (h : kind.HasWord v word) : kind.IsValue v := by
  cases h with
  | uint h => exact .uint h
  | int least greatest => exact .int least greatest
  | address h => exact .address h

/-- Every value of a kind of words has a word. -/
theorem exists_hasWord (hkind : kind.wordWidth? = some width) (hv : kind.IsValue v) :
    ∃ word, kind.HasWord v word := by
  cases hv with
  | uint h => exact ⟨_, .uint h⟩
  | @int w i least greatest =>
    have hwords := w.words_eq
    refine ⟨(if i < 0 then i + w.words else i).toNat, .int least greatest ?_⟩
    split <;> omega
  | address h => exact ⟨_, .address h⟩
  | bool => cases hkind
  | string => cases hkind
  | bytes => cases hkind

/-- A word is less than the number of words of its size. -/
theorem HasWord.lt (hkind : kind.wordWidth? = some width) (h : kind.HasWord v word) :
    word < width.words := by
  cases h with
  | uint h => exact Option.some.inj hkind ▸ h
  | @int w i word least greatest complement =>
    obtain rfl := Option.some.inj hkind
    have hwords := w.words_eq
    split at complement <;> omega
  | address h =>
    obtain rfl := Option.some.inj hkind
    exact bigEndian_lt_words (Nat.le_of_eq h)

/-- The word of a signed number is its remainder. -/
theorem word?_int (w : Width) (s : String) :
    (int w).word? (.text s) =
      (Text.readSigned 10 s.toList).map fun i => (i % (w.words : Int)).toNat := by
  have hpos : (0 : Int) < w.words := Int.natCast_pos.mpr (Nat.two_pow_pos _)
  change (Text.readSigned 10 s.toList).map _ = _
  simp only [tmod_add_tmod hpos]

/-- The word of a value is found from its text. -/
theorem HasWord.word?_eq (h : kind.HasWord v word) : kind.word? v = some word := by
  cases h with
  | uint h =>
    change readUnsigned (String.ofList _).toList = _
    rw [String.toList_ofList, readUnsigned_decimal]
  | @int w i word least greatest complement =>
    have hwords := w.words_eq
    rw [word?_int, String.toList_ofList, Text.readSigned_decimalInt, Option.map_some]
    have hmod : i % (w.words : Int) = word := by
      by_cases hneg : i < 0
      · rw [if_pos hneg] at complement
        rw [complement]
        exact (Int.add_emod_right i w.words).symm.trans (Int.emod_eq_of_lt (by omega) (by omega))
      · rw [if_neg hneg] at complement
        exact complement ▸ Int.emod_eq_of_lt (by omega) (by omega)
    rw [hmod, Int.toNat_natCast]
  | address h =>
    change (readBytes (bytesText _).toList).map bigEndian = _
    rw [readBytes_bytesText, Option.map_some]

/-- Every word of the size is that of its value. -/
theorem hasWord_ofWord (hkind : kind.wordWidth? = some width) (h : word < width.words) :
    kind.HasWord (kind.ofWord word) word := by
  cases kind with
  | uint w =>
    obtain rfl := Option.some.inj hkind
    exact .uint h
  | int w =>
    obtain rfl := Option.some.inj hkind
    have hwords := w.words_eq
    by_cases hlarge : w.half ≤ word
    · rw [ofWord, if_pos hlarge]
      exact .int (by omega) (by omega) (by rw [if_pos (by omega)]; omega)
    · rw [ofWord, if_neg hlarge]
      exact .int (by omega) (by omega) (if_neg (by omega)).symm
  | address =>
    obtain rfl := Option.some.inj hkind
    have hword := HasWord.address (length_bigEndianBytes Width.address.bytes word)
    rw [bigEndian_bigEndianBytes (Width.words_eq_pow _ ▸ h)] at hword
    rwa [ofWord, fitBytes_leastBytes]
  | bool => cases hkind
  | string => cases hkind
  | bytes => cases hkind

/-- The value of a word is the only one that has it. -/
theorem HasWord.ofWord_eq (h : kind.HasWord v word) : kind.ofWord word = v := by
  cases h with
  | uint h => rfl
  | @int w i word least greatest complement =>
    have hwords := w.words_eq
    have hi : (if w.half ≤ word then (word : Int) - w.words else word) = i := by
      split at complement <;> split <;> omega
    rw [ofWord, hi]
  | address h => rw [ofWord, fitBytes_leastBytes, bigEndianBytes_bigEndian h]

theorem HasWord.value_unique (h : kind.HasWord v word) (h' : kind.HasWord v' word) : v = v' :=
  h.ofWord_eq.symm.trans h'.ofWord_eq

theorem HasWord.word_unique (h : kind.HasWord v word) (h' : kind.HasWord v word') : word = word' :=
  Option.some.inj (h.word?_eq.symm.trans h'.word?_eq)

end AbiKind

end ContractFuzz
