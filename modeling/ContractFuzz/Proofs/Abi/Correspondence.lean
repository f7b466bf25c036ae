import ContractFuzz.Proofs.Abi.Word
import ContractFuzz.Proofs.Numeral.Grammar
/-!
# One word for every value

Integers of a kind and its words correspond one to one, and so do addresses and the words of twenty
bytes. Numbers outside the range of a signed kind have words too, those of their remainders. The
text of an address has a digit for every four bits of its word.

## Main results

* `Text.hexText_bigEndianBytes` : the digits of a number of bytes, place by place.
* `AbiKind.word_correspondence` : words of values and values of words.
-/

namespace ContractFuzz

namespace Text

theorem hexText_concat (bytes : List UInt8) (b : UInt8) :
    hexText (bytes ++ [b]) =
      hexText bytes ++ [Nat.digitChar (b.toNat / 16), Nat.digitChar (b.toNat % 16)] := by
  rw [hexText, List.flatMap_append]
  rfl

/-- A byte takes two places in base sixteen. -/
theorem div_byte_div_place (n place : Nat) :
    n / 256 / Nat.pow 16 place = n / Nat.pow 16 (place + 2) := by
  have hpow : Nat.pow 16 (place + 2) = 256 * Nat.pow 16 place :=
    (Nat.pow_add 16 place 2).trans (Nat.mul_comm _ _)
  rw [Nat.div_div_eq_div_mul, hpow]

/-- The digits of the bytes of a number are its own digits in base sixteen, from the highest place
to the lowest. -/
theorem hexText_bigEndianBytes (count n : Nat) :
    hexText (bigEndianBytes count n) =
      (List.range (2 * count)).map fun i =>
        Nat.digitChar (n / Nat.pow 16 (2 * count - 1 - i) % 16) := by
  induction count generalizing n with
  | zero => rfl
  | succ count ih =>
    have hplaces : ∀ i ∈ List.range (2 * count),
        n / 256 / Nat.pow 16 (2 * count - 1 - i) = n / Nat.pow 16 (2 * count + 1 - i) := by
      intro i hi
      have hlt := List.mem_range.mp hi
      have hplace : 2 * count - 1 - i + 2 = 2 * count + 1 - i := by omega
      rw [div_byte_div_place, hplace]
    have hhigh : (UInt8.ofNat n).toNat / 16 = n / Nat.pow 16 1 % 16 := by
      rw [UInt8.toNat_ofNat']
      change n % 256 / 16 = n / 16 % 16
      omega
    have hlow : (UInt8.ofNat n).toNat % 16 = n / Nat.pow 16 0 % 16 := by
      rw [UInt8.toNat_ofNat']
      change n % 256 % 16 = n / 1 % 16
      omega
    have hrange : List.range (2 * (count + 1)) =
        List.range (2 * count) ++ [2 * count, 2 * count + 1] := by
      rw [Nat.mul_succ, List.range_succ, List.range_succ, List.append_assoc]
      rfl
    have hlast : 2 * (count + 1) - 1 = 2 * count + 1 := rfl
    rw [bigEndianBytes, hexText_concat, ih, hrange, List.map_append, hlast, hhigh, hlow]
    refine congrArg₂ _ (List.map_congr_left fun i hi => by rw [hplaces i hi]) ?_
    rw [List.map_cons, List.map_singleton, Nat.add_sub_cancel_left, Nat.sub_self]

end Text

namespace AbiKind

/-- An address has forty digits, those of its word from the highest place to the lowest. -/
theorem ofWord_address (word : Nat) :
    address.ofWord word = .text (String.ofList ('0' :: 'x' :: (List.range 40).map fun i =>
      Nat.digitChar (word / Nat.pow 16 (39 - i) % 16))) := by
  rw [ofWord, fitBytes_leastBytes, bytesText, Text.hexText_bigEndianBytes]
  rfl

/-- A word from the half on stands for the number as far below zero as the word is below the number
of words. -/
theorem ofWord_int (w : Width) (word : Nat) :
    (int w).ofWord word = .text (String.ofList (Text.decimalInt
      (if word < w.half then (word : Int) else word - w.words))) := by
  simp only [ofWord, ← Nat.not_le, ite_not]

/-- For every kind of integers and for addresses: every word of the size of the kind is the word of
its value, which is a value of the kind, and every value of the kind has a word of the size, of which
it is the value. For signed integers, the word of a number in any spelling is its remainder, also
outside the range of the kind, and the words below the half are the numbers that are not negative.
An address has forty lower-case digits after its mark, the most significant first. -/
theorem word_correspondence {kind : AbiKind} {width : Width}
    (hkind : kind.wordWidth? = some width) :
    (∀ word, word < width.words →
      kind.IsValue (kind.ofWord word) ∧ kind.word? (kind.ofWord word) = some word) ∧
    (∀ v, kind.IsValue v →
      ∃ word, word < width.words ∧ kind.word? v = some word ∧ kind.ofWord word = v) ∧
    (kind = .int width →
      (∀ s i, Text.Signed 10 s.toList i →
        ∃ word : Nat, kind.word? (.text s) = some word ∧ (word : Int) = i % width.words) ∧
      ∀ word : Nat, kind.ofWord word = .text (String.ofList (Text.decimalInt
        (if word < width.half then (word : Int) else word - width.words)))) ∧
    (kind = .address → ∀ word, kind.ofWord word =
      .text (String.ofList ('0' :: 'x' :: (List.range 40).map fun i =>
        Nat.digitChar (word / Nat.pow 16 (39 - i) % 16)))) := by
  refine ⟨fun word hword => ?_, fun v hv => ?_, ?_, ?_⟩
  · have h := hasWord_ofWord hkind hword
    exact ⟨h.isValue, h.word?_eq⟩
  · obtain ⟨word, h⟩ := exists_hasWord hkind hv
    exact ⟨word, h.lt hkind, h.word?_eq, h.ofWord_eq⟩
  · rintro rfl
    refine ⟨fun s i numeral => ?_, ofWord_int width⟩
    have hpos : (0 : Int) < width.words := Int.natCast_pos.mpr (Nat.two_pow_pos _)
    have hread := (Text.readSigned_eq_some_iff (show 10 ≤ 16 by decide)).mpr numeral
    refine ⟨(i % (width.words : Int)).toNat, by rw [word?_int, hread, Option.map_some], ?_⟩
    exact Int.toNat_of_nonneg (Int.emod_nonneg i (Int.ne_of_gt hpos))
  · rintro rfl
    exact ofWord_address

/-- In eight bits the greatest word is minus one, minus 129 has the word 127, and an address of one
byte has zeros before it. -/
theorem word_correspondence_signedByte :
    let width : Width := ⟨1, by decide, by decide⟩
    let least := Value.text (String.ofList (Text.decimalInt (-128)))
    (int width).wordWidth? = some width ∧
      (int width).word? ((int width).ofWord 255) = some 255 ∧
      (∃ word, word < width.words ∧ (int width).word? least = some word ∧
        (int width).ofWord word = least) ∧
      (∃ word : Nat, (int width).word? (.text "-129") = some word ∧ (word : Int) = -129 % 256) ∧
      address.ofWord 255 = .text "0x00000000000000000000000000000000000000ff" := by
  intro width least
  have hkind : (int width).wordWidth? = some width := rfl
  have hleast : (int width).IsValue least := .int (by decide) (by decide)
  have hnumeral : Text.Signed 10 "-129".toList (-129) :=
    (Text.readSigned_eq_some_iff (show 10 ≤ 16 by decide)).mp (by decide)
  obtain ⟨valueOf, wordOf, signed, -⟩ := word_correspondence hkind
  obtain ⟨-, -, -, digits⟩ := @word_correspondence address _ rfl
  refine ⟨hkind, (valueOf 255 (by decide)).2, wordOf _ hleast, (signed rfl).1 _ _ hnumeral, ?_⟩
  exact (digits rfl 255).trans (congrArg Value.text (by decide +kernel))

end AbiKind

end ContractFuzz
