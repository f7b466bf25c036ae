import ContractFuzz.Abi.Codec
import ContractFuzz.Proofs.Numeral
/-!
# Canonical values

The values that a kind really has: numbers in range, byte strings of the right length, all in their
one canonical text. Reading yields nothing else, and reading the text of such a value yields the
value.

## Main definitions

* `AbiKind.IsValue` : the values of a kind.

## Main results

* `AbiKind.isValue_of_read?` : what is read is a value of the kind.
* `AbiType.deserialize_serialized` : a value is read back from its text.
* `AbiKind.isValue_ofWord` : words of the right size stand for values of the kind.
-/

namespace ContractFuzz

/-- The canonical values of a kind. -/
inductive AbiKind.IsValue : AbiKind → Value → Prop
  | uint {w : Width} {n : Nat} (h : n < w.words) :
      IsValue (.uint w) (.text (String.ofList (Text.decimal n)))
  | int {w : Width} {i : Int} (least : -(w.half : Int) ≤ i) (greatest : i < w.half) :
      IsValue (.int w) (.text (String.ofList (Text.decimalInt i)))
  | address {bytes : List UInt8} (h : bytes.length = Width.address.bytes) :
      IsValue .address (.text (bytesText bytes))
  | bool (b : Bool) : IsValue .bool (.bool b)
  | string (s : String) : IsValue .string (.text s)
  | bytes {length : Option Width} {bytes : List UInt8} (h : ∀ w ∈ length, bytes.length = w.bytes) :
      IsValue (.bytes length) (.text (bytesText bytes))

/-! ### Byte strings -/

theorem readBytes_bytesText (bytes : List UInt8) :
    readBytes (bytesText bytes).toList = some bytes := by
  rw [bytesText, String.toList_ofList, readBytes, Text.readHex_hexText]

theorem isBlank_of_mem_bytesText {bytes : List UInt8} {c : Char}
    (h : c ∈ (bytesText bytes).toList) : Text.isBlank c = false := by
  have digit : ∀ k : Fin 16, Text.isBlank (Text.hexDigit k) = false := by decide
  have digits : ∀ c ∈ Text.hexText bytes, Text.isBlank c = false := by
    intro c hc
    obtain ⟨b, -, hc⟩ := List.mem_flatMap.mp hc
    have hb := b.toNat_lt
    rcases List.mem_cons.mp hc with rfl | hc
    · exact digit ⟨b.toNat / 16, by omega⟩
    · rw [List.mem_singleton.mp hc]
      exact digit ⟨b.toNat % 16, by omega⟩
  rw [bytesText, String.toList_ofList] at h
  rcases List.mem_cons.mp h with rfl | h
  · decide
  · rcases List.mem_cons.mp h with rfl | h
    · decide
    · exact digits c h

namespace AbiKind

/-! ### Reading -/

/-- What is read is a value of the kind. -/
theorem isValue_of_read? {kind : AbiKind} {cs : List Char} {v : Value}
    (h : kind.read? cs = some v) : kind.IsValue v := by
  cases kind with
  | bool =>
    rw [read?, readBool?] at h
    split at h
    · exact Option.some.inj h ▸ .bool true
    · split at h
      · exact Option.some.inj h ▸ .bool false
      · cases h
  | string => exact Option.some.inj h ▸ .string _
  | bytes length =>
    obtain ⟨b, hb, rfl⟩ := Option.map_eq_some_iff.mp h
    obtain ⟨-, hlength⟩ := Option.filter_eq_some_iff.mp hb
    refine .bytes fun w hw => ?_
    obtain rfl := Option.mem_def.mp hw
    exact (beq_iff_eq.mp (by simpa using hlength)).symm
  | address =>
    obtain ⟨b, hb, rfl⟩ := Option.map_eq_some_iff.mp h
    exact .address (beq_iff_eq.mp (Option.filter_eq_some_iff.mp hb).2)
  | uint w =>
    obtain ⟨n, hn, rfl⟩ := Option.map_eq_some_iff.mp h
    exact .uint (of_decide_eq_true (Option.filter_eq_some_iff.mp hn).2)
  | int w =>
    obtain ⟨i, hi, rfl⟩ := Option.map_eq_some_iff.mp h
    have hrange := of_decide_eq_true (Option.filter_eq_some_iff.mp hi).2
    exact .int hrange.1 hrange.2

/-- All of a text without blanks counts. -/
theorem toList_significant {kind : AbiKind} {s : String}
    (h : ∀ c ∈ s.toList, Text.isBlank c = false) : (kind.significant s).toList = s.toList := by
  have htrim : (Text.trim s).toList = s.toList := by
    rw [Text.trim, String.toList_ofList, Text.trimBlanks_of_forall h]
  cases kind with
  | string => rfl
  | bool => exact htrim
  | address => exact htrim
  | uint w => exact htrim
  | int w => exact htrim
  | bytes length => exact htrim

theorem readUnsigned_decimal (n : Nat) : readUnsigned (Text.decimal n) = some n := by
  unfold readUnsigned
  split
  · next heq =>
    exact absurd (Text.isDigit_of_mem_decimal (heq ▸ List.mem_cons_of_mem _ List.mem_cons_self))
      (by decide)
  · exact Text.readGrouped_decimal n

/-- A value is read back from its text, of which nothing is cut. -/
theorem read?_significant {kind : AbiKind} {v : Value} (h : kind.IsValue v) :
    kind.read? (kind.significant v.serialized).toList = some v := by
  cases h with
  | @uint w n h =>
    have hblank : ∀ c ∈ (String.ofList (Text.decimal n)).toList, Text.isBlank c = false := by
      intro c hc
      rw [String.toList_ofList] at hc
      exact Text.isBlank_of_isDigit (Text.isDigit_of_mem_decimal hc)
    rw [Value.serialized, toList_significant hblank, String.toList_ofList, read?,
      readUnsigned_decimal, Option.filter_some, if_pos (decide_eq_true h), Option.map_some]
  | @int w i least greatest =>
    have hblank : ∀ c ∈ (String.ofList (Text.decimalInt i)).toList, Text.isBlank c = false := by
      intro c hc
      rw [String.toList_ofList] at hc
      exact Text.isBlank_of_mem_decimalInt hc
    rw [Value.serialized, toList_significant hblank, String.toList_ofList, read?,
      Text.readSigned_decimalInt, Option.filter_some, if_pos (decide_eq_true ⟨least, greatest⟩),
      Option.map_some]
  | address h =>
    rw [Value.serialized, toList_significant fun c hc => isBlank_of_mem_bytesText hc, read?,
      readBytes_bytesText, Option.filter_some, if_pos (beq_iff_eq.mpr h), Option.map_some]
  | bool b =>
    have hblank : ∀ c ∈ (Value.bool b).serialized.toList, Text.isBlank c = false := by
      have hany : (Value.bool b).serialized.toList.any Text.isBlank = false := by
        cases b <;> decide
      exact fun c hc => Bool.eq_false_iff.mpr (List.any_eq_false.mp hany c hc)
    rw [toList_significant hblank]
    cases b <;> rfl
  | string s => rw [Value.serialized, significant, read?, String.ofList_toList]
  | @bytes length bytes h =>
    have hlength : (length.all fun w => w.bytes == bytes.length) = true := by
      cases length with
      | none => rfl
      | some w => exact beq_iff_eq.mpr (h w rfl).symm
    rw [Value.serialized, toList_significant fun c hc => isBlank_of_mem_bytesText hc, read?,
      readBytes_bytesText, Option.filter_some, if_pos hlength, Option.map_some]

end AbiKind

theorem AbiType.isValue_of_deserialize {type : AbiType} {raw : String} {v : Value}
    (h : type.deserialize raw = .ok v) : type.kind.IsValue v := by
  unfold deserialize at h
  dsimp only at h
  split at h
  · next heq =>
    obtain rfl := Except.ok.inj h
    exact AbiKind.isValue_of_read? heq
  · cases h

/-- The values of a type are those whose text is read as the value. -/
theorem AbiType.deserialize_serialized {type : AbiType} {v : Value} :
    type.deserialize v.serialized = .ok v ↔ type.kind.IsValue v := by
  refine ⟨isValue_of_deserialize, fun h => ?_⟩
  unfold deserialize
  simp only [AbiKind.read?_significant h]

/-! ### Words -/

theorem length_bigEndianBytes (count n : Nat) : (bigEndianBytes count n).length = count := by
  induction count generalizing n with
  | zero => rfl
  | succ count ih => rw [bigEndianBytes, List.length_append, ih]; rfl

theorem length_fitBytes (count : Nat) (bytes : List UInt8) :
    (fitBytes count bytes).length = count := by
  rw [fitBytes, List.length_append, List.length_replicate, List.length_drop]
  omega

theorem Width.bits_pos (w : Width) : 0 < w.bits := Nat.mul_pos (by decide) w.one_le

theorem Width.words_eq (w : Width) : w.words = 2 * w.half := by
  have h : w.bits = w.bits - 1 + 1 := by
    have := w.one_le
    rw [bits]
    omega
  change 2 ^ w.bits = 2 * 2 ^ (w.bits - 1)
  rw [h, Nat.pow_succ, Nat.add_sub_cancel, Nat.mul_comm]

/-- The number of words of a size, byte by byte. -/
theorem Width.words_eq_pow (w : Width) : w.words = Nat.pow 256 w.bytes := Nat.pow_mul 2 8 w.bytes

/-- A word of the size of its kind stands for a value of the kind. -/
theorem AbiKind.isValue_ofWord {kind : AbiKind} {w : Width} {word : Nat}
    (hkind : kind.wordWidth? = some w) (hword : word < w.words) :
    kind.IsValue (kind.ofWord word) := by
  cases kind with
  | uint w' =>
    obtain rfl := Option.some.inj hkind
    exact .uint hword
  | int w' =>
    obtain rfl := Option.some.inj hkind
    have hwords := w'.words_eq
    refine .int ?_ ?_ <;> split <;> omega
  | address => exact .address (length_fitBytes _ _)
  | bool => cases hkind
  | string => cases hkind
  | bytes length => cases hkind

end ContractFuzz
