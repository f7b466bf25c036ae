import ContractFuzz.Proofs.Abi.Mutation
import ContractFuzz.Proofs.Numeral.Grammar
/-!
# Which texts are values

For every kind of value, the texts that are accepted and the value that each of them stands for:
numerals of numbers in range, pairs of hexadecimal digits, the names of truth values, and any text
where texts are asked for. All other texts are refused with the failure that names type and text,
and then the argument is as it was before.

## Main definitions

* `AbiKind.Spells` : the texts that stand for a value.
* `AbiKind.Significant` : the part of a text that counts.

## Main results

* `AbiKind.read?_eq_some_iff` : what is read is what a text stands for.
* `Argument.deserialize_exact` : what becomes of an argument and a text.
-/

namespace ContractFuzz

/-- A text in which two hexadecimal digits, of either case, stand for each of some bytes. -/
def HexPairs (count : Nat) (digits : List Char) : Prop :=
  digits.length = 2 * count ∧ ∀ c ∈ digits, ∃ d, Text.IsDigit 16 c d

/-- A text, or that text after one `0x`. -/
def Marked (digits cs : List Char) : Prop := cs = digits ∨ cs = '0' :: 'x' :: digits

/-- The canonical text of hexadecimal digits. -/
def lowerHex (digits : List Char) : String := String.ofList ('0' :: 'x' :: digits.map Char.toLower)

namespace AbiKind

/-- Which texts stand for which values of a kind. -/
inductive Spells : AbiKind → List Char → Value → Prop
  | decimal {w : Width} {cs : List Char} {n : Nat} (numeral : Text.Unsigned 10 cs n)
      (range : n < w.words) : Spells (.uint w) cs (.text (String.ofList (Text.decimal n)))
  | hexadecimal {w : Width} {cs : List Char} {n : Nat} (numeral : Text.Unsigned 16 cs n)
      (range : n < w.words) :
      Spells (.uint w) ('0' :: 'x' :: cs) (.text (String.ofList (Text.decimal n)))
  | signed {w : Width} {cs : List Char} {i : Int} (numeral : Text.Signed 10 cs i)
      (least : -(w.half : Int) ≤ i) (greatest : i < w.half) :
      Spells (.int w) cs (.text (String.ofList (Text.decimalInt i)))
  | address {cs digits : List Char} (marked : Marked digits cs)
      (pairs : HexPairs Width.address.bytes digits) : Spells .address cs (.text (lowerHex digits))
  | anyBytes {count : Nat} {cs digits : List Char} (marked : Marked digits cs)
      (pairs : HexPairs count digits) : Spells (.bytes none) cs (.text (lowerHex digits))
  | fixedBytes {w : Width} {cs digits : List Char} (marked : Marked digits cs)
      (pairs : HexPairs w.bytes digits) : Spells (.bytes (some w)) cs (.text (lowerHex digits))
  | holds {cs : List Char} (name : cs = ['t', 'r', 'u', 'e'] ∨ cs = ['1']) :
      Spells .bool cs (.bool true)
  | fails {cs : List Char} (name : cs = ['f', 'a', 'l', 's', 'e'] ∨ cs = ['0']) :
      Spells .bool cs (.bool false)
  | string (cs : List Char) : Spells .string cs (.text (String.ofList cs))

/-- The part of a text that counts: all of it for texts, and for all other kinds what is left when
the blanks around it are taken away. -/
def Significant (kind : AbiKind) (raw t : String) : Prop :=
  if kind = .string then t = raw else Text.Trimmed raw.toList t.toList

variable {kind : AbiKind} {cs : List Char} {v : Value}

/-! ### Integers -/

theorem readUnsigned_eq_some_iff {n : Nat} :
    readUnsigned cs = some n ↔
      Text.Unsigned 10 cs n ∨ ∃ r, cs = '0' :: 'x' :: r ∧ Text.Unsigned 16 r n := by
  unfold readUnsigned
  split
  · next r =>
    rw [Text.readGrouped_eq_some_iff (Nat.le_refl 16)]
    constructor
    · exact fun h => .inr ⟨r, rfl, h⟩
    · rintro (h | ⟨r', heq, h⟩)
      · -- The `x` is no decimal digit.
        have hx : ∀ d : Fin 10, 'x'.toLower ≠ Nat.digitChar d := by decide
        cases h with
        | bare digits =>
          rcases digits.digit_or_gap (List.mem_cons_of_mem _ List.mem_cons_self) with heq | ⟨d, h⟩
          · exact absurd heq (by decide)
          · exact absurd h.2 (hx ⟨d, h.1⟩)
      · obtain rfl := (List.cons.inj (List.cons.inj heq).2).2
        exact h
  · next other =>
    rw [Text.readGrouped_eq_some_iff (by decide)]
    exact ⟨.inl, fun h => h.resolve_right fun ⟨r, heq, _⟩ => other r heq⟩

/-! ### Byte strings -/

/-- The bytes that are read are those whose digits the text has, with a mark or without one. -/
theorem readBytes_eq_some_iff {bytes : List UInt8} :
    readBytes cs = some bytes ↔
      ∃ digits, Marked digits cs ∧ digits.map Char.toLower = Text.hexText bytes := by
  unfold readBytes
  split
  · next r =>
    rw [Text.readHex_eq_some_iff]
    constructor
    · exact fun h => ⟨r, .inr rfl, h⟩
    · rintro ⟨digits, rfl | heq, h⟩
      · have hpairs := (Text.exists_hexText_iff.mp ⟨bytes, rfl, h⟩).2
        obtain ⟨d, hd⟩ := hpairs 'x' (List.mem_cons_of_mem _ List.mem_cons_self)
        have hx : ∀ d : Fin 16, 'x'.toLower ≠ Nat.digitChar d := by decide
        exact absurd hd.2 (hx ⟨d, hd.1⟩)
      · obtain rfl := (List.cons.inj (List.cons.inj heq).2).2
        exact h
  · next other =>
    rw [Text.readHex_eq_some_iff]
    constructor
    · exact fun h => ⟨cs, .inl rfl, h⟩
    · rintro ⟨digits, rfl | heq, h⟩
      · exact h
      · exact absurd heq (other digits)

/-- The values that are read from byte strings whose length is restricted. -/
theorem readBytes_map_eq_some_iff {p : List UInt8 → Bool} :
    ((readBytes cs).filter p).map (fun b => Value.text (bytesText b)) = some v ↔
      ∃ bytes digits, p bytes = true ∧ Marked digits cs ∧
        digits.map Char.toLower = Text.hexText bytes ∧ v = .text (lowerHex digits) := by
  simp only [Option.map_eq_some_iff, Option.filter_eq_some_iff, readBytes_eq_some_iff]
  constructor
  · rintro ⟨bytes, ⟨⟨digits, marked, h⟩, hp⟩, rfl⟩
    exact ⟨bytes, digits, hp, marked, h, by rw [bytesText, lowerHex, h]⟩
  · rintro ⟨bytes, digits, hp, marked, h, rfl⟩
    exact ⟨bytes, ⟨⟨digits, marked, h⟩, hp⟩, by rw [bytesText, lowerHex, h]⟩

/-! ### All kinds -/

/-- What is read is what the text stands for. -/
theorem read?_eq_some_iff : kind.read? cs = some v ↔ kind.Spells cs v := by
  cases kind with
  | uint w =>
    simp only [read?, Option.map_eq_some_iff, Option.filter_eq_some_iff, decide_eq_true_eq,
      readUnsigned_eq_some_iff]
    constructor
    · rintro ⟨n, ⟨numeral | ⟨r, rfl, numeral⟩, range⟩, rfl⟩
      · exact .decimal numeral range
      · exact .hexadecimal numeral range
    · intro h
      cases h with
      | @decimal _ _ n numeral range => exact ⟨n, ⟨.inl numeral, range⟩, rfl⟩
      | @hexadecimal _ r n numeral range => exact ⟨n, ⟨.inr ⟨r, rfl, numeral⟩, range⟩, rfl⟩
  | int w =>
    simp only [read?, Option.map_eq_some_iff, Option.filter_eq_some_iff, decide_eq_true_eq,
      Text.readSigned_eq_some_iff (show 10 ≤ 16 by decide)]
    constructor
    · rintro ⟨i, ⟨numeral, least, greatest⟩, rfl⟩
      exact .signed numeral least greatest
    · intro h
      cases h with
      | @signed _ _ i numeral least greatest => exact ⟨i, ⟨numeral, least, greatest⟩, rfl⟩
  | address =>
    rw [read?, readBytes_map_eq_some_iff]
    constructor
    · rintro ⟨bytes, digits, hlength, marked, h, rfl⟩
      have pairs := Text.exists_hexText_iff.mp ⟨bytes, beq_iff_eq.mp hlength, h⟩
      exact .address marked pairs
    · intro h
      cases h with
      | @address _ digits marked pairs =>
        obtain ⟨bytes, hlength, h⟩ := Text.exists_hexText_iff.mpr pairs
        exact ⟨bytes, digits, beq_iff_eq.mpr hlength, marked, h, rfl⟩
  | bool =>
    rw [read?, readBool?]
    constructor
    · intro h
      split at h
      · next name => exact Option.some.inj h ▸ .holds name
      · split at h
        · next name => exact Option.some.inj h ▸ .fails name
        · cases h
    · intro h
      cases h with
      | holds name => rw [if_pos name]
      | fails name =>
        rw [if_neg (by rcases name with rfl | rfl <;> decide), if_pos name]
  | string =>
    refine ⟨fun h => Option.some.inj h ▸ .string cs, fun h => ?_⟩
    cases h
    rfl
  | bytes length =>
    rw [read?, readBytes_map_eq_some_iff]
    constructor
    · rintro ⟨bytes, digits, hlength, marked, h, rfl⟩
      cases length with
      | none => exact .anyBytes marked (Text.exists_hexText_iff.mp ⟨bytes, rfl, h⟩)
      | some w =>
        have heq : bytes.length = w.bytes := (beq_iff_eq.mp hlength).symm
        exact .fixedBytes marked (Text.exists_hexText_iff.mp ⟨bytes, heq, h⟩)
    · intro h
      cases h with
      | @anyBytes count _ digits marked pairs =>
        obtain ⟨bytes, -, h⟩ := Text.exists_hexText_iff.mpr pairs
        exact ⟨bytes, digits, rfl, marked, h, rfl⟩
      | @fixedBytes w _ digits marked pairs =>
        obtain ⟨bytes, hlength, h⟩ := Text.exists_hexText_iff.mpr pairs
        exact ⟨bytes, digits, beq_iff_eq.mpr hlength.symm, marked, h, rfl⟩

/-- Just one part of a text counts, and it is what is read. -/
theorem significant_iff {raw t : String} :
    kind.Significant raw t ↔ t = kind.significant raw := by
  have trimmed : Text.Trimmed raw.toList t.toList ↔ t = Text.trim raw := by
    rw [Text.trimmed_iff, Text.trim, ← String.toList_inj, String.toList_ofList]
  unfold Significant
  split
  · next h => rw [h, significant]
  · next h =>
    unfold significant
    split
    · exact absurd rfl h
    · exact trimmed

end AbiKind

variable {type : AbiType} {raw : String}

theorem AbiType.deserialize_eq_ok_iff {v : Value} :
    type.deserialize raw = .ok v ↔
      type.kind.Spells (type.kind.significant raw).toList v := by
  rw [← AbiKind.read?_eq_some_iff, deserialize]
  cases type.kind.read? (type.kind.significant raw).toList <;> simp

/-- The only failure is that the text stands for no value. -/
theorem AbiType.deserialize_eq_error_iff {failure : Failure} :
    type.deserialize raw = .error failure ↔
      (¬ ∃ v, type.kind.Spells (type.kind.significant raw).toList v) ∧
        failure = .invalidValue type.name (type.kind.significant raw) := by
  simp only [← AbiKind.read?_eq_some_iff, deserialize]
  cases type.kind.read? (type.kind.significant raw).toList <;> simp [eq_comm]

/-- Of every text, one part counts, which decides what becomes of an argument that is set to it. If
that part stands for a value of the type, this is the new value of the argument. If it stands for
none, the failure names type and text, and the argument is as it was before. -/
theorem Argument.deserialize_exact (a : Argument) (raw : String) :
    ∃ t, (∀ u, a.type.kind.Significant raw u ↔ u = t) ∧
      (∀ v, a.type.kind.Spells t.toList v ↔
        a.deserialize raw = (.ok (), { a with value := v })) ∧
      ((¬ ∃ v, a.type.kind.Spells t.toList v) ↔
        a.deserialize raw = (.error (.invalidValue a.type.name t), a)) := by
  refine ⟨_, fun u => AbiKind.significant_iff, fun v => ?_, ?_⟩
  · rw [← AbiType.deserialize_eq_ok_iff, deserialize]
    cases a.type.deserialize raw with
    | ok v' => simp
    | error failure => simp
  · have refused : a.type.deserialize raw =
        .error (.invalidValue a.type.name (a.type.kind.significant raw)) ↔
        ¬ ∃ v, a.type.kind.Spells (a.type.kind.significant raw).toList v := by
      rw [AbiType.deserialize_eq_error_iff, and_iff_left rfl]
    rw [← refused, deserialize]
    cases a.type.deserialize raw with
    | ok v => simp
    | error failure => simp

end ContractFuzz
