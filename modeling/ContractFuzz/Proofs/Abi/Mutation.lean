import ContractFuzz.Abi.Argument
import ContractFuzz.Proofs.Abi.Canonical
import ContractFuzz.Proofs.Random.Always
/-!
# Generation and mutation stay within a kind

Random values of a kind are values of the kind, and no change that it has leads out of them: words
are cut to their size, fixed byte strings keep their length, and any text is a text.

## Main results

* `AbiKind.always_generate` : a random value of a kind is one of its values.
* `Mutator.always_apply` : a change of a value yields a value of the same kind.
* `Argument.always_mutate`, `Argument.always_mutateSometimes` : the same for arguments.
* `Argument.always_loadSeed` : what becomes of an argument that loads a text of a corpus.
-/

namespace ContractFuzz

theorem AbiKind.width_eq {kind : AbiKind} {w : Width} (h : kind.wordWidth? = some w) :
    kind.width = w := by
  rw [width, h, Option.getD_some]

/-- The kinds of words have the same changes. -/
theorem AbiKind.mutators_of_wordWidth? {kind : AbiKind} {w : Width}
    (h : kind.wordWidth? = some w) : kind.mutators =
      [.flipBit, .flipBit, .flipBit, .flipTwoBits, .flipByte, .addOrSubOne, .boundary, .havoc] := by
  cases kind <;> first | rfl | cases h

/-! ### Generation -/

private theorem foldl_bigEndian_lt (bytes : List UInt8) (n : Nat) :
    bytes.foldl (fun n b => n * 256 + b.toNat) n < (n + 1) * Nat.pow 256 bytes.length := by
  induction bytes generalizing n with
  | nil => exact Nat.lt_of_lt_of_eq (Nat.lt_succ_self n) (Nat.mul_one (n + 1)).symm
  | cons b bytes ih =>
    have hb := b.toNat_lt
    have hdigit : n * 256 + b.toNat + 1 ≤ (n + 1) * 256 := by omega
    have hpow : Nat.pow 256 (b :: bytes).length = 256 * Nat.pow 256 bytes.length :=
      Nat.mul_comm _ _
    rw [List.foldl_cons, hpow, ← Nat.mul_assoc]
    exact Nat.lt_of_lt_of_le (ih _) (Nat.mul_le_mul_right _ hdigit)

/-- The number of some bytes is a word of their size or a greater one. -/
theorem bigEndian_lt_words {w : Width} {bytes : List UInt8} (h : bytes.length ≤ w.bytes) :
    bigEndian bytes < w.words := by
  have hlt := foldl_bigEndian_lt bytes 0
  rw [Nat.zero_add, Nat.one_mul] at hlt
  rw [Width.words_eq_pow]
  exact Nat.lt_of_lt_of_le hlt (Nat.pow_le_pow_right (by decide) h)

theorem Draw.always_word (w : Width) : (Draw.word w).Always (· < w.words) := by
  refine Draw.always_bind (Draw.always_below (Nat.succ_pos w.bytes)) fun count hcount => ?_
  refine Draw.always_bind (Draw.always_bytes count) fun bytes hbytes => Draw.always_pure ?_
  exact bigEndian_lt_words (by omega)

/-- A random value of a kind is one of its values. -/
theorem AbiKind.always_generate (kind : AbiKind) : kind.generate.Always kind.IsValue := by
  have words : ∀ {kind : AbiKind} {w : Width}, kind.wordWidth? = some w →
      Draw.Always (do return kind.ofWord (← Draw.word kind.width)) kind.IsValue := by
    intro kind w h
    rw [AbiKind.width_eq h]
    exact Draw.always_bind (Draw.always_word w) fun word hword =>
      Draw.always_pure (AbiKind.isValue_ofWord h hword)
  cases kind with
  | uint w => exact words (w := w) rfl
  | int w => exact words (w := w) rfl
  | address => exact words (w := .address) rfl
  | bool => exact Draw.always_bind (Draw.always_true _) fun b _ => Draw.always_pure (.bool b)
  | string =>
    refine Draw.always_bind (Draw.always_true _) fun n _ => ?_
    exact Draw.always_bind (Draw.always_true _) fun cs _ => Draw.always_pure (.string _)
  | bytes length =>
    cases length with
    | none =>
      refine Draw.always_bind (Draw.always_true _) fun n _ => ?_
      exact Draw.always_bind (Draw.always_true _) fun bytes _ =>
        Draw.always_pure (.bytes fun w hw => by cases hw)
    | some w =>
      refine Draw.always_bind (Draw.always_bytes w.bytes) fun bytes hbytes => ?_
      exact Draw.always_pure (.bytes fun w' hw => by cases hw; exact hbytes)

/-! ### Mutation -/

namespace Mutator

variable {kind : AbiKind} {v : Value}

/-- A word is cut to its size, whatever it was changed to. -/
theorem always_onWord {w : Width} (h : kind.wordWidth? = some w) (change : Nat → Draw Nat) :
    (onWord kind v change).Always kind.IsValue := by
  refine Draw.always_bind (Draw.always_true _) fun word _ => Draw.always_pure ?_
  rw [AbiKind.width_eq h]
  exact AbiKind.isValue_ofWord h (Nat.mod_lt _ (Nat.two_pow_pos _))

theorem always_onText (change : List Char → Draw (List Char)) :
    (onText v change).Always AbiKind.string.IsValue :=
  Draw.always_bind (Draw.always_true _) fun _ _ => Draw.always_pure (.string _)

/-- The length of a byte string is that of the changed one. -/
theorem always_onBytes {length : Option Width} {change : List UInt8 → Draw (List UInt8)}
    (hv : (AbiKind.bytes length).IsValue v)
    (h : ∀ bytes, (∀ w ∈ length, bytes.length = w.bytes) →
      (change bytes).Always fun new => ∀ w ∈ length, new.length = w.bytes) :
    (onBytes v change).Always (AbiKind.bytes length).IsValue := by
  obtain ⟨bytes, rfl, hbytes⟩ : ∃ bytes, v = .text (bytesText bytes) ∧
      ∀ w ∈ length, bytes.length = w.bytes := by
    cases hv with
    | bytes h => exact ⟨_, rfl, h⟩
  have hread : (((Value.text (bytesText bytes)).text?.map String.toList).bind readBytes).getD [] =
      bytes := by
    rw [Value.text?, Option.map_some, Option.bind_some, readBytes_bytesText, Option.getD_some]
  unfold onBytes
  rw [hread]
  exact Draw.always_bind (h bytes hbytes) fun new hnew => Draw.always_pure (.bytes hnew)

/-- The changes of words. -/
private theorem always_apply_word {w : Width} (h : kind.wordWidth? = some w) {m : Mutator}
    (hm : m ∈ [flipBit, flipBit, flipBit, flipTwoBits, flipByte, addOrSubOne, boundary, havoc]) :
    (m.apply kind v).Always kind.IsValue := by
  simp only [List.mem_cons, List.not_mem_nil, or_false] at hm
  rcases hm with rfl | rfl | rfl | rfl | rfl | rfl | rfl | rfl <;>
    (rw [apply]; exact always_onWord h _)

/-- The changes that keep the length of a byte string, which strings of any kind have. -/
private theorem always_apply_bytes {length : Option Width} (hv : (AbiKind.bytes length).IsValue v)
    {m : Mutator} (hm : m = flipBytesBit ∨ m = invert) :
    (m.apply (.bytes length) v).Always (AbiKind.bytes length).IsValue := by
  rcases hm with rfl | rfl
  · rw [apply]
    refine always_onBytes hv fun bytes hbytes => Draw.always_ite (fun hempty => ?_) fun _ => ?_
    · rw [List.isEmpty_iff.mp hempty] at hbytes
      exact Draw.always_pure hbytes
    · refine Draw.always_bind (Draw.always_true _) fun index _ => ?_
      refine Draw.always_bind (Draw.always_true _) fun bit _ => Draw.always_pure ?_
      rwa [List.length_modify]
  · rw [apply]
    refine always_onBytes hv fun bytes hbytes => Draw.always_pure ?_
    rwa [List.length_map]

/-- A change of a value yields a value of the same kind. -/
theorem always_apply {m : Mutator} (hm : m ∈ kind.mutators) (hv : kind.IsValue v) :
    (m.apply kind v).Always kind.IsValue := by
  cases kind with
  | uint w => exact always_apply_word (w := w) rfl hm
  | int w => exact always_apply_word (w := w) rfl hm
  | address => exact always_apply_word (w := .address) rfl hm
  | bool =>
    obtain rfl := List.mem_singleton.mp hm
    rw [apply]
    exact Draw.always_pure (.bool _)
  | string =>
    simp only [AbiKind.mutators, List.mem_cons, List.not_mem_nil, or_false] at hm
    rcases hm with rfl | rfl | rfl | rfl <;> (rw [apply]; exact always_onText _)
  | bytes length =>
    cases length with
    | some w =>
      simp only [AbiKind.mutators, List.mem_cons, List.not_mem_nil, or_false] at hm
      exact always_apply_bytes hv hm
    | none =>
      have any : ∀ bytes : List UInt8, ∀ w ∈ (none : Option Width), bytes.length = w.bytes := by
        intro bytes w hw
        cases hw
      simp only [AbiKind.mutators, List.mem_cons, List.not_mem_nil, or_false] at hm
      rcases hm with rfl | rfl | rfl | rfl
      · exact always_apply_bytes hv (.inl rfl)
      · exact always_apply_bytes hv (.inr rfl)
      · rw [apply]
        exact always_onBytes hv fun bytes _ => (Draw.always_true _).mono fun new _ => any new
      · rw [apply]
        exact always_onBytes hv fun bytes _ => (Draw.always_true _).mono fun new _ => any new

end Mutator

namespace Argument

/-- The current value is one of the type. -/
def Valid (a : Argument) : Prop := a.type.kind.IsValue a.value

theorem always_mutate {a : Argument} (h : a.Valid) :
    a.mutate.Always fun r => r.2.type = a.type ∧ r.2.Valid := by
  unfold mutate
  refine Draw.always_bind (Q := fun m => ∀ m', m = some m' → m' ∈ a.type.kind.mutators)
    (Draw.always_choose (fun m hm m' h => Option.some.inj h ▸ hm) fun _ m' h => by cases h)
    fun m hm => ?_
  cases m with
  | none => exact Draw.always_pure ⟨rfl, h⟩
  | some m =>
    exact Draw.always_bind (Mutator.always_apply (hm m rfl) h) fun v hv =>
      Draw.always_pure ⟨rfl, hv⟩

theorem always_mutateSometimes {a : Argument} {chance : Float} (h : a.Valid) :
    (a.mutateSometimes chance).Always fun r => r.2.type = a.type ∧ r.2.Valid := by
  refine Draw.always_bind (Draw.always_true _) fun x _ => Draw.always_ite (fun _ => ?_) fun _ => ?_
  · exact Draw.always_pure ⟨rfl, h⟩
  · exact always_mutate h

theorem type_deserialize (a : Argument) (raw : String) : (a.deserialize raw).2.type = a.type := by
  unfold deserialize
  split <;> rfl

/-- What was read is a value of the type, whatever the text was. -/
theorem valid_deserialize {a : Argument} {raw : String}
    (h : (a.deserialize raw).1 = .ok ()) : (a.deserialize raw).2.Valid := by
  unfold deserialize at h ⊢
  split
  · next v heq => exact AbiType.isValue_of_deserialize heq
  · next heq =>
    rw [heq] at h
    cases h

/-- A text that is not accepted leaves the argument as it is. -/
theorem deserialize_of_error {a : Argument} {raw : String} {e : Failure}
    (h : (a.deserialize raw).1 = .error e) : (a.deserialize raw).2 = a := by
  unfold deserialize at h ⊢
  split
  · next heq =>
    rw [heq] at h
    cases h
  · rfl

/-- Whichever text of the corpus is picked: if it is accepted, the argument has a value of its type,
and otherwise it is left as it is. -/
theorem always_loadSeed (a : Argument) (corpus : SeedCorpus) :
    (a.loadSeed corpus).Always fun r =>
      r.2.type = a.type ∧ (r.1 = .ok () → r.2.Valid) ∧ (r.1 ≠ .ok () → r.2 = a) := by
  unfold loadSeed
  refine Draw.always_bind (Draw.always_true _) fun raw _ => ?_
  cases raw with
  | none => exact Draw.always_pure ⟨rfl, fun h => (nomatch h), fun _ => rfl⟩
  | some raw =>
    refine Draw.always_pure ⟨type_deserialize a raw, valid_deserialize, fun h => ?_⟩
    cases hread : (a.deserialize raw).1 with
    | ok u => exact absurd hread h
    | error e => exact deserialize_of_error hread

end Argument

end ContractFuzz
