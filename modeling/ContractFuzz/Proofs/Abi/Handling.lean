import ContractFuzz.Proofs.Abi.Mutation
import ContractFuzz.Proofs.Numeral.Padded
/-!
# Handling keeps arguments canonical

An argument is canonical if its text, given to an argument of the same type, is accepted and yields
the very same value. These are exactly the arguments whose value is one of the type, and whatever is
done to an argument leads from such values to such values only.

## Main definitions

* `AbiKind.name` : the name under which a parameter declares a kind.
* `Argument.Canonical` : the value is stable under writing and reading.
* `Argument.Step`, `Argument.performAll` : what can be done to an argument, once and repeatedly.

## Main results

* `AbiType.named_name` : every kind is supported under its name.
* `Argument.canonical_iff_valid` : the canonical values are those of the type.
* `Argument.always_perform`, `Argument.always_performAll` : what one step keeps, and what all keep.
* `AbiType.canonical_handling` : all of it for one type.
-/

namespace ContractFuzz

/-! ### The supported types -/

theorem Width.ofBytes?_bytes (w : Width) : ofBytes? w.bytes = some w := by
  rw [ofBytes?, dif_pos ⟨w.one_le, w.le_max⟩]

theorem Width.ofBits?_bits (w : Width) : ofBits? w.bits = some w := by
  rw [ofBits?, bits, if_pos (Nat.mul_mod_right 8 w.bytes), Nat.mul_div_cancel_left _ (by decide),
    ofBytes?_bytes]

namespace AbiKind

private theorem integer?_decimal (kind : Width → AbiKind) (w : Width) :
    integer? kind (Text.decimal w.bits) = some (kind w) := by
  have hbits : w.bits < UInt32.size := by
    have := w.le_max
    rw [Width.bits, UInt32.size]
    omega
  have hne : (Text.decimal w.bits).isEmpty = false :=
    List.isEmpty_eq_false_iff.mpr Nat.toDigits_ne_nil
  rw [integer?, hne, if_neg Bool.false_ne_true, Text.readBounded_decimal hbits, Option.bind_some,
    Width.ofBits?_bits, Option.map_some]

private theorem fixedBytes?_decimal (w : Width) :
    fixedBytes? (Text.decimal w.bytes) = some (.bytes (some w)) := by
  have hbytes : w.bytes < UInt64.size := by
    have := w.le_max
    rw [UInt64.size]
    omega
  rw [fixedBytes?, Text.readBounded_decimal hbytes, Option.bind_some, Width.ofBytes?_bytes,
    Option.map_some]

/-- The name of a kind: integers carry their number of bits, fixed byte strings their length. -/
def name : AbiKind → String
  | uint w => String.ofList (['u', 'i', 'n', 't'] ++ Text.decimal w.bits)
  | int w => String.ofList (['i', 'n', 't'] ++ Text.decimal w.bits)
  | address => "address"
  | bool => "bool"
  | string => "string"
  | bytes none => "bytes"
  | bytes (some w) => String.ofList (['b', 'y', 't', 'e', 's'] ++ Text.decimal w.bytes)

theorem ofName?_name (kind : AbiKind) : ofName? kind.name = some kind := by
  cases kind with
  | bool => rfl
  | address => rfl
  | string => rfl
  | uint w => simp [name, ofName?, ← String.toList_inj, integer?_decimal]
  | int w => simp [name, ofName?, ← String.toList_inj, integer?_decimal]
  | bytes length =>
    cases length with
    | none => rfl
    | some w =>
      have hne : Text.decimal w.bytes ≠ [] := Nat.toDigits_ne_nil
      simp [name, ofName?, ← String.toList_inj, fixedBytes?_decimal, hne]

end AbiKind

/-- Every kind is supported under its name. -/
theorem AbiType.named_name (kind : AbiKind) : named kind.name = .ok ⟨kind.name, kind⟩ := by
  rw [named, ofName?, AbiKind.ofName?_name, Option.map_some]

/-! ### Canonical arguments -/

/-- A fresh argument has a value of its type. -/
theorem AbiKind.isValue_zero (kind : AbiKind) : kind.IsValue kind.zero := by
  cases kind with
  | uint w => exact isValue_ofWord (w := w) rfl (Nat.two_pow_pos _)
  | int w => exact isValue_ofWord (w := w) rfl (Nat.two_pow_pos _)
  | address => exact isValue_ofWord (w := .address) rfl (Nat.two_pow_pos _)
  | bool => exact .bool false
  | string => exact .string ""
  | bytes length =>
    refine .bytes fun w hw => ?_
    obtain rfl := Option.mem_def.mp hw
    exact List.length_replicate

namespace Argument

/-- Every argument of the type accepts the text of this one, and then equals it. -/
def Canonical (a : Argument) : Prop :=
  ∀ old, (Argument.mk a.type old).deserialize a.serialized = (.ok (), a)

/-- The canonical values are those of the type. -/
theorem canonical_iff_valid {a : Argument} : a.Canonical ↔ a.Valid := by
  refine Iff.trans ?_ AbiType.deserialize_serialized
  constructor
  · intro h
    have hread := h a.value
    unfold deserialize at hread
    split at hread
    · next v heq =>
      obtain ⟨type, value⟩ := a
      obtain rfl : v = value := congrArg (fun r => r.2.value) hread
      exact heq
    · cases hread
  · intro h old
    unfold deserialize
    rw [show a.type.deserialize a.serialized = .ok a.value from h]

theorem canonical_fresh (type : AbiType) : (fresh type).Canonical :=
  canonical_iff_valid.mpr (AbiKind.isValue_zero type.kind)

theorem always_generate (a : Argument) :
    a.generate.Always fun b => b.type = a.type ∧ b.Canonical :=
  Draw.always_bind (AbiKind.always_generate a.type.kind) fun _ hv =>
    Draw.always_pure ⟨rfl, canonical_iff_valid.mpr hv⟩

/-! ### Steps -/

/-- What can be done to an argument. -/
inductive Step where
  /-- Read a text, which may be refused. -/
  | deserialize (raw : String)
  /-- Pick a text of a corpus, which may hold none, and read it. -/
  | loadSeed (corpus : SeedCorpus)
  /-- Take a random value. -/
  | generate
  /-- Carry out the change at a place among those of the type, if there is one. -/
  | change (place : Nat)
  /-- Carry out a change that is picked at random. -/
  | mutate
  /-- The same with a probability. -/
  | mutateSometimes (chance : Float)

/-- Carry out a step. -/
def perform (a : Argument) : Step → Draw Argument
  | .deserialize raw => pure (a.deserialize raw).2
  | .loadSeed corpus => do return (← a.loadSeed corpus).2
  | .generate => a.generate
  | .change place =>
    match a.type.kind.mutators[place]? with
    | some m => do return { a with value := ← m.apply a.type.kind a.value }
    | none => pure a
  | .mutate => do return (← a.mutate).2
  | .mutateSometimes chance => do return (← a.mutateSometimes chance).2

/-- Carry out steps one after the other. -/
def performAll (a : Argument) : List Step → Draw Argument
  | [] => pure a
  | step :: steps => do (← a.perform step).performAll steps

/-- No step leads out of the canonical values, and the type stays. -/
theorem always_perform {a : Argument} (h : a.Canonical) (step : Step) :
    (a.perform step).Always fun b => b.type = a.type ∧ b.Canonical := by
  have hvalid := canonical_iff_valid.mp h
  have changed : ∀ {d : Draw (Bool × Argument)}, d.Always (fun r => r.2.type = a.type ∧ r.2.Valid) →
      Draw.Always (do return (← d).2) fun b => b.type = a.type ∧ b.Canonical := fun hd =>
    Draw.always_bind hd fun _ hr => Draw.always_pure ⟨hr.1, canonical_iff_valid.mpr hr.2⟩
  cases step with
  | deserialize raw =>
    refine Draw.always_pure ⟨type_deserialize a raw, ?_⟩
    cases hread : (a.deserialize raw).1 with
    | ok u => exact canonical_iff_valid.mpr (valid_deserialize hread)
    | error e => exact (deserialize_of_error hread).symm ▸ h
  | loadSeed corpus =>
    refine Draw.always_bind (always_loadSeed a corpus) fun r ⟨htype, hok, hno⟩ => ?_
    refine Draw.always_pure ⟨htype, ?_⟩
    by_cases hr : r.1 = .ok ()
    · exact canonical_iff_valid.mpr (hok hr)
    · exact (hno hr).symm ▸ h
  | generate => exact always_generate a
  | change place =>
    unfold perform
    dsimp only
    split
    · next m hm =>
      have happly := Mutator.always_apply (List.mem_of_getElem? hm) hvalid
      exact Draw.always_bind happly fun v hv =>
        Draw.always_pure ⟨rfl, canonical_iff_valid.mpr hv⟩
    · exact Draw.always_pure ⟨rfl, h⟩
  | mutate => exact changed (always_mutate hvalid)
  | mutateSometimes chance => exact changed (always_mutateSometimes hvalid)

/-- However many steps are carried out, the argument stays canonical and the type stays. -/
theorem always_performAll {a : Argument} (h : a.Canonical) (steps : List Step) :
    (a.performAll steps).Always fun b => b.type = a.type ∧ b.Canonical := by
  induction steps generalizing a with
  | nil => exact Draw.always_pure ⟨rfl, h⟩
  | cons step steps ih =>
    refine Draw.always_bind (always_perform h step) fun b ⟨htype, hb⟩ => ?_
    exact (ih hb).mono fun c hc => ⟨hc.1.trans htype, hc.2⟩

end Argument

/-- The arguments of a type have canonical values only. The fresh one does; so does each one that
was read or loaded, whatever the text was; so does each random one; every change that the type has
leads from canonical values to canonical values; and so does every sequence of these steps, which
thereby never leaves the values of the type. -/
theorem AbiType.canonical_handling (type : AbiType) :
    (Argument.fresh type).Canonical ∧
    (∀ old raw, ((Argument.mk type old).deserialize raw).1 = .ok () →
      ((Argument.mk type old).deserialize raw).2.Canonical) ∧
    (∀ old corpus, ((Argument.mk type old).loadSeed corpus).Always fun r =>
      r.1 = .ok () → r.2.Canonical) ∧
    (∀ old, (Argument.mk type old).generate.Always Argument.Canonical) ∧
    (∀ v, (Argument.mk type v).Canonical → ∀ m ∈ type.kind.mutators,
      (m.apply type.kind v).Always fun new => (Argument.mk type new).Canonical) ∧
    (∀ v, (Argument.mk type v).Canonical → ∀ steps,
      ((Argument.mk type v).performAll steps).Always fun b =>
        b.type = type ∧ b.Canonical ∧ type.kind.IsValue b.value) := by
  refine ⟨Argument.canonical_fresh type, fun old raw hread => ?_, fun old corpus => ?_,
    fun old => ?_, fun v hv m hm => ?_, fun v hv steps => ?_⟩
  · exact Argument.canonical_iff_valid.mpr (Argument.valid_deserialize hread)
  · exact (Argument.always_loadSeed _ corpus).mono fun r hr hok =>
      Argument.canonical_iff_valid.mpr (hr.2.1 hok)
  · exact (Argument.always_generate _).mono fun b hb => hb.2
  · have hvalid := Argument.canonical_iff_valid.mp hv
    exact (Mutator.always_apply hm hvalid).mono fun new hnew =>
      Argument.canonical_iff_valid.mpr hnew
  · refine (Argument.always_performAll hv steps).mono fun b ⟨htype, hb⟩ => ⟨htype, hb, ?_⟩
    have hvalid := Argument.canonical_iff_valid.mp hb
    rwa [Argument.Valid, htype] at hvalid

end ContractFuzz
