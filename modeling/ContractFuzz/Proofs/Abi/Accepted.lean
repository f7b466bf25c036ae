import ContractFuzz.Abi.Definition
import ContractFuzz.Proofs.Abi.Canonical
import ContractFuzz.Proofs.Outcome
/-!
# Values that parameters accept

A list of values, one for each parameter and of its type, is written as a seed and read back from it
unchanged. Reading a seed yields such a list.

## Main definitions

* `AbiParam.Accepts` : the values of a parameter's type.

## Main results

* `serializeAll_eq_ok`, `deserializeAll_serialized` : writing and reading back.
* `accepts_of_deserializeAll` : what is read is accepted.
-/

namespace ContractFuzz

/-- The value is one of the parameter's type, which is supported. -/
def AbiParam.Accepts (p : AbiParam) (v : Value) : Prop :=
  ∃ type, AbiType.named p.type = .ok type ∧ type.kind.IsValue v

theorem deserializeOne_eq_ok {p : AbiParam} {raw : String} {v : Value}
    (h : deserializeOne p raw = .ok v) : p.Accepts v := by
  obtain ⟨type, htype, hv⟩ := bind_eq_ok_iff.mp h
  exact ⟨type, htype, AbiType.isValue_of_deserialize hv⟩

theorem deserializeOne_serialized {p : AbiParam} {v : Value} :
    deserializeOne p v.serialized = .ok v ↔ p.Accepts v := by
  refine ⟨deserializeOne_eq_ok, fun ⟨type, htype, hv⟩ => bind_eq_ok_iff.mpr ⟨type, htype, ?_⟩⟩
  exact AbiType.deserialize_serialized.mpr hv

theorem serializeOne_eq_ok {p : AbiParam} {v : Value} (h : p.Accepts v) :
    serializeOne p v = .ok v.serialized := by
  obtain ⟨type, htype, -⟩ := h
  exact bind_eq_ok_iff.mpr ⟨type, htype, rfl⟩

variable {inputs : List AbiParam} {values : List Value}

/-- Accepted values are written, each as its own text. -/
theorem serializeAll_eq_ok (h : List.Forall₂ AbiParam.Accepts inputs values) :
    serializeAll inputs values = .ok (values.map Value.serialized) := by
  unfold serializeAll
  rw [if_pos h.length_eq.symm, mapM_eq_ok_iff]
  induction h with
  | nil => exact .nil
  | cons hp _ ih => exact .cons (serializeOne_eq_ok hp) ih

/-- Accepted values are read back from their texts. -/
theorem deserializeAll_serialized (h : List.Forall₂ AbiParam.Accepts inputs values) :
    deserializeAll inputs (values.map Value.serialized) = .ok values := by
  unfold deserializeAll
  rw [if_pos (by rw [List.length_map, h.length_eq]), mapM_eq_ok_iff]
  induction h with
  | nil => exact .nil
  | cons hp _ ih => exact .cons (deserializeOne_serialized.mpr hp) ih

/-- The values of a seed are accepted, one for each parameter. -/
theorem accepts_of_deserializeAll {seed : List String}
    (h : deserializeAll inputs seed = .ok values) :
    List.Forall₂ AbiParam.Accepts inputs values := by
  unfold deserializeAll at h
  split at h
  · next hlength =>
    have hread := mapM_eq_ok_iff.mp h
    clear h
    induction inputs generalizing seed values with
    | nil =>
      rw [List.zip_nil_left, List.forall₂_nil_left_iff] at hread
      exact hread ▸ .nil
    | cons p inputs ih =>
      obtain ⟨raw, seed, rfl⟩ := List.exists_cons_of_length_eq_add_one hlength
      rw [List.zip_cons_cons, List.forall₂_cons_left_iff] at hread
      obtain ⟨v, values, hv, hread, rfl⟩ := hread
      exact .cons (deserializeOne_eq_ok hv) (ih (by simpa using hlength) hread)
  · cases h

end ContractFuzz
