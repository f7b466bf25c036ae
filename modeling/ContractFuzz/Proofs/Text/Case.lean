import Mathlib.Data.List.Forall2
/-!
# Letters of either case

When the difference between the two cases of a letter does not count. Only ASCII letters have two
cases.

## Main definitions

* `SameLetter` : two characters that differ in the case of an ASCII letter at most.
* `SameUpToCase` : names that do.

## Main results

* `toUpper_eq_iff`, `toLower_eq_iff` : characters of one case agree when they did up to case.
* `toLower_eq_self` : what is no capital stays as it is.
-/

namespace ContractFuzz

theorem toNat_toUpper (c : Char) :
    c.toUpper.toNat = if 97 ≤ c.toNat ∧ c.toNat ≤ 122 then c.toNat - 32 else c.toNat := by
  have hsmall : 'a'.val ≤ c.val ∧ c.val ≤ 'z'.val ↔ 97 ≤ c.toNat ∧ c.toNat ≤ 122 :=
    and_congr UInt32.le_iff_toNat_le UInt32.le_iff_toNat_le
  delta Char.toUpper
  by_cases h : 'a'.val ≤ c.val ∧ c.val ≤ 'z'.val
  · obtain ⟨hlow, hhigh⟩ := hsmall.mp h
    rw [dif_pos h, if_pos ⟨hlow, hhigh⟩]
    have hsub : ('A'.val - 'a'.val : UInt32).toNat = 4294967264 := by decide
    have hval : c.val.toNat = c.toNat := Char.toNat_val
    rw [← Char.toNat_val, UInt32.toNat_add, hsub, hval]
    omega
  · rw [dif_neg h, if_neg (mt hsmall.mpr h)]

theorem toNat_toLower (c : Char) :
    c.toLower.toNat = if 65 ≤ c.toNat ∧ c.toNat ≤ 90 then c.toNat + 32 else c.toNat := by
  have hlarge : c.val ≥ 'A'.val ∧ c.val ≤ 'Z'.val ↔ 65 ≤ c.toNat ∧ c.toNat ≤ 90 :=
    and_congr UInt32.le_iff_toNat_le UInt32.le_iff_toNat_le
  delta Char.toLower
  by_cases h : c.val ≥ 'A'.val ∧ c.val ≤ 'Z'.val
  · obtain ⟨hlow, hhigh⟩ := hlarge.mp h
    rw [dif_pos h, if_pos ⟨hlow, hhigh⟩]
    have hsub : ('a'.val - 'A'.val : UInt32).toNat = 32 := by decide
    have hval : c.val.toNat = c.toNat := Char.toNat_val
    rw [← Char.toNat_val, UInt32.toNat_add, hsub, hval]
    omega
  · rw [dif_neg h, if_neg (mt hlarge.mpr h)]

/-- Two characters that are the same, or the two cases of one ASCII letter. -/
def SameLetter (c d : Char) : Prop := c = d ∨ c.toLower = d ∨ c = d.toLower

/-- Two names that differ in the case of ASCII letters at most. -/
def SameUpToCase (a b : String) : Prop := List.Forall₂ SameLetter a.toList b.toList

theorem toUpper_eq_iff {c d : Char} : c.toUpper = d.toUpper ↔ SameLetter c d := by
  simp only [SameLetter, ← Char.toNat_inj, toNat_toUpper, toNat_toLower]
  split_ifs <;> omega

theorem toLower_eq_iff {c d : Char} : c.toLower = d.toLower ↔ SameLetter c d := by
  simp only [SameLetter, ← Char.toNat_inj, toNat_toLower]
  split_ifs <;> omega

theorem toLower_eq_self {c : Char} (h : ¬ (65 ≤ c.toNat ∧ c.toNat ≤ 90)) : c.toLower = c := by
  rw [← Char.toNat_inj, toNat_toLower, if_neg h]

theorem isAlphanum_iff {c : Char} : c.isAlphanum = true ↔
    65 ≤ c.toNat ∧ c.toNat ≤ 90 ∨ 97 ≤ c.toNat ∧ c.toNat ≤ 122 ∨ 48 ≤ c.toNat ∧ c.toNat ≤ 57 := by
  delta Char.isAlphanum Char.isAlpha Char.isUpper Char.isLower Char.isDigit
  simp only [Bool.or_eq_true, Bool.and_eq_true, decide_eq_true_eq, UInt32.le_iff_toNat_le,
    ge_iff_le, or_assoc]
  rfl

theorem SameLetter.isAlphanum_eq {c d : Char} (h : SameLetter c d) :
    c.isAlphanum = d.isAlphanum := by
  simp only [SameLetter, ← Char.toNat_inj, toNat_toLower] at h
  rw [Bool.eq_iff_iff, isAlphanum_iff, isAlphanum_iff]
  split_ifs at h <;> omega

end ContractFuzz
