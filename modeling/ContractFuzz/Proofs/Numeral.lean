import ContractFuzz.Text.Blank
import ContractFuzz.Text.Numeral
import ContractFuzz.Proofs.Text.Case
/-!
# Reading numerals back

The digits of a number are read as that number, in any base up to sixteen and whatever the case of
the digits is. So the decimal numerals that are written are read as the numbers they were written
for, with or without trimming of blanks.

## Main results

* `Text.digitValue?_iff`, `Text.readDigits_of_digits` : reading digits of either case.
* `Text.readGrouped_decimal`, `Text.readSigned_decimalInt` : reading what was written.
* `Text.isBlank_of_mem_decimalInt` : numerals hold no blanks.
-/

namespace ContractFuzz.Text

private theorem digitValue?_sixteen {c : Char} {d : Nat} :
    digitValue? 16 c = some d ↔ d < 16 ∧ c.toLower = Nat.digitChar d := by
  have ascii : ∀ n : Fin 128, ∀ d : Fin 16,
      digitValue? 16 (Char.ofNat n) = some d.val ↔
        (Char.ofNat n).toLower = Nat.digitChar d := by decide +kernel
  by_cases hc : c.toNat < 128
  · by_cases hd : d < 16
    · rw [and_iff_right hd]
      simpa only [Char.ofNat_toNat] using ascii ⟨c.toNat, hc⟩ ⟨d, hd⟩
    · refine iff_of_false (fun h => hd ?_) fun h => hd h.1
      exact of_decide_eq_true (Option.filter_eq_some_iff.mp h).2
  · -- Beyond that, there are no digits, and no letters of another case.
    have hlower : c.toLower = c := toLower_eq_self (by omega)
    have hdigit : ∀ d : Fin 16, (Nat.digitChar d).toNat < 128 := by decide
    refine iff_of_false (fun h => ?_) fun ⟨hd, h⟩ => hc ?_
    · unfold digitValue? at h
      dsimp only at h
      rw [if_neg (by omega), if_neg (by omega), if_neg (by omega)] at h
      cases h
    · rw [← hlower, h]
      exact hdigit ⟨d, hd⟩

/-- Digits are read whatever their case is. -/
theorem digitValue?_iff {base d : Nat} {c : Char} (small : base ≤ 16) :
    digitValue? base c = some d ↔ d < base ∧ c.toLower = Nat.digitChar d := by
  have filtered : ∀ value : Option Nat,
      value.filter (· < base) = (value.filter (· < 16)).filter (· < base) := by
    intro value
    cases value with
    | none => rfl
    | some d =>
      simp only [Option.filter_some, decide_eq_true_eq]
      by_cases h : d < 16
      · simp only [if_pos h, Option.filter_some, decide_eq_true_eq]
      · rw [if_neg h, if_neg (by omega), Option.filter_none]
  have hfilter : digitValue? base c = (digitValue? 16 c).filter (· < base) := filtered _
  rw [hfilter, Option.filter_eq_some_iff, digitValue?_sixteen, decide_eq_true_eq]
  exact ⟨fun h => ⟨h.2, h.1.2⟩, fun h => ⟨⟨by omega, h.2⟩, h.1⟩⟩

/-- The digits of a numeral have the value of the number, whatever their case is. -/
theorem exists_mapM_digits {base n : Nat} {cs : List Char} (large : 1 < base) (small : base ≤ 16)
    (hcs : cs.map Char.toLower = Nat.toDigits base n) :
    ∃ digits, cs.mapM (digitValue? base) = some digits ∧ valueOf base digits = n := by
  induction n using Nat.strongRecOn generalizing cs with
  | ind n ih =>
    rcases Nat.lt_or_ge n base with h | h
    · rw [Nat.toDigits_of_lt_base h] at hcs
      obtain ⟨c, rfl, hc⟩ := List.map_eq_singleton_iff.mp hcs
      refine ⟨[n], ?_, by simp [valueOf]⟩
      simp [(digitValue?_iff small).mpr ⟨h, hc⟩]
    · rw [Nat.toDigits_of_base_le large h] at hcs
      obtain ⟨before, last, rfl, hbefore, hlast⟩ := List.map_eq_append_iff.mp hcs
      obtain ⟨c, rfl, hc⟩ := List.map_eq_singleton_iff.mp hlast
      have hlt : n / base < n := Nat.div_lt_self (by omega) large
      obtain ⟨digits, hread, hvalue⟩ := ih (n / base) hlt hbefore
      refine ⟨digits ++ [n % base], ?_, ?_⟩
      · rw [List.mapM_append, hread]
        simp [(digitValue?_iff small).mpr ⟨Nat.mod_lt n (by omega), hc⟩]
      · rw [valueOf] at hvalue
        rw [valueOf, List.foldl_append, hvalue]
        exact Nat.div_add_mod' n base

theorem readDigits_of_digits {base n : Nat} {cs : List Char} (large : 1 < base)
    (small : base ≤ 16) (hcs : cs.map Char.toLower = Nat.toDigits base n) :
    readDigits base cs = some n := by
  obtain ⟨digits, hread, hvalue⟩ := exists_mapM_digits large small hcs
  have hne : cs ≠ [] := fun h => Nat.toDigits_ne_nil (hcs.symm.trans (by rw [h]; rfl))
  simp [readDigits, hne, hread, hvalue]

theorem isDigit_of_mem_decimal {n : Nat} {c : Char} (h : c ∈ decimal n) : c.isDigit = true :=
  Nat.isDigit_of_mem_toDigits (by omega) (by omega) h

/-- Decimal digits have no case. -/
theorem map_toLower_decimal (n : Nat) : (decimal n).map Char.toLower = decimal n := by
  refine (List.map_congr_left fun c hc => ?_).trans (List.map_id _)
  have hdigit := isDigit_of_mem_decimal hc
  simp only [Char.isDigit, Bool.and_eq_true, decide_eq_true_eq, UInt32.le_iff_toNat_le] at hdigit
  have hhigh : c.toNat ≤ 57 := hdigit.2
  exact toLower_eq_self (by omega)

theorem readDigits_decimal (n : Nat) : readDigits 10 (decimal n) = some n :=
  readDigits_of_digits (by decide) (by decide) (map_toLower_decimal n)

/-- A numeral of digits alone needs no grouping. -/
theorem readGrouped_of_isDigit {base : Nat} {cs : List Char} (h : ∀ c ∈ cs, c.isDigit = true) :
    readGrouped base cs = readDigits base cs := by
  have hfilter : cs.filter (· != '_') = cs := by
    refine List.filter_eq_self.mpr fun c hc => bne_iff_ne.mpr ?_
    rintro rfl
    exact absurd (h _ hc) (by decide)
  unfold readGrouped
  split
  · exact absurd (h '+' (by simp)) (by decide)
  · dsimp only
    split
    · exact absurd (h '_' (by simp)) (by decide)
    · rw [hfilter]

theorem readGrouped_decimal (n : Nat) : readGrouped 10 (decimal n) = some n := by
  rw [readGrouped_of_isDigit fun c hc => isDigit_of_mem_decimal hc, readDigits_decimal]

theorem readSigned_decimalInt (i : Int) : readSigned 10 (decimalInt i) = some i := by
  unfold decimalInt
  split
  · next h =>
    have hdigits := fun c hc => isDigit_of_mem_decimal (n := i.natAbs) (c := c) hc
    have hread := readGrouped_decimal i.natAbs
    revert hdigits hread
    generalize decimal i.natAbs = digits
    intro hdigits hread
    unfold readSigned
    split
    · next heq =>
      obtain rfl := (List.cons.inj heq).2
      exact absurd (hdigits '+' (by simp)) (by decide)
    · next heq =>
      obtain rfl := (List.cons.inj heq).2
      rw [hread]
      change some (-(i.natAbs : Int)) = some i
      exact congrArg some (by omega)
    · next hno => exact absurd rfl (hno digits)
  · next h =>
    have hread := readGrouped_decimal i.natAbs
    unfold readSigned
    split
    · next heq => exact absurd (isDigit_of_mem_decimal (heq ▸ List.mem_cons_self)) (by decide)
    · next heq => exact absurd (isDigit_of_mem_decimal (heq ▸ List.mem_cons_self)) (by decide)
    · rw [hread]
      change some (i.natAbs : Int) = some i
      exact congrArg some (by omega)

/-! ### Blanks -/

theorem isBlank_of_isDigit {c : Char} (h : c.isDigit = true) : isBlank c = false := by
  simp only [Char.isDigit, Bool.and_eq_true, decide_eq_true_eq, ge_iff_le,
    UInt32.le_iff_toNat_le] at h
  have hlow : 48 ≤ c.toNat := h.1
  have hhigh : c.toNat ≤ 57 := h.2
  simp only [isBlank, Bool.or_eq_false_iff, Bool.and_eq_false_iff, decide_eq_false_iff_not,
    beq_eq_false_iff_ne]
  omega

theorem isBlank_of_mem_decimalInt {i : Int} {c : Char} (h : c ∈ decimalInt i) :
    isBlank c = false := by
  unfold decimalInt at h
  split at h
  · rcases List.mem_cons.mp h with rfl | h
    · decide
    · exact isBlank_of_isDigit (isDigit_of_mem_decimal h)
  · exact isBlank_of_isDigit (isDigit_of_mem_decimal h)

theorem trimBlanks_of_forall {cs : List Char} (h : ∀ c ∈ cs, isBlank c = false) :
    trimBlanks cs = cs :=
  trimBlanks_of_ends (fun c hc => h c (List.mem_of_mem_head? hc))
    (fun c hc => h c (List.mem_of_getLast? hc))

end ContractFuzz.Text
