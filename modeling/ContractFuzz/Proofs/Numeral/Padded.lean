import ContractFuzz.Proofs.Numeral.Grammar
/-!
# Padded numerals

A machine number may be written with digits of either case and with zeros before them. It is read
as that number if it is below the bound of the reader, and not at all otherwise.

## Main definitions

* `Text.Padded` : the numerals of a number in a base.

## Main results

* `Text.readBounded_of_padded` : what is read from them.
-/

namespace ContractFuzz.Text

/-- A number written by its digits in a base, of either case and after any number of zeros. -/
def Padded (base n : Nat) (cs : List Char) : Prop :=
  ∃ zeros digits, cs = List.replicate zeros '0' ++ digits ∧
    digits.map Char.toLower = Nat.toDigits base n

theorem padded_decimal (n : Nat) : Padded 10 n (decimal n) :=
  ⟨0, decimal n, rfl, map_toLower_decimal n⟩

variable {base n : Nat} {cs : List Char} {c : Char} (large : 1 < base) (small : base ≤ 16)

include large small

/-- Zeros before a numeral do not count. -/
theorem readDigits_zeros (hcs : cs ≠ []) (zeros : Nat) :
    readDigits base (List.replicate zeros '0' ++ cs) = readDigits base cs := by
  have hzero : digitValue? base '0' = some 0 :=
    (digitValue?_iff small).mpr ⟨by omega, by decide⟩
  induction zeros with
  | zero => rfl
  | succ zeros ih =>
    rw [← ih, List.replicate_succ, List.cons_append]
    have hne : List.replicate zeros '0' ++ cs ≠ [] := List.append_ne_nil_of_right_ne_nil _ hcs
    generalize List.replicate zeros '0' ++ cs = rest at hne
    simp only [readDigits, List.isEmpty_cons, List.isEmpty_eq_false_iff.mpr hne,
      Bool.false_eq_true, if_false, List.mapM_cons, hzero]
    cases rest.mapM (digitValue? base) with
    | none => rfl
    | some digits => simp [valueOf]

theorem readDigits_of_padded (h : Padded base n cs) : readDigits base cs = some n := by
  obtain ⟨zeros, digits, rfl, hdigits⟩ := h
  have hne : digits ≠ [] := fun hnil => Nat.toDigits_ne_nil (hdigits.symm.trans (by rw [hnil]; rfl))
  rw [readDigits_zeros large small hne, readDigits_of_digits large small hdigits]

theorem Padded.ne_nil (h : Padded base n cs) : cs ≠ [] := by
  rintro rfl
  cases readDigits_of_padded large small h

/-- Padded numerals consist of digits. -/
theorem Padded.exists_isDigit (h : Padded base n cs) (hc : c ∈ cs) : ∃ d, IsDigit base c d := by
  have hread := readDigits_of_padded large small h
  rw [readDigits, if_neg (by simpa using h.ne_nil large small), Option.map_eq_some_iff] at hread
  obtain ⟨digits, hdigits, -⟩ := hread
  clear h
  induction cs generalizing digits with
  | nil => cases hc
  | cons c' cs ih =>
    rw [List.mapM_cons] at hdigits
    obtain ⟨d, hd, hdigits⟩ := Option.bind_eq_some_iff.mp hdigits
    obtain ⟨rest, hrest, -⟩ := Option.bind_eq_some_iff.mp hdigits
    obtain rfl | hc := List.mem_cons.mp hc
    · exact ⟨d, (digitValue?_eq_some_iff small).mp hd⟩
    · exact ih hc rest hrest

/-- A padded numeral is read if its number is below the bound. -/
theorem readBounded_of_padded (h : Padded base n cs) (limit : Nat) :
    readBounded base limit cs = if n < limit then some n else none := by
  unfold readBounded
  dsimp only
  split
  · obtain ⟨d, hplus⟩ := h.exists_isDigit large small List.mem_cons_self
    exact absurd rfl (hplus.ne_mark small).1
  · rw [readDigits_of_padded large small h, Option.filter_some]
    simp only [decide_eq_true_eq]

omit large small in
theorem readBounded_decimal {limit : Nat} (h : n < limit) :
    readBounded 10 limit (decimal n) = some n := by
  rw [readBounded_of_padded (by decide) (by decide) (padded_decimal n), if_pos h]

end ContractFuzz.Text
