import ContractFuzz.Text.Numeral
/-!
# Byte strings in hexadecimal

## Main definitions

* `hexText`: the two lower-case digits of every byte.
* `readHex`: the bytes of a text with an even number of digits of either case.

## Main results

* `readHex_hexText`: reading gives back the bytes that were written.
-/

namespace ContractFuzz.Text

/-- The lower-case hexadecimal digit of a number below sixteen. -/
def hexDigit (n : Nat) : Char := Nat.digitChar n

/-- The two digits of every byte, in order. -/
def hexText (bytes : List UInt8) : List Char :=
  bytes.flatMap fun b => [hexDigit (b.toNat / 16), hexDigit (b.toNat % 16)]

/-- The bytes of a text made of pairs of hexadecimal digits. -/
def readHex : List Char → Option (List UInt8)
  | [] => some []
  | [_] => none
  | c :: d :: r => do
    let high ← digitValue? 16 c
    let low ← digitValue? 16 d
    return UInt8.ofNat (16 * high + low) :: (← readHex r)

theorem digitValue?_hexDigit {n : Nat} (h : n < 16) : digitValue? 16 (hexDigit n) = some n := by
  have : ∀ k : Fin 16, digitValue? 16 (hexDigit k) = some k.val := by decide
  exact this ⟨n, h⟩

theorem readHex_hexText (bytes : List UInt8) : readHex (hexText bytes) = some bytes := by
  induction bytes with
  | nil => rfl
  | cons b r ih =>
    have hb := b.toNat_lt
    have high := digitValue?_hexDigit (n := b.toNat / 16) (by omega)
    have low := digitValue?_hexDigit (n := b.toNat % 16) (by omega)
    have join : UInt8.ofNat (16 * (b.toNat / 16) + b.toNat % 16) = b := by
      rw [Nat.div_add_mod]; exact UInt8.ofNat_toNat
    simp only [hexText, List.flatMap_cons, List.cons_append, List.nil_append, readHex, high, low]
    change (readHex (hexText r)).bind _ = _
    simp [ih, join]

end ContractFuzz.Text
