import ContractFuzz.Proofs.Numeral
import ContractFuzz.Text.Hex
import Mathlib.Data.List.Induction
import Mathlib.Data.List.TakeWhile
/-!
# The grammar of numerals

Which texts are numerals, and which number each of them stands for, said by rules that build a
numeral from the left to the right: a digit comes first, and digits and underscores follow. Readers
of numerals accept these texts and no others.

## Main definitions

* `Text.IsDigit` : a digit of either case.
* `Text.Grouped`, `Text.Unsigned`, `Text.Signed` : numerals, and with signs before them.
* `Text.Trimmed` : a text without the blanks around it.

## Main results

* `Text.readGrouped_eq_some_iff`, `Text.readSigned_eq_some_iff` : what is read is a numeral.
* `Text.readHex_eq_some_iff`, `Text.exists_hexText_iff` : the same for byte strings.
-/

namespace ContractFuzz.Text

/-- A digit of the base, of either case, and what it counts. -/
def IsDigit (base : Nat) (c : Char) (d : Nat) : Prop := d < base ∧ c.toLower = Nat.digitChar d

/-- Digits and underscores, of which a digit is the first: a numeral, and its number. -/
inductive Grouped (base : Nat) : List Char → Nat → Prop
  | first {c : Char} {d : Nat} (digit : IsDigit base c d) : Grouped base [c] d
  | next {cs : List Char} {c : Char} {n d : Nat} (before : Grouped base cs n)
      (digit : IsDigit base c d) : Grouped base (cs ++ [c]) (n * base + d)
  | gap {cs : List Char} {n : Nat} (before : Grouped base cs n) : Grouped base (cs ++ ['_']) n

/-- A numeral that may follow a plus sign. -/
inductive Unsigned (base : Nat) : List Char → Nat → Prop
  | bare {cs : List Char} {n : Nat} (digits : Grouped base cs n) : Unsigned base cs n
  | plus {cs : List Char} {n : Nat} (digits : Grouped base cs n) : Unsigned base ('+' :: cs) n

/-- A numeral that may follow a plus sign or a minus sign. -/
inductive Signed (base : Nat) : List Char → Int → Prop
  | unsigned {cs : List Char} {n : Nat} (numeral : Unsigned base cs n) : Signed base cs n
  | minus {cs : List Char} {n : Nat} (digits : Grouped base cs n) :
      Signed base ('-' :: cs) (-(n : Int))

/-- What is left of a text when the blanks around it are taken away. -/
structure Trimmed (cs t : List Char) : Prop where
  between : ∃ before after, cs = before ++ t ++ after ∧ ∀ c ∈ before ++ after, isBlank c = true
  first : ∀ c ∈ t.head?, isBlank c = false
  last : ∀ c ∈ t.getLast?, isBlank c = false

variable {base : Nat} {cs : List Char} {c : Char} {n d : Nat}

/-! ### Surrounding blanks -/

theorem trimmed_trimBlanks (cs : List Char) : Trimmed cs (trimBlanks cs) := by
  have split : ∀ l : List Char, ∃ blanks, l = blanks ++ l.dropWhile isBlank ∧
      ∀ c ∈ blanks, isBlank c = true := fun l =>
    ⟨l.takeWhile isBlank, List.takeWhile_append_dropWhile.symm, fun c hc =>
      List.mem_takeWhile_imp hc⟩
  have head : ∀ (l : List Char), ∀ c ∈ (l.dropWhile isBlank).head?, isBlank c = false := by
    intro l c hc
    have hhead := List.head?_dropWhile_not isBlank l
    rw [hc] at hhead
    simpa using hhead
  -- First the blanks before the text are dropped, then those after it.
  obtain ⟨before, hbefore, blank⟩ := split cs
  obtain ⟨after, hafter, blank'⟩ := split (cs.dropWhile isBlank).reverse
  have hrest : cs.dropWhile isBlank = trimBlanks cs ++ after.reverse := by
    rw [trimBlanks, ← List.reverse_append, ← hafter, List.reverse_reverse]
  refine ⟨⟨before, after.reverse, ?_, fun c hc => ?_⟩, fun c hc => ?_, fun c hc => ?_⟩
  · rw [List.append_assoc, ← hrest, ← hbefore]
  · rcases List.mem_append.mp hc with hc | hc
    · exact blank c hc
    · exact blank' c (List.mem_reverse.mp hc)
  · refine head cs c ?_
    rw [hrest, List.head?_append, hc]
    rfl
  · rw [trimBlanks, List.getLast?_reverse] at hc
    exact head _ c hc

/-- There is only one text left. -/
theorem trimmed_iff {t : List Char} : Trimmed cs t ↔ t = trimBlanks cs := by
  constructor
  · intro h
    obtain ⟨before, after, rfl, blank⟩ := h.between
    have hbefore : ∀ c ∈ before, isBlank c = true := fun c hc =>
      blank c (List.mem_append_left after hc)
    have hafter : ∀ c ∈ after.reverse, isBlank c = true := fun c hc =>
      blank c (List.mem_append_right before (List.mem_reverse.mp hc))
    have hself : trimBlanks t = t := trimBlanks_of_ends h.first h.last
    rw [trimBlanks, List.append_assoc, List.dropWhile_append_of_pos hbefore]
    cases t with
    | nil =>
      have hnone : after.dropWhile isBlank = [] :=
        List.dropWhile_eq_nil_iff.mpr fun c hc => hafter c (List.mem_reverse.mpr hc)
      rw [List.nil_append, hnone]
      rfl
    | cons c r =>
      have hc : isBlank c = false := h.first c rfl
      have hkept : ∀ l, (c :: l).dropWhile isBlank = c :: l := fun l => by
        rw [List.dropWhile_cons_of_neg (ne_true_of_eq_false hc)]
      rw [trimBlanks, hkept] at hself
      rw [List.cons_append, hkept, ← List.cons_append, List.reverse_append,
        List.dropWhile_append_of_pos hafter, hself]
  · rintro rfl
    exact trimmed_trimBlanks cs

/-! ### Digits -/

theorem digitValue?_eq_some_iff (small : base ≤ 16) :
    digitValue? base c = some d ↔ IsDigit base c d :=
  digitValue?_iff small

/-- A digit is neither a sign nor an underscore. -/
theorem IsDigit.ne_mark (small : base ≤ 16) (h : IsDigit base c d) :
    c ≠ '+' ∧ c ≠ '-' ∧ c ≠ '_' := by
  have marks : ∀ d : Fin 16, '+'.toLower ≠ Nat.digitChar d ∧ '-'.toLower ≠ Nat.digitChar d ∧
      '_'.toLower ≠ Nat.digitChar d := by decide
  obtain ⟨hplus, hminus, hgap⟩ := marks ⟨d, Nat.lt_of_lt_of_le h.1 small⟩
  refine ⟨?_, ?_, ?_⟩ <;> rintro rfl
  · exact hplus h.2
  · exact hminus h.2
  · exact hgap h.2

/-- A digit is no blank. -/
theorem IsDigit.isBlank_eq_false (small : base ≤ 16) (h : IsDigit base c d) :
    isBlank c = false := by
  have digits : ∀ d : Fin 16, isBlank (Nat.digitChar d) = false := by decide
  by_contra hblank
  -- A blank is no letter, so it has no other case.
  have hlower : c.toLower = c := by
    simp only [isBlank, Bool.not_eq_false, Bool.or_eq_true, Bool.and_eq_true, decide_eq_true_eq,
      beq_iff_eq] at hblank
    exact toLower_eq_self (by omega)
  rw [← hlower, h.2] at hblank
  exact hblank (digits ⟨d, Nat.lt_of_lt_of_le h.1 small⟩)

/-! ### Numerals -/

/-- One more digit: the number before it counts `base` times. -/
theorem readDigits_concat_eq_some_iff (hcs : cs ≠ []) :
    readDigits base (cs ++ [c]) = some n ↔
      ∃ m d, readDigits base cs = some m ∧ digitValue? base c = some d ∧ m * base + d = n := by
  have hempty : cs.isEmpty = false := List.isEmpty_eq_false_iff.mpr hcs
  have hempty' : (cs ++ [c]).isEmpty = false := by simp
  simp only [readDigits, hempty, hempty', Bool.false_eq_true, if_false]
  rw [List.mapM_append]
  cases cs.mapM (digitValue? base) with
  | none => simp
  | some digits =>
    cases hd : digitValue? base c with
    | none => simp [hd]
    | some d => simp [hd, valueOf]

theorem readDigits_singleton : readDigits base [c] = digitValue? base c := by
  cases h : digitValue? base c <;> simp [readDigits, valueOf, h]

/-- A numeral consists of digits and underscores. -/
theorem Grouped.digit_or_gap (h : Grouped base cs n) (hc : c ∈ cs) :
    c = '_' ∨ ∃ d, IsDigit base c d := by
  induction h with
  | first digit => exact .inr ⟨_, List.mem_singleton.mp hc ▸ digit⟩
  | next before digit ih =>
    rcases List.mem_append.mp hc with hc | hc
    · exact ih hc
    · exact .inr ⟨_, List.mem_singleton.mp hc ▸ digit⟩
  | gap before ih =>
    rcases List.mem_append.mp hc with hc | hc
    · exact ih hc
    · exact .inl (List.mem_singleton.mp hc)

/-- A numeral begins with a digit. -/
theorem Grouped.exists_first (h : Grouped base cs n) :
    ∃ c r d, cs = c :: r ∧ IsDigit base c d := by
  induction h with
  | first digit => exact ⟨_, [], _, rfl, digit⟩
  | @next _ c' _ _ before digit ih =>
    obtain ⟨c, r, d, rfl, first⟩ := ih
    exact ⟨c, r ++ [c'], d, rfl, first⟩
  | gap before ih =>
    obtain ⟨c, r, d, rfl, first⟩ := ih
    exact ⟨c, r ++ ['_'], d, rfl, first⟩

private theorem filter_singleton (h : c ≠ '_') : [c].filter (· != '_') = [c] := by
  simp [h]

/-- The digits of a numeral, without the underscores, are read as its number. -/
theorem grouped_iff (small : base ≤ 16) :
    Grouped base cs n ↔
      cs.head? ≠ some '_' ∧ readDigits base (cs.filter (· != '_')) = some n := by
  constructor
  · intro h
    constructor
    · obtain ⟨c, r, d, rfl, first⟩ := h.exists_first
      exact fun heq => (first.ne_mark small).2.2 (Option.some.inj heq)
    · induction h with
      | first digit =>
        rw [filter_singleton (digit.ne_mark small).2.2, readDigits_singleton,
          (digitValue?_eq_some_iff small).mpr digit]
      | @next cs c n d before digit ih =>
        rw [List.filter_append, filter_singleton (digit.ne_mark small).2.2]
        have hne : cs.filter (· != '_') ≠ [] := fun h => by rw [h] at ih; cases ih
        exact (readDigits_concat_eq_some_iff hne).mpr
          ⟨n, d, ih, (digitValue?_eq_some_iff small).mpr digit, rfl⟩
      | gap before ih =>
        rw [List.filter_append]
        exact (List.append_nil _).symm ▸ ih
  · rintro ⟨head, h⟩
    induction cs using List.reverseRecOn generalizing n with
    | nil => cases h
    | append_singleton cs c ih =>
      rw [List.filter_append] at h
      cases cs with
      | nil =>
        have hc : c ≠ '_' := fun heq => head (congrArg some heq)
        rw [List.filter_nil, List.nil_append, filter_singleton hc, readDigits_singleton,
          digitValue?_eq_some_iff small] at h
        exact .first h
      | cons first rest =>
        have hfirst : first ≠ '_' := fun heq => head (congrArg some heq)
        have hne : (first :: rest).filter (· != '_') ≠ [] := by simp [hfirst]
        by_cases hc : c = '_'
        · subst hc
          have hgap : ['_'].filter (· != '_') = [] := by decide
          rw [hgap, List.append_nil] at h
          exact .gap (ih head h)
        · rw [filter_singleton hc, readDigits_concat_eq_some_iff hne] at h
          obtain ⟨m, d, hm, hd, rfl⟩ := h
          exact .next (ih head hm) ((digitValue?_eq_some_iff small).mp hd)

/-- When the first character is no underscore, all of them may be left out. -/
private theorem readDigits_filter_eq_some_iff (small : base ≤ 16) (noGap : ∀ r, cs ≠ '_' :: r) :
    readDigits base (cs.filter (· != '_')) = some n ↔ Grouped base cs n := by
  rw [grouped_iff small]
  refine (and_iff_right fun head => ?_).symm
  obtain ⟨r, rfl⟩ := List.head?_eq_some_iff.mp head
  exact noGap r rfl

private theorem Unsigned.plus_iff (small : base ≤ 16) :
    Unsigned base ('+' :: cs) n ↔ Grouped base cs n := by
  refine ⟨fun h => ?_, .plus⟩
  cases h with
  | bare digits =>
    obtain ⟨c, r, d, heq, first⟩ := digits.exists_first
    exact absurd (List.cons.inj heq).1.symm (first.ne_mark small).1
  | plus digits => exact digits

private theorem Unsigned.bare_iff (noPlus : ∀ r, cs ≠ '+' :: r) :
    Unsigned base cs n ↔ Grouped base cs n := by
  refine ⟨fun h => ?_, .bare⟩
  cases h with
  | bare digits => exact digits
  | plus digits => exact absurd rfl (noPlus _)

/-- What is read without a sign is a numeral that may follow a plus sign. -/
theorem readGrouped_eq_some_iff (small : base ≤ 16) :
    readGrouped base cs = some n ↔ Unsigned base cs n := by
  have noneGrouped : ∀ r, ¬ Grouped base ('_' :: r) n := fun r h =>
    ((grouped_iff small).mp h).1 rfl
  unfold readGrouped
  split
  · next r =>
    rw [Unsigned.plus_iff small]
    dsimp only
    split
    · exact iff_of_false nofun (noneGrouped _)
    · next noGap => exact readDigits_filter_eq_some_iff small noGap
  · next noPlus =>
    rw [Unsigned.bare_iff noPlus]
    dsimp only
    split
    · exact iff_of_false nofun (noneGrouped _)
    · next noGap => exact readDigits_filter_eq_some_iff small noGap

/-- A numeral without a minus sign does not begin with one. -/
theorem Unsigned.ne_minus (small : base ≤ 16) {r : List Char} (h : Unsigned base ('-' :: r) n) :
    False := by
  cases h with
  | bare digits =>
    obtain ⟨c, r', d, heq, first⟩ := digits.exists_first
    exact (first.ne_mark small).2.1 (List.cons.inj heq).1.symm

/-- What is read with a sign is a numeral that may follow either sign. -/
theorem readSigned_eq_some_iff (small : base ≤ 16) {i : Int} :
    readSigned base cs = some i ↔ Signed base cs i := by
  have read : ∀ {r : List Char} {f : Int → Int},
      (do let n ← readGrouped base r; pure (n : Int) : Option Int).map f = some i ↔
        ∃ n : Nat, readGrouped base r = some n ∧ f n = i := by
    intro r f
    cases readGrouped base r <;> simp
  unfold readSigned
  split
  · next r =>
    refine iff_of_false nofun fun h => ?_
    cases h with
    | unsigned numeral => exact numeral.ne_minus small
    | minus digits =>
      obtain ⟨c, r', d, heq, first⟩ := digits.exists_first
      exact (first.ne_mark small).1 (List.cons.inj heq).1.symm
  · next r noPlus =>
    rw [read]
    constructor
    · rintro ⟨n, hn, rfl⟩
      cases (readGrouped_eq_some_iff small).mp hn with
      | bare digits => exact .minus digits
      | plus digits => exact absurd rfl (noPlus _)
    · intro h
      cases h with
      | unsigned numeral => exact (numeral.ne_minus small).elim
      | @minus _ n digits =>
        exact ⟨n, (readGrouped_eq_some_iff small).mpr (.bare digits), rfl⟩
  · next noPlus noMinus =>
    rw [read]
    constructor
    · rintro ⟨n, hn, rfl⟩
      exact .unsigned ((readGrouped_eq_some_iff small).mp hn)
    · intro h
      cases h with
      | @unsigned _ n numeral => exact ⟨n, (readGrouped_eq_some_iff small).mpr numeral, rfl⟩
      | minus digits => exact absurd rfl (noMinus _)

/-! ### Byte strings -/

private theorem ofNat_eq_iff {high low : Nat} (hhigh : high < 16) (hlow : low < 16) {b : UInt8} :
    UInt8.ofNat (16 * high + low) = b ↔ high = b.toNat / 16 ∧ low = b.toNat % 16 := by
  have hb := b.toNat_lt
  rw [← UInt8.toNat_inj, UInt8.toNat_ofNat_of_lt' (Nat.lt_of_le_of_lt (m := 255) (by omega)
    (by decide))]
  omega

private theorem hexText_cons (b : UInt8) (bytes : List UInt8) :
    hexText (b :: bytes) =
      Nat.digitChar (b.toNat / 16) :: Nat.digitChar (b.toNat % 16) :: hexText bytes := rfl

theorem length_hexText (bytes : List UInt8) : (hexText bytes).length = 2 * bytes.length := by
  induction bytes with
  | nil => rfl
  | cons b bytes ih =>
    rw [hexText_cons, List.length_cons, List.length_cons, ih, List.length_cons]
    omega

/-- The bytes that are read are those whose digits the text has, apart from case. -/
theorem readHex_eq_some_iff {bytes : List UInt8} :
    readHex cs = some bytes ↔ cs.map Char.toLower = hexText bytes := by
  induction cs using readHex.induct generalizing bytes with
  | case1 => cases bytes <;> simp [readHex, hexText]
  | case2 c => cases bytes <;> simp [readHex, hexText]
  | case3 c d r ih =>
    rw [readHex]
    constructor
    · intro h
      obtain ⟨high, hhigh, h⟩ := Option.bind_eq_some_iff.mp h
      obtain ⟨low, hlow, h⟩ := Option.bind_eq_some_iff.mp h
      obtain ⟨rest, hrest, h⟩ := Option.bind_eq_some_iff.mp h
      obtain rfl := Option.some.inj h
      rw [digitValue?_eq_some_iff (Nat.le_refl _)] at hhigh hlow
      obtain ⟨hdiv, hmod⟩ := (ofNat_eq_iff hhigh.1 hlow.1).mp rfl
      rw [hexText_cons, ← hdiv, ← hmod, List.map_cons, List.map_cons, hhigh.2, hlow.2,
        ih.mp hrest]
    · intro h
      cases bytes with
      | nil => cases h
      | cons b bytes =>
        have hb := b.toNat_lt
        rw [hexText_cons, List.map_cons, List.map_cons, List.cons.injEq, List.cons.injEq] at h
        obtain ⟨hhigh, hlow, hrest⟩ := h
        have hhigh : digitValue? 16 c = some (b.toNat / 16) :=
          (digitValue?_eq_some_iff (Nat.le_refl _)).mpr ⟨by omega, hhigh⟩
        have hlow : digitValue? 16 d = some (b.toNat % 16) :=
          (digitValue?_eq_some_iff (Nat.le_refl _)).mpr ⟨by omega, hlow⟩
        have hbyte : UInt8.ofNat (16 * (b.toNat / 16) + b.toNat % 16) = b :=
          (ofNat_eq_iff (by omega) (by omega)).mpr ⟨rfl, rfl⟩
        rw [hhigh, hlow, ih.mpr hrest]
        exact congrArg some (congrArg (· :: bytes) hbyte)

/-- A text has the digits of some bytes if it has two hexadecimal digits for each. -/
theorem exists_hexText_iff {count : Nat} :
    (∃ bytes : List UInt8, bytes.length = count ∧ cs.map Char.toLower = hexText bytes) ↔
      cs.length = 2 * count ∧ ∀ c ∈ cs, ∃ d, IsDigit 16 c d := by
  constructor
  · rintro ⟨bytes, rfl, h⟩
    refine ⟨by rw [← length_hexText, ← h, List.length_map], fun c hc => ?_⟩
    have hmem : c.toLower ∈ hexText bytes := h ▸ List.mem_map_of_mem hc
    obtain ⟨b, -, hb⟩ := List.mem_flatMap.mp hmem
    have hlt := b.toNat_lt
    rcases List.mem_cons.mp hb with heq | hb
    · exact ⟨b.toNat / 16, by omega, heq⟩
    · exact ⟨b.toNat % 16, by omega, List.mem_singleton.mp hb⟩
  · rintro ⟨hlength, hdigits⟩
    induction count generalizing cs with
    | zero => exact ⟨[], rfl, by rw [List.eq_nil_of_length_eq_zero hlength]; rfl⟩
    | succ count ih =>
      obtain ⟨c, d, r, rfl⟩ : ∃ c d r, cs = c :: d :: r := by
        match cs, hlength with
        | c :: d :: r, _ => exact ⟨c, d, r, rfl⟩
      obtain ⟨high, hhigh⟩ := hdigits c List.mem_cons_self
      obtain ⟨low, hlow⟩ := hdigits d (List.mem_cons_of_mem c List.mem_cons_self)
      obtain ⟨bytes, hcount, hbytes⟩ := @ih r (by simpa [Nat.mul_add] using hlength)
        fun c' hc' => hdigits c' (List.mem_cons_of_mem c (List.mem_cons_of_mem d hc'))
      obtain ⟨hdiv, hmod⟩ := (ofNat_eq_iff hhigh.1 hlow.1).mp rfl
      refine ⟨UInt8.ofNat (16 * high + low) :: bytes, congrArg (· + 1) hcount, ?_⟩
      rw [hexText_cons, ← hdiv, ← hmod, List.map_cons, List.map_cons, hhigh.2, hlow.2, hbytes]

end ContractFuzz.Text
