import ContractFuzz.Seed.Crossover
import Mathlib.Data.List.Zip
/-!
# Crossing seeds

What becomes of every character when two seeds are recombined. Where both fields have a character,
the children have these two, exchanged at every even place. So nothing is lost but the rest of the
longer field, the children of the seeds in the other order are the same in the other order, and the
children of the children are the seeds again.

## Main definitions

* `Recombined` : what the children's fields are, place by place.
* `cutTo` : as much of a field as crossing it with another one keeps.

## Main results

* `exchange_swap`, `exchange_exchange` : exchanging is symmetric, and undoes itself.
* `crossover_laws` : the same for seeds, with the children's characters.
-/

namespace ContractFuzz

/-- The children's fields `x` and `y` of the fields `a` and `b`. If one of these is empty, they are
passed on. Else the children have as many characters as the shorter one, at even places those of the
other parent and at odd places those of their own. -/
structure Recombined (a b x y : String) : Prop where
  passed : min a.length b.length = 0 → x = a ∧ y = b
  length : 0 < min a.length b.length →
    x.length = min a.length b.length ∧ y.length = min a.length b.length
  even : ∀ j < min a.length b.length, j % 2 = 0 →
    x.toList[j]? = b.toList[j]? ∧ y.toList[j]? = a.toList[j]?
  odd : ∀ j < min a.length b.length, j % 2 = 1 →
    x.toList[j]? = a.toList[j]? ∧ y.toList[j]? = b.toList[j]?

/-- As much of the field `a` as is kept when it is crossed with `b`: all of it if either is empty,
and else no more characters than `b` has. -/
def cutTo (a b : String) : String :=
  if min a.length b.length = 0 then a
  else String.ofList (a.toList.take (min a.length b.length))

/-! ### Characters -/

section Characters

variable (now : Bool) (as bs : List Char)

theorem exchange_cons (a b : Char) : exchange now (a :: as) (b :: bs) =
    ((if now then b else a) :: (exchange (!now) as bs).1,
      (if now then a else b) :: (exchange (!now) as bs).2) := by
  cases now <;> rfl

theorem length_exchange : (exchange now as bs).1.length = min as.length bs.length ∧
    (exchange now as bs).2.length = min as.length bs.length := by
  induction as generalizing now bs with
  | nil => simp [exchange]
  | cons a as ih =>
    cases bs with
    | nil => simp [exchange]
    | cons b bs =>
      obtain ⟨hfirst, hsecond⟩ := ih (!now) bs
      simp only [exchange_cons, List.length_cons, hfirst, hsecond]
      omega

/-- Where both have a character, the two are exchanged at every other place. -/
theorem getElem?_exchange {j : Nat} (h : j < min as.length bs.length) :
    ((exchange now as bs).1[j]?, (exchange now as bs).2[j]?) =
      if now = (j % 2 == 0) then (bs[j]?, as[j]?) else (as[j]?, bs[j]?) := by
  induction as generalizing now bs j with
  | nil => simp at h
  | cons a as ih =>
    cases bs with
    | nil => simp at h
    | cons b bs =>
      rw [exchange_cons]
      cases j with
      | zero => cases now <;> rfl
      | succ j =>
        have hj : j < min as.length bs.length := by
          simp only [List.length_cons] at h
          omega
        -- Each place is treated as the one before it is not.
        have parity : (!now) = (j % 2 == 0) ↔ now = ((j + 1) % 2 == 0) := by
          rcases Nat.mod_two_eq_zero_or_one j with h | h <;> cases now <;>
            simp [Nat.add_mod, h]
        simp only [List.getElem?_cons_succ, ih (!now) bs hj, parity]

/-- The children in the other order are those of the fields in the other order. -/
theorem exchange_swap : exchange now bs as = (exchange now as bs).swap := by
  induction as generalizing now bs with
  | nil => cases bs <;> rfl
  | cons a as ih =>
    cases bs with
    | nil => rfl
    | cons b bs =>
      rw [exchange_cons, exchange_cons, ih (!now) bs]
      cases now <;> rfl

/-- What was exchanged is exchanged back. -/
theorem exchange_exchange :
    exchange now (exchange now as bs).1 (exchange now as bs).2 =
      (as.take bs.length, bs.take as.length) := by
  induction as generalizing now bs with
  | nil => cases bs <;> rfl
  | cons a as ih =>
    cases bs with
    | nil => rfl
    | cons b bs =>
      rw [exchange_cons, exchange_cons, ih (!now) bs]
      cases now <;> rfl

end Characters

/-! ### Fields -/

section Fields

variable {a b : String}

theorem crossField_of_eq_zero (h : min a.length b.length = 0) : crossField a b = (a, b) := by
  have hempty : (a.isEmpty || b.isEmpty) = true := by
    rw [Bool.or_eq_true, String.isEmpty_iff, String.isEmpty_iff, ← String.length_eq_zero_iff,
      ← String.length_eq_zero_iff]
    omega
  rw [crossField, if_pos hempty]

theorem crossField_of_pos (h : 0 < min a.length b.length) :
    crossField a b = (String.ofList (exchange true a.toList b.toList).1,
      String.ofList (exchange true a.toList b.toList).2) := by
  have hempty : ¬ (a.isEmpty || b.isEmpty) = true := by
    rw [Bool.or_eq_true, String.isEmpty_iff, String.isEmpty_iff, ← String.length_eq_zero_iff,
      ← String.length_eq_zero_iff]
    omega
  rw [crossField, if_neg hempty]

theorem recombined_crossField (a b : String) :
    Recombined a b (crossField a b).1 (crossField a b).2 := by
  rcases Nat.eq_zero_or_pos (min a.length b.length) with hzero | hpos
  · rw [crossField_of_eq_zero hzero]
    exact ⟨fun _ => ⟨rfl, rfl⟩, fun h => by omega, fun j h => by omega, fun j h => by omega⟩
  · rw [crossField_of_pos hpos]
    have hlength := length_exchange true a.toList b.toList
    have places := fun j => getElem?_exchange true a.toList b.toList (j := j)
    simp only [String.length_toList] at hlength places
    refine ⟨fun h => by omega, fun _ => by simpa using hlength, fun j hj heven => ?_,
      fun j hj hodd => ?_⟩
    · have hplace := places j hj
      rw [heven, if_pos (by decide)] at hplace
      simpa using hplace
    · have hplace := places j hj
      rw [hodd, if_neg (by decide)] at hplace
      simpa using hplace

theorem crossField_swap (a b : String) : crossField b a = (crossField a b).swap := by
  rcases Nat.eq_zero_or_pos (min a.length b.length) with hzero | hpos
  · rw [crossField_of_eq_zero hzero, crossField_of_eq_zero (Nat.min_comm _ _ ▸ hzero)]
    rfl
  · rw [crossField_of_pos hpos, crossField_of_pos (Nat.min_comm _ _ ▸ hpos), exchange_swap]
    rfl

/-- The children's fields of the children's fields are the parents' fields, as far as they were
kept. -/
theorem crossField_crossField (a b : String) :
    crossField (crossField a b).1 (crossField a b).2 = (cutTo a b, cutTo b a) := by
  unfold cutTo
  rw [Nat.min_comm b.length a.length]
  rcases Nat.eq_zero_or_pos (min a.length b.length) with hzero | hpos
  · rw [crossField_of_eq_zero hzero, crossField_of_eq_zero hzero, if_pos hzero, if_pos hzero]
  · have hlength := (recombined_crossField a b).length hpos
    rw [if_neg (by omega), if_neg (by omega), crossField_of_pos (by omega), crossField_of_pos hpos,
      String.toList_ofList, String.toList_ofList, exchange_exchange, String.length_toList,
      String.length_toList]
    have htake : ∀ (cs : List Char) {m n : Nat}, min m cs.length = min n cs.length →
        String.ofList (cs.take m) = String.ofList (cs.take n) := fun cs m n h =>
      congrArg String.ofList (List.take_eq_take_iff.mpr h)
    refine Prod.ext (htake a.toList ?_) (htake b.toList ?_) <;> rw [String.length_toList] <;> omega

theorem cutTo_of_length_eq (h : a.length = b.length) : cutTo a b = a := by
  unfold cutTo
  split
  · rfl
  · rw [← h, Nat.min_self, ← String.length_toList, List.take_length, String.ofList_toList]

end Fields

/-! ### Seeds -/

section Seeds

variable {a b x y : Seed}

/-- The children have the children's fields of the fields. -/
theorem crossover_eq_some_iff : crossover a b = some (x, y) ↔
    a.length = b.length ∧ x = (a.zip b).map (fun p => (crossField p.1 p.2).1) ∧
      y = (a.zip b).map (fun p => (crossField p.1 p.2).2) := by
  unfold crossover
  rw [List.unzip_eq_map, ← List.map_uncurry_zip_eq_zipWith, List.map_map, List.map_map]
  split
  · next h =>
    rw [Option.some.injEq, Prod.mk.injEq, and_iff_right h]
    exact and_congr eq_comm eq_comm
  · next h => exact iff_of_false nofun fun hboth => h hboth.1

theorem crossover_eq_none_iff : crossover a b = none ↔ a.length ≠ b.length := by
  unfold crossover
  split
  · next h => exact iff_of_false nofun fun hne => hne h
  · next h => exact iff_of_true rfl h

/-- Children have as many fields as their parents. -/
theorem length_of_crossover (h : crossover a b = some (x, y)) :
    x.length = a.length ∧ y.length = a.length := by
  obtain ⟨hlength, rfl, rfl⟩ := crossover_eq_some_iff.mp h
  simp [hlength]

theorem crossover_swap (a b : Seed) : crossover b a = (crossover a b).map Prod.swap := by
  cases hcrossed : crossover a b with
  | none => exact crossover_eq_none_iff.mpr (crossover_eq_none_iff.mp hcrossed).symm
  | some children =>
    obtain ⟨hlength, hx, hy⟩ := crossover_eq_some_iff.mp hcrossed
    refine crossover_eq_some_iff.mpr ⟨hlength.symm, ?_, ?_⟩ <;>
      rw [← List.zip_swap a b, List.map_map]
    · exact hy.trans (List.map_congr_left fun p _ => by
        rw [Function.comp_apply, Prod.fst_swap, Prod.snd_swap, crossField_swap p.1 p.2]; rfl)
    · exact hx.trans (List.map_congr_left fun p _ => by
        rw [Function.comp_apply, Prod.fst_swap, Prod.snd_swap, crossField_swap p.1 p.2]; rfl)

/-- The children of the children are the seeds, as far as they were kept. -/
theorem crossover_crossover (h : crossover a b = some (x, y)) :
    crossover x y = some (List.zipWith cutTo a b, List.zipWith cutTo b a) := by
  obtain ⟨hlength, rfl, rfl⟩ := crossover_eq_some_iff.mp h
  refine crossover_eq_some_iff.mpr ⟨by rw [List.length_map, List.length_map], ?_, ?_⟩ <;>
    rw [List.zip_map', List.map_map, ← List.map_uncurry_zip_eq_zipWith]
  · exact List.map_congr_left fun p _ =>
      (congrArg Prod.fst (crossField_crossField p.1 p.2)).symm
  · rw [← List.zip_swap a b, List.map_map]
    exact List.map_congr_left fun p _ =>
      (congrArg Prod.snd (crossField_crossField p.1 p.2)).symm

/-- Of fields of equal lengths, nothing is lost. -/
theorem zipWith_cutTo (h : a.map String.length = b.map String.length) :
    List.zipWith cutTo a b = a := by
  induction a generalizing b with
  | nil => rfl
  | cons s a ih =>
    cases b with
    | nil => cases h
    | cons t b =>
      obtain ⟨hlength, hrest⟩ := List.cons.inj h
      rw [List.zipWith_cons_cons, cutTo_of_length_eq hlength, ih hrest]

end Seeds

/-- Seeds have children exactly if they have the same number of fields. The children of the seeds in
the other order are the same ones in the other order. Both have as many fields as the seeds, and
each of their fields consists of the characters that it should. The children of the children are the
seeds again, as far as they were kept; so they are the seeds if the fields are of the same
lengths. -/
theorem crossover_laws (a b : Seed) :
    (crossover a b = none ↔ a.length ≠ b.length) ∧
    crossover b a = (crossover a b).map Prod.swap ∧
    ∀ x y : Seed, crossover a b = some (x, y) →
      (x.length = a.length ∧ y.length = a.length) ∧
      (∀ (i : Nat) (s t : String), a[i]? = some s → b[i]? = some t →
        ∃ u v, x[i]? = some u ∧ y[i]? = some v ∧ Recombined s t u v) ∧
      crossover x y = some (List.zipWith cutTo a b, List.zipWith cutTo b a) ∧
      (a.map String.length = b.map String.length → crossover x y = some (a, b)) := by
  refine ⟨crossover_eq_none_iff, crossover_swap a b, fun x y hcrossed => ?_⟩
  obtain ⟨-, hx, hy⟩ := crossover_eq_some_iff.mp hcrossed
  refine ⟨length_of_crossover hcrossed, fun i s t hs ht => ?_, crossover_crossover hcrossed,
    fun hfields => ?_⟩
  · have hboth : (a.zip b)[i]? = some (s, t) := List.getElem?_zip_eq_some.mpr ⟨hs, ht⟩
    refine ⟨_, _, ?_, ?_, recombined_crossField s t⟩
    · rw [hx, List.getElem?_map, hboth, Option.map_some]
    · rw [hy, List.getElem?_map, hboth, Option.map_some]
  · rw [crossover_crossover hcrossed, zipWith_cutTo hfields, zipWith_cutTo hfields.symm]

-- Fields of different lengths are cut to the shorter one, unless that is empty.
example : crossover ["abcd", "x", ""] ["WXYZ", "78", "keep"] =
    some (["WbYd", "7", ""], ["aXcZ", "x", "keep"]) := by
  decide +kernel

end ContractFuzz
