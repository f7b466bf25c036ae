import Mathlib.Data.List.Basic
/-!
# Stable sorting

A sort that leaves those in their order that compare alike can be told from its result: the members
of the list that compare alike stand in it as they stood before.

## Main results

* `filter_mergeSort` : those that compare alike stay as they are.
* `pair_sublist_of_mergeSort` : two of them that stand in the result stood so before.
* `map_eq_of_pairwise` : sorted lists of the same members have the same keys.
* `eq_of_map_eq_of_filter_eq` : the order of keys, and of what has the same key, is all there is.
-/

namespace ContractFuzz

variable {α : Type} {le : α → α → Bool} {l : List α} {a b : α}

section Preorder

variable (trans : ∀ a b c, le a b = true → le b c = true → le a c = true)
  (total : ∀ a b, (le a b || le b a) = true)

include trans total

/-- The members that compare alike stand in a sorted list as they stood before. -/
theorem filter_mergeSort {p : α → Bool}
    (alike : ∀ a b, p a = true → p b = true → le a b = true) :
    (l.mergeSort le).filter p = l.filter p := by
  have sorted : (l.filter p).Pairwise fun a b => le a b = true := by
    refine List.pairwise_of_forall_mem_list fun a ha b hb => ?_
    exact alike a b (List.mem_filter.mp ha).2 (List.mem_filter.mp hb).2
  have kept : ((l.filter p).filter p).Sublist ((l.mergeSort le).filter p) :=
    (List.sublist_mergeSort trans total sorted List.filter_sublist).filter p
  rw [List.filter_filter] at kept
  simp only [Bool.and_self] at kept
  have samelength := ((List.mergeSort_perm l le).filter p).length_eq
  exact (kept.eq_of_length samelength.symm).symm

/-- Of two members that compare alike, the one that comes first in a sorted list came first
before. -/
theorem pair_sublist_of_mergeSort (hba : le b a = true)
    (h : [a, b].Sublist (l.mergeSort le)) : [a, b].Sublist l := by
  have hab : le a b = true :=
    List.pairwise_iff_forall_sublist.mp (List.pairwise_mergeSort trans total l) h
  have haa : le a a = true := trans a b a hab hba
  let alike : α → Bool := fun x => le a x && le x a
  have same : (l.mergeSort le).filter alike = l.filter alike := by
    refine filter_mergeSort trans total fun x y hx hy => ?_
    exact trans x a y (Bool.and_eq_true_iff.mp hx).2 (Bool.and_eq_true_iff.mp hy).1
  have both : ([a, b].filter alike).Sublist (l.filter alike) := same ▸ h.filter alike
  have all : [a, b].filter alike = [a, b] := by simp [alike, haa, hab, hba]
  exact (all ▸ both).trans List.filter_sublist

end Preorder

/-- The keys of a sorted list are determined by its members. -/
theorem map_eq_of_pairwise {β : Type} {key : α → β} {R : β → β → Prop} {l' : List α}
    (antisymm : ∀ x y, R x y → R y x → x = y) (hperm : l.Perm l')
    (h : l.Pairwise fun a b => R (key a) (key b))
    (h' : l'.Pairwise fun a b => R (key a) (key b)) : l.map key = l'.map key :=
  (hperm.map key).eq_of_pairwise (fun x y _ _ => antisymm x y) (List.pairwise_map.mpr h)
    (List.pairwise_map.mpr h')

/-- A list is determined by the keys of its members and by those that share a key, in their
order. -/
theorem eq_of_map_eq_of_filter_eq {β : Type} [DecidableEq β] {key : α → β} {l' : List α}
    (hmap : l.map key = l'.map key)
    (hfilter : ∀ k, l.filter (fun a => key a = k) = l'.filter fun a => key a = k) : l = l' := by
  induction l generalizing l' with
  | nil => exact (List.map_eq_nil_iff.mp hmap.symm).symm
  | cons a l ih =>
    obtain ⟨b, l', rfl, hkey, htail⟩ := List.map_eq_cons_iff.mp hmap.symm
    have hfirst := hfilter (key a)
    simp only [List.filter_cons, hkey, decide_true, if_true] at hfirst
    obtain ⟨rfl, -⟩ := List.cons.inj hfirst
    refine congrArg (a :: ·) (ih htail.symm fun k => ?_)
    have hrest := hfilter k
    by_cases hk : key a = k
    · simp only [List.filter_cons, hk, decide_true, if_true] at hrest
      exact (List.cons.inj hrest).2
    · simpa only [List.filter_cons, hk, decide_false, Bool.false_eq_true, if_false] using hrest

end ContractFuzz
