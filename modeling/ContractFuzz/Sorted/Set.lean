/-!
# Sorted sets

A finite set kept as the strictly ascending list of its elements. The order is part of the type,
so two sets with the same elements are the same value, and listing a set needs no sorting.

## Main definitions

* `SortedSet`: the strictly ascending lists over an ordered type.
* `SortedSet.insert`, `SortedSet.union`, `SortedSet.ofList`: ways to build one.

## Main results

* `SortedSet.mem_insert`, `SortedSet.mem_union`, `SortedSet.mem_ofList`: what each holds.
* `SortedSet.ext_mem`: sets with the same elements are equal.
-/

namespace ContractFuzz

open Std

/-- A finite set, as the strictly ascending list of its elements. -/
structure SortedSet (κ : Type) [Ord κ] where
  /-- The elements, in ascending order. -/
  toList : List κ
  /-- Every element is below all later ones. -/
  sorted : toList.Pairwise fun a b => compare a b = .lt

namespace SortedSet

variable {κ : Type} [Ord κ]

/-- Put `k` at its place in an ascending list, unless it is there already. -/
def place (k : κ) : List κ → List κ
  | [] => [k]
  | x :: xs =>
    match compare k x with
    | .lt => k :: x :: xs
    | .eq => x :: xs
    | .gt => x :: place k xs

section Place

variable [LawfulEqOrd κ]

theorem mem_place {k a : κ} {l : List κ} : a ∈ place k l ↔ a = k ∨ a ∈ l := by
  induction l with
  | nil => simp [place]
  | cons x xs ih =>
    rw [place]
    split
    · simp
    · next h => simp [compare_eq_iff_eq.1 h]
    · simp only [List.mem_cons, ih]
      grind

theorem pairwise_place [TransOrd κ] {k : κ} {l : List κ}
    (h : l.Pairwise fun a b => compare a b = .lt) :
    (place k l).Pairwise fun a b => compare a b = .lt := by
  induction l with
  | nil => simp [place]
  | cons x xs ih =>
    rw [place]
    split
    · next hk =>
      refine List.pairwise_cons.2 ⟨fun a ha => ?_, h⟩
      rcases List.mem_cons.1 ha with rfl | ha
      · exact hk
      · exact TransCmp.lt_trans hk (List.rel_of_pairwise_cons h ha)
    · exact h
    · next hk =>
      refine List.pairwise_cons.2 ⟨fun a ha => ?_, ih h.of_cons⟩
      rcases mem_place.1 ha with rfl | ha
      · exact OrientedCmp.lt_of_gt hk
      · exact List.rel_of_pairwise_cons h ha

end Place

/-- The set without elements. -/
def empty : SortedSet κ := ⟨[], .nil⟩

instance : Inhabited (SortedSet κ) := ⟨empty⟩

instance : EmptyCollection (SortedSet κ) := ⟨empty⟩

instance : Membership κ (SortedSet κ) := ⟨fun s k => k ∈ s.toList⟩

/-- Whether `k` is an element. -/
def contains (s : SortedSet κ) (k : κ) : Bool := s.toList.any fun x => compare k x == .eq

/-- Number of elements. -/
def size (s : SortedSet κ) : Nat := s.toList.length

/-- Whether there is no element. -/
def isEmpty (s : SortedSet κ) : Bool := s.toList.isEmpty

/-- The elements that satisfy `p`. -/
def filter (p : κ → Bool) (s : SortedSet κ) : SortedSet κ :=
  ⟨s.toList.filter p, s.sorted.filter p⟩

theorem mem_def {s : SortedSet κ} {k : κ} : k ∈ s ↔ k ∈ s.toList := Iff.rfl

variable [TransOrd κ] [LawfulEqOrd κ]

/-- The set with `k` added. -/
def insert (s : SortedSet κ) (k : κ) : SortedSet κ :=
  ⟨place k s.toList, pairwise_place s.sorted⟩

/-- The elements of both sets. -/
def union (s t : SortedSet κ) : SortedSet κ := t.toList.foldl insert s

/-- The set of the members of a list, in any order and with any repetitions. -/
def ofList (l : List κ) : SortedSet κ := l.foldl insert empty

/-- The elements of `s` that are not in `t`. -/
def diff (s t : SortedSet κ) : SortedSet κ := s.filter fun k => !t.contains k

omit [TransOrd κ] in
theorem contains_iff {s : SortedSet κ} {k : κ} : s.contains k = true ↔ k ∈ s := by
  simp [contains, mem_def]

omit [TransOrd κ] [LawfulEqOrd κ] in
@[simp] theorem not_mem_empty (k : κ) : ¬ k ∈ (empty : SortedSet κ) := by
  simp [mem_def, empty]

@[simp] theorem mem_insert {s : SortedSet κ} {k a : κ} : a ∈ s.insert k ↔ a = k ∨ a ∈ s :=
  mem_place

private theorem mem_foldl_insert {l : List κ} {s : SortedSet κ} {a : κ} :
    a ∈ l.foldl insert s ↔ a ∈ s ∨ a ∈ l := by
  induction l generalizing s with
  | nil => simp
  | cons x xs ih => rw [List.foldl_cons, ih, mem_insert, List.mem_cons]; grind

@[simp] theorem mem_union {s t : SortedSet κ} {a : κ} : a ∈ s.union t ↔ a ∈ s ∨ a ∈ t :=
  mem_foldl_insert

@[simp] theorem mem_ofList {l : List κ} {a : κ} : a ∈ ofList l ↔ a ∈ l := by
  simp [ofList, mem_foldl_insert]

omit [TransOrd κ] [LawfulEqOrd κ] in
@[simp] theorem mem_filter {p : κ → Bool} {s : SortedSet κ} {a : κ} :
    a ∈ s.filter p ↔ a ∈ s ∧ p a = true := by
  simp [mem_def, filter]

omit [TransOrd κ] in
@[simp] theorem mem_diff {s t : SortedSet κ} {a : κ} : a ∈ s.diff t ↔ a ∈ s ∧ ¬ a ∈ t := by
  rw [diff, mem_filter, ← contains_iff (s := t)]
  simp

omit [LawfulEqOrd κ] in
private theorem eq_of_ascending : ∀ {l m : List κ},
    (l.Pairwise fun a b => compare a b = .lt) → (m.Pairwise fun a b => compare a b = .lt) →
    (∀ k, k ∈ l ↔ k ∈ m) → l = m
  | [], [], _, _, _ => rfl
  | [], y :: ys, _, _, h => absurd ((h y).2 (by simp)) (by simp)
  | x :: xs, [], _, _, h => absurd ((h x).1 (by simp)) (by simp)
  | x :: xs, y :: ys, hl, hm, h => by
    have irrefl : ∀ a : κ, compare a a ≠ .lt := fun a => by simp
    have hxy : x = y := by
      rcases List.mem_cons.1 ((h x).1 (by simp)) with e | hx
      · exact e
      rcases List.mem_cons.1 ((h y).2 (by simp)) with e | hy
      · exact e.symm
      exact absurd (TransCmp.lt_trans (List.rel_of_pairwise_cons hl hy)
        (List.rel_of_pairwise_cons hm hx)) (irrefl x)
    subst hxy
    congr 1
    refine eq_of_ascending hl.of_cons hm.of_cons fun k => ⟨fun hk => ?_, fun hk => ?_⟩
    · rcases List.mem_cons.1 ((h k).1 (List.mem_cons_of_mem _ hk)) with rfl | hk'
      · exact absurd (List.rel_of_pairwise_cons hl hk) (irrefl _)
      · exact hk'
    · rcases List.mem_cons.1 ((h k).2 (List.mem_cons_of_mem _ hk)) with rfl | hk'
      · exact absurd (List.rel_of_pairwise_cons hm hk) (irrefl _)
      · exact hk'

omit [LawfulEqOrd κ] in
/-- Sets with the same elements are equal. -/
theorem ext_mem {s t : SortedSet κ} (h : ∀ k, k ∈ s ↔ k ∈ t) : s = t := by
  cases s with
  | mk l hl =>
    cases t with
    | mk m hm =>
      have : l = m := eq_of_ascending hl hm h
      subst this
      rfl

end SortedSet

end ContractFuzz
