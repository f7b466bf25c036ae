/-!
# Sorted maps

A finite map kept as its entries in strictly ascending order of the keys. As with sorted sets, the
order is part of the type: maps with the same look-ups are the same value.

## Main definitions

* `SortedMap`: entry lists with strictly ascending keys.
* `SortedMap.get?`, `SortedMap.insert`, `SortedMap.ofList`: look-up and construction. A later entry
  for a key replaces an earlier one.

## Main results

* `SortedMap.get?_insert`: what a look-up finds after an insertion.
* `SortedMap.ext_get?`: maps with the same look-ups are equal.
-/

namespace ContractFuzz

open Std

/-- A finite map, as its entries in strictly ascending order of the keys. -/
structure SortedMap (κ : Type) (β : Type) [Ord κ] where
  /-- The entries, in ascending order of the keys. -/
  entries : List (κ × β)
  /-- Every key is below all later ones. -/
  sorted : entries.Pairwise fun a b => compare a.1 b.1 = .lt

namespace SortedMap

variable {κ β γ : Type} [Ord κ]

/-- Put the entry of `k` at its place among ascending entries, in place of one with that key. -/
def place (k : κ) (v : β) : List (κ × β) → List (κ × β)
  | [] => [(k, v)]
  | e :: es =>
    match compare k e.1 with
    | .lt => (k, v) :: e :: es
    | .eq => (k, v) :: es
    | .gt => e :: place k v es

/-- The value of the first entry with key `k`. -/
def find? (k : κ) : List (κ × β) → Option β
  | [] => none
  | e :: es => if compare k e.1 = .eq then some e.2 else find? k es

theorem mem_place_imp {k : κ} {v : β} {a : κ × β} {l : List (κ × β)} :
    a ∈ place k v l → a = (k, v) ∨ a ∈ l := by
  induction l with
  | nil => simp [place]
  | cons e es ih =>
    rw [place]
    split
    · simp
    · rw [List.mem_cons, List.mem_cons]; grind
    · rw [List.mem_cons, List.mem_cons]; grind

theorem pairwise_place [TransOrd κ] [LawfulEqOrd κ] {k : κ} {v : β} {l : List (κ × β)}
    (h : l.Pairwise fun a b => compare a.1 b.1 = .lt) :
    (place k v l).Pairwise fun a b => compare a.1 b.1 = .lt := by
  induction l with
  | nil => simp [place]
  | cons e es ih =>
    rw [place]
    split
    · next hk =>
      refine List.pairwise_cons.2 ⟨fun a ha => ?_, h⟩
      rcases List.mem_cons.1 ha with rfl | ha
      · exact hk
      · exact TransCmp.lt_trans hk (List.rel_of_pairwise_cons h ha)
    · next hk =>
      refine List.pairwise_cons.2 ⟨fun a ha => ?_, h.of_cons⟩
      rw [compare_eq_iff_eq.1 hk]
      exact List.rel_of_pairwise_cons h ha
    · next hk =>
      refine List.pairwise_cons.2 ⟨fun a ha => ?_, ih h.of_cons⟩
      rcases mem_place_imp ha with rfl | ha
      · exact OrientedCmp.lt_of_gt hk
      · exact List.rel_of_pairwise_cons h ha

/-- The map without entries. -/
def empty : SortedMap κ β := ⟨[], .nil⟩

instance : Inhabited (SortedMap κ β) := ⟨empty⟩

instance : EmptyCollection (SortedMap κ β) := ⟨empty⟩

/-- The value of `k`, if `k` is a key. -/
def get? (m : SortedMap κ β) (k : κ) : Option β := find? k m.entries

/-- Whether `k` is a key. -/
def contains (m : SortedMap κ β) (k : κ) : Bool := (m.get? k).isSome

/-- The keys, in ascending order. -/
def keys (m : SortedMap κ β) : List κ := m.entries.map (·.1)

/-- The values, in ascending order of their keys. -/
def values (m : SortedMap κ β) : List β := m.entries.map (·.2)

/-- Number of entries. -/
def size (m : SortedMap κ β) : Nat := m.entries.length

/-- Whether there is no entry. -/
def isEmpty (m : SortedMap κ β) : Bool := m.entries.isEmpty

variable [TransOrd κ] [LawfulEqOrd κ]

/-- The map in which `k` has the value `v`. -/
def insert (m : SortedMap κ β) (k : κ) (v : β) : SortedMap κ β :=
  ⟨place k v m.entries, pairwise_place m.sorted⟩

/-- The map of a list of entries; of several entries for a key the last one counts. -/
def ofList (l : List (κ × β)) : SortedMap κ β := l.foldl (fun m e => m.insert e.1 e.2) empty

omit [TransOrd κ] [LawfulEqOrd κ] in
@[simp] theorem get?_empty (k : κ) : (empty : SortedMap κ β).get? k = none := rfl

omit [TransOrd κ] in
private theorem find?_place [DecidableEq κ] {k a : κ} {v : β} {l : List (κ × β)} :
    find? a (place k v l) = if a = k then some v else find? a l := by
  induction l with
  | nil => simp [place, find?]
  | cons e es ih =>
    rw [place]
    split
    · next hk => simp [find?]
    · next hk =>
      have hk := compare_eq_iff_eq.1 hk
      by_cases h : a = k <;> simp [find?, h, ← hk]
    · next hk =>
      have hne : ¬ k = e.1 := fun h => by simp [h] at hk
      rw [find?, find?, ih]
      by_cases h : a = k
      · simp [h, hne]
      · simp [h]

/-- A look-up finds the inserted value at its key, and what was there before at any other. -/
theorem get?_insert [DecidableEq κ] (m : SortedMap κ β) (k a : κ) (v : β) :
    (m.insert k v).get? a = if a = k then some v else m.get? a := find?_place

omit [TransOrd κ] in
private theorem find?_eq_some_iff {k : κ} {v : β} {l : List (κ × β)}
    (h : l.Pairwise fun a b => compare a.1 b.1 = .lt) :
    find? k l = some v ↔ (k, v) ∈ l := by
  induction l with
  | nil => simp [find?]
  | cons e es ih =>
    rw [find?, List.mem_cons]
    by_cases hk : k = e.1
    · subst hk
      have : ∀ w, (e.1, w) ∉ es := fun w hw => by
        simpa using List.rel_of_pairwise_cons h hw
      cases e
      simp_all [eq_comm]
    · have : ¬ (k, v) = e := fun he => hk (by rw [← he])
      simp [hk, this, ih h.of_cons]

omit [TransOrd κ] in
/-- A look-up finds exactly the entries. -/
theorem get?_eq_some_iff {m : SortedMap κ β} {k : κ} {v : β} :
    m.get? k = some v ↔ (k, v) ∈ m.entries := find?_eq_some_iff m.sorted

omit [TransOrd κ] in
theorem mem_keys_iff {m : SortedMap κ β} {k : κ} : k ∈ m.keys ↔ m.contains k = true := by
  rw [contains, Option.isSome_iff_exists, keys, List.mem_map]
  constructor
  · rintro ⟨⟨a, v⟩, he, rfl⟩
    exact ⟨v, get?_eq_some_iff.2 he⟩
  · rintro ⟨v, hv⟩
    exact ⟨(k, v), get?_eq_some_iff.1 hv, rfl⟩

omit [LawfulEqOrd κ] in
private theorem eq_of_ascending_keys : ∀ {l m : List (κ × β)},
    (l.Pairwise fun a b => compare a.1 b.1 = .lt) →
    (m.Pairwise fun a b => compare a.1 b.1 = .lt) → (∀ e, e ∈ l ↔ e ∈ m) → l = m
  | [], [], _, _, _ => rfl
  | [], y :: ys, _, _, h => absurd ((h y).2 (by simp)) (by simp)
  | x :: xs, [], _, _, h => absurd ((h x).1 (by simp)) (by simp)
  | x :: xs, y :: ys, hl, hm, h => by
    have irrefl : ∀ a : κ × β, compare a.1 a.1 ≠ .lt := fun a => by simp
    have hxy : x = y := by
      rcases List.mem_cons.1 ((h x).1 (by simp)) with e | hx
      · exact e
      rcases List.mem_cons.1 ((h y).2 (by simp)) with e | hy
      · exact e.symm
      exact absurd (TransCmp.lt_trans (List.rel_of_pairwise_cons hl hy)
        (List.rel_of_pairwise_cons hm hx)) (irrefl x)
    subst hxy
    congr 1
    refine eq_of_ascending_keys hl.of_cons hm.of_cons fun k => ⟨fun hk => ?_, fun hk => ?_⟩
    · rcases List.mem_cons.1 ((h k).1 (List.mem_cons_of_mem _ hk)) with rfl | hk'
      · exact absurd (List.rel_of_pairwise_cons hl hk) (irrefl _)
      · exact hk'
    · rcases List.mem_cons.1 ((h k).2 (List.mem_cons_of_mem _ hk)) with rfl | hk'
      · exact absurd (List.rel_of_pairwise_cons hm hk) (irrefl _)
      · exact hk'

/-- Maps with the same look-ups are equal. -/
theorem ext_get? {m n : SortedMap κ β} (h : ∀ k, m.get? k = n.get? k) : m = n := by
  have : m.entries = n.entries := eq_of_ascending_keys m.sorted n.sorted fun (k, v) => by
    rw [← get?_eq_some_iff, ← get?_eq_some_iff, h]
  cases m; cases n
  subst this
  rfl

end SortedMap

end ContractFuzz
