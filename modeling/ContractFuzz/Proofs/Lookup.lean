import ContractFuzz.Sorted.Map
import ContractFuzz.Sorted.Set
import Mathlib.Data.List.Perm.Subperm
/-!
# Look-ups in sorted maps

Sorted maps are seen through their look-ups. Here are the look-ups of a map that is built from a
list of entries, and what look-ups say about the number of entries.

## Main results

* `SortedMap.get?_ofList_of_forall` : a list whose values are determined by their keys.
* `SortedMap.size_insert_of_get?_eq_none`, `SortedMap.size_le_size` : sizes by look-ups.
* `SortedSet.size_eq_size_iff` : when a set of keys is the set of all keys.
-/

namespace ContractFuzz

open Std

namespace SortedMap

variable {κ β γ : Type} [Ord κ]

section Entries

variable [LawfulEqOrd κ]

theorem mem_values_iff {m : SortedMap κ β} {v : β} : v ∈ m.values ↔ ∃ k, m.get? k = some v := by
  constructor
  · intro hv
    obtain ⟨⟨k, w⟩, he, rfl⟩ := List.mem_map.mp hv
    exact ⟨k, get?_eq_some_iff.mpr he⟩
  · rintro ⟨k, hk⟩
    exact List.mem_map.mpr ⟨(k, v), get?_eq_some_iff.mp hk, rfl⟩

omit [LawfulEqOrd κ] in
theorem contains_iff {m : SortedMap κ β} {k : κ} :
    m.contains k = true ↔ ∃ v, m.get? k = some v := by
  rw [contains, Option.isSome_iff_exists]

theorem nodup_keys (m : SortedMap κ β) : m.keys.Nodup := by
  refine List.pairwise_map.mpr (m.sorted.imp fun {a b} h heq => ?_)
  rw [heq, compare_self] at h
  exact absurd h (by decide)

/-- A map whose keys are keys of another has at most as many entries. -/
theorem size_le_size {m : SortedMap κ β} {n : SortedMap κ γ}
    (h : ∀ k, m.contains k = true → n.contains k = true) : m.size ≤ n.size := by
  have hsub : m.keys ⊆ n.keys := fun k hk => mem_keys_iff.mpr (h k (mem_keys_iff.mp hk))
  have hle := List.Nodup.length_le_of_subset m.nodup_keys hsub
  rwa [keys, keys, List.length_map, List.length_map] at hle

end Entries

variable [TransOrd κ] [LawfulEqOrd κ]

section Size

omit [TransOrd κ] [LawfulEqOrd κ] in
private theorem length_place {k : κ} {v : β} {l : List (κ × β)} (h : find? k l = none) :
    (place k v l).length = l.length + 1 := by
  induction l with
  | nil => rfl
  | cons e es ih =>
    rw [find?] at h
    split at h
    · exact absurd h (by simp)
    · rw [place]
      split
      · rfl
      · contradiction
      · rw [List.length_cons, ih h, List.length_cons]

/-- A new key adds one entry. -/
theorem size_insert_of_get?_eq_none {m : SortedMap κ β} {k : κ} (v : β) (h : m.get? k = none) :
    (m.insert k v).size = m.size + 1 :=
  length_place h

/-- An insertion adds one entry at most. -/
theorem size_insert_le (m : SortedMap κ β) (k : κ) (v : β) : (m.insert k v).size ≤ m.size + 1 := by
  have hplace : ∀ l : List (κ × β), (place k v l).length ≤ l.length + 1 := by
    intro l
    induction l with
    | nil => exact Nat.le_refl _
    | cons e es ih =>
      rw [place]
      split <;> simp only [List.length_cons] <;> omega
  exact hplace m.entries

end Size

variable [DecidableEq κ]

@[simp] theorem get?_insert_self (m : SortedMap κ β) (k : κ) (v : β) :
    (m.insert k v).get? k = some v := by
  rw [get?_insert, if_pos rfl]

theorem get?_insert_of_ne {m : SortedMap κ β} {k a : κ} {v : β} (h : a ≠ k) :
    (m.insert k v).get? a = m.get? a := by
  rw [get?_insert, if_neg h]

/-- What is stored after an insertion is the new value, or was stored under another key. -/
theorem get?_insert_eq_some_iff {m : SortedMap κ β} {k a : κ} {v b : β} :
    (m.insert k v).get? a = some b ↔ a = k ∧ b = v ∨ a ≠ k ∧ m.get? a = some b := by
  rw [get?_insert]
  split
  · next h => simp [h, eq_comm]
  · next h => simp [h]

/-- Insertions of entries whose values are determined by their keys. -/
theorem get?_foldl_insert (f : κ → β) {l : List (κ × β)} (hl : ∀ e ∈ l, e.2 = f e.1)
    (m : SortedMap κ β) (k : κ) :
    (l.foldl (fun m e => m.insert e.1 e.2) m).get? k =
      if k ∈ l.map (·.1) then some (f k) else m.get? k := by
  induction l generalizing m with
  | nil => simp
  | cons e es ih =>
    rw [List.foldl_cons, ih (fun e' he' => hl e' (List.mem_cons_of_mem _ he')), get?_insert,
      List.map_cons]
    have he : e.2 = f e.1 := hl e List.mem_cons_self
    by_cases hmem : k ∈ es.map (·.1)
    · simp [hmem]
    · by_cases hk : k = e.1
      · subst hk
        simp [he]
      · simp [hmem, hk]

/-- In a map built from entries whose values are determined by their keys, the keys are those of
the entries. -/
theorem get?_ofList_of_forall (f : κ → β) {l : List (κ × β)} (hl : ∀ e ∈ l, e.2 = f e.1) (k : κ) :
    (ofList l).get? k = if k ∈ l.map (·.1) then some (f k) else none :=
  get?_foldl_insert f hl empty k

end SortedMap

namespace SortedSet

variable {κ : Type} [Ord κ]

theorem nodup_toList [LawfulEqOrd κ] (s : SortedSet κ) : s.toList.Nodup := by
  refine s.sorted.imp fun {a b} h heq => ?_
  rw [heq, compare_self] at h
  exact absurd h (by decide)

/-- A set of keys of a map has at most as many members as the map has keys. -/
theorem size_le_size {β : Type} [LawfulEqOrd κ] {s : SortedSet κ} {m : SortedMap κ β}
    (h : ∀ k ∈ s, m.contains k = true) : s.size ≤ m.size := by
  have hsub : s.toList ⊆ m.keys := fun k hk => SortedMap.mem_keys_iff.mpr (h k hk)
  have hle := List.Nodup.length_le_of_subset s.nodup_toList hsub
  rwa [SortedMap.keys, List.length_map] at hle

/-- A set of keys of a map has as many members as the map has keys if it has all of them. -/
theorem size_eq_size_iff {β : Type} [LawfulEqOrd κ] {s : SortedSet κ} {m : SortedMap κ β}
    (h : ∀ k ∈ s, m.contains k = true) :
    m.size = s.size ↔ ∀ k, m.contains k = true → k ∈ s := by
  have hsize : m.size = m.keys.length := (List.length_map _).symm
  have hsub : s.toList ⊆ m.keys := fun k hk => SortedMap.mem_keys_iff.mpr (h k hk)
  have hsubperm := List.subperm_of_subset s.nodup_toList hsub
  rw [hsize, size]
  constructor
  · intro hlength k hk
    have hperm := hsubperm.perm_of_length_le (Nat.le_of_eq hlength)
    exact hperm.mem_iff.mpr (SortedMap.mem_keys_iff.mpr hk)
  · intro hall
    have hrev : m.keys ⊆ s.toList := fun k hk => hall k (SortedMap.mem_keys_iff.mp hk)
    exact (List.subperm_of_subset m.nodup_keys hrev |>.antisymm hsubperm).length_eq

end SortedSet

end ContractFuzz
