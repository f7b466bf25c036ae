import ContractFuzz.Proofs.Graph.MinDistance
import ContractFuzz.Seed.Ranking
import Mathlib.Algebra.Order.BigOperators.Group.List
import Mathlib.Algebra.Order.Group.Nat
/-!
# What achievements are measured by

The executed critical instructions of a transaction are counted by their operations, and measured by
the number of targets in a distance map. The hops it gained are differences of smallest distances,
and measured by the sum of the largest distances of all blocks. Neither count exceeds its measure.

## Main definitions

* `Ranking.Normalises` : the signals of a transaction are parts of what they are measured by.

## Main results

* `ControlFlowGraph.filter_critical` : critical instructions are the targets of the distance map.
* `DistanceMap.gainedHops_delta_le` : hops gained do not exceed the sum of largest distances.
-/

namespace ContractFuzz

/-! ### Targets -/

namespace ControlFlowGraph

variable {g : ControlFlowGraph}

/-- Telling critical instructions by their operations, or by the entries of the distance map, comes
to the same. -/
theorem filter_critical (hg : g.WellFormed) (critical : List String) (executed : PcSet) :
    executed.filter (fun pc => (g.opcode? pc).any (isCritical critical)) =
      executed.filter (g.distanceMap critical).contains := by
  refine SortedSet.ext_mem fun pc => ?_
  simp only [SortedSet.mem_filter, contains_distanceMap_iff hg, ← isCritical_iff,
    Option.any_eq_true]

end ControlFlowGraph

/-! ### Sums of distances -/

namespace DistanceMap

variable {m : DistanceMap}

/-- The largest distances of blocks bound those that they were found among. -/
private theorem le_foldl_insert_max (l : List (Pc × Nat)) (far : BlockDistances) :
    let farthest := l.foldl (fun far e => far.insert e.1 (max ((far.get? e.1).getD 0) e.2)) far
    (∀ b d, far.get? b = some d → ∃ d', farthest.get? b = some d' ∧ d ≤ d') ∧
      ∀ e ∈ l, ∃ d', farthest.get? e.1 = some d' ∧ e.2 ≤ d' := by
  induction l generalizing far with
  | nil => exact ⟨fun b d h => ⟨d, h, Nat.le_refl d⟩, fun e he => absurd he List.not_mem_nil⟩
  | cons e l ih =>
    obtain ⟨hgrow, hlist⟩ := ih (far.insert e.1 (max ((far.get? e.1).getD 0) e.2))
    refine ⟨fun b d h => ?_, fun e' he' => ?_⟩
    · by_cases hb : b = e.1
      · subst hb
        obtain ⟨d', hd', hle⟩ := hgrow e.1 _ (SortedMap.get?_insert_self _ _ _)
        rw [h, Option.getD_some] at hle
        exact ⟨d', hd', Nat.le_trans (Nat.le_max_left _ _) hle⟩
      · exact hgrow b d ((SortedMap.get?_insert_of_ne hb).trans h)
    · rcases List.mem_cons.mp he' with rfl | he'
      · obtain ⟨d', hd', hle⟩ := hgrow e'.1 _ (SortedMap.get?_insert_self _ _ _)
        exact ⟨d', hd', Nat.le_trans (Nat.le_max_right _ _) hle⟩
      · exact hlist e' he'

/-- The worst finite distance is that of some block, and counts in the sum. -/
theorem worst_le_maxDistanceSum (m : DistanceMap) : m.worst ≤ m.maxDistanceSum := by
  cases hmax : (m.finite.map (·.2)).max? with
  | none => simp [worst, hmax]
  | some d =>
    obtain ⟨e, he, rfl⟩ := List.mem_map.mp (List.max?_mem hmax)
    obtain ⟨d', hd', hle⟩ := (le_foldl_insert_max m.finite .empty).2 e he
    have hmem : d' ∈ m.farthest.values := SortedMap.mem_values_iff.mpr ⟨e.1, hd'⟩
    rw [worst, hmax, Option.getD_some, maxDistanceSum, ← List.sum_eq_foldl]
    exact Nat.le_trans hle (List.le_sum_of_mem hmem)

/-- The hops gained between smallest distances do not exceed the sum of the largest ones, with or
without the mark. -/
theorem gainedHops_delta_le {before after : Nat} (h : before ≠ unreachable → before ≤ m.worst) :
    gainedHops (m.delta before after) ≤ m.maxDistanceSum := by
  refine Nat.le_trans ?_ m.worst_le_maxDistanceSum
  by_cases hafter : after = unreachable
  · simp [hafter, delta_unreachable]
  by_cases hbefore : before = unreachable
  · rw [hbefore, delta_of_unreachable hafter, gainedHops_marked]
    exact Nat.sub_le _ _
  · have hworst := h hbefore
    rw [delta_of_ne hbefore hafter, gainedHops]
    split <;> omega

end DistanceMap

/-! ### Signals -/

/-- The signals of a transaction are parts of what they are measured by. -/
structure Ranking.Normalises (r : Ranking) (tx : Transaction) : Prop where
  hits : ∃ part ≤ r.targetCount, r.hitsRatio tx = ratio part r.targetCount
  distance : ∃ part ≤ r.distanceSum, r.distanceRatio tx = ratio part r.distanceSum

end ContractFuzz
