import ContractFuzz.Proofs.Graph.Walk
import ContractFuzz.Proofs.Text.Case
/-!
# The entries of a distance map

A distance map has one entry for every critical instruction, under its program counter. The entry
holds the distances of all blocks to the block of the instruction.

## Main results

* `isCritical_iff` : an operation is critical if a listed one has its name up to case.
* `ControlFlowGraph.get?_distanceMap_eq_some_iff` : the entries of a distance map.
* `ControlFlowGraph.get?_hopsTo` : the distances to one block, one for each block.
-/

namespace ContractFuzz

/-! ### Names up to case -/

theorem normalizedOp_eq_iff {a b : String} :
    normalizedOp a = normalizedOp b ↔ SameUpToCase a b := by
  rw [normalizedOp, normalizedOp, ← String.toList_inj, String.toList_map, String.toList_map,
    ← List.forall₂_eq_eq_eq, List.forall₂_map_left_iff, List.forall₂_map_right_iff, SameUpToCase]
  simp only [toUpper_eq_iff]

theorem isCritical_iff {critical : List String} {op : String} :
    isCritical critical op = true ↔ ∃ name ∈ critical, SameUpToCase name op := by
  simp only [isCritical, List.contains_iff_mem, List.mem_map, normalizedOp_eq_iff]

/-! ### The entries -/

namespace ControlFlowGraph

variable {g : ControlFlowGraph} {critical : List String} {target pc b : Pc}

/-- The distances of all blocks to one block: there is one for each block, and it fits into
thirty-two bits. -/
theorem get?_hopsTo : (g.hopsTo target).get? b =
    if g.blocks.contains b then
      some (min unreachable (((search g.predecessors g.blocks.size 0 [target]
        (.insert .empty target 0)).get? b).getD unreachable))
    else none := by
  rw [hopsTo, SortedMap.get?_ofList_of_forall fun b => min unreachable
    (((search g.predecessors g.blocks.size 0 [target] (.insert .empty target 0)).get? b).getD
      unreachable)]
  · simp only [List.map_map, Function.comp_def, List.map_id', SortedMap.mem_keys_iff]
  · intro e he
    obtain ⟨k, -, rfl⟩ := List.mem_map.mp he
    rfl

theorem contains_hopsTo : (g.hopsTo target).contains b = g.blocks.contains b := by
  rw [SortedMap.contains, get?_hopsTo]
  cases g.blocks.contains b <;> rfl

theorem le_unreachable_of_get?_hopsTo {d : Nat} (h : (g.hopsTo target).get? b = some d) :
    d ≤ unreachable := by
  rw [get?_hopsTo] at h
  split at h
  · rw [← Option.some.inj h]
    exact Nat.min_le_left _ _
  · cases h

/-- The critical instructions, each with the distances to the block that holds it. -/
theorem get?_distanceMap_eq_some_iff {hops : BlockDistances} :
    (g.distanceMap critical).get? pc = some hops ↔
      ∃ op block, g.opcode? pc = some op ∧ isCritical critical op = true ∧
        g.containingBlock? pc = some block ∧ hops = g.hopsTo block := by
  have hlisted : ∀ {k op e}, (k, op) ∈ g.instructions.entries →
      (if isCritical critical op then
        (g.containingBlock? k).map fun block => (k, g.hopsTo block)
      else none) = some e → ∃ op block, g.opcode? e.1 = some op ∧ isCritical critical op = true ∧
        g.containingBlock? e.1 = some block ∧ e.2 = g.hopsTo block := by
    intro k op e hk hsome
    simp only [Option.ite_none_right_eq_some, Option.map_eq_some_iff] at hsome
    obtain ⟨hcritical, block, hblock, rfl⟩ := hsome
    exact ⟨op, block, SortedMap.get?_eq_some_iff.mpr hk, hcritical, hblock, rfl⟩
  rw [distanceMap, SortedMap.get?_ofList_of_forall fun pc =>
    g.hopsTo ((g.containingBlock? pc).getD pc)]
  · rw [Option.ite_none_right_eq_some]
    constructor
    · rintro ⟨hmem, heq⟩
      obtain ⟨e, he, rfl⟩ := List.mem_map.mp hmem
      obtain ⟨⟨k, op⟩, hk, hsome⟩ := List.mem_filterMap.mp he
      obtain ⟨op, block, hop, hcritical, hblock, -⟩ := hlisted hk hsome
      rw [hblock] at heq
      exact ⟨op, block, hop, hcritical, hblock, (Option.some.inj heq).symm⟩
    · rintro ⟨op, block, hop, hcritical, hblock, rfl⟩
      refine ⟨List.mem_map.mpr ⟨(pc, g.hopsTo block), ?_, rfl⟩, by rw [hblock]; rfl⟩
      refine List.mem_filterMap.mpr ⟨(pc, op), SortedMap.get?_eq_some_iff.mp hop, ?_⟩
      simp only [hcritical, hblock, if_true, Option.map_some]
  · intro e he
    obtain ⟨⟨k, op⟩, hk, hsome⟩ := List.mem_filterMap.mp he
    obtain ⟨-, block, -, -, hblock, heq⟩ := hlisted hk hsome
    rw [hblock, heq]
    rfl

/-- In a well-formed graph, the critical instructions are the keys of the distance map. -/
theorem contains_distanceMap_iff (hg : g.WellFormed) :
    (g.distanceMap critical).contains pc = true ↔
      ∃ op, g.opcode? pc = some op ∧ ∃ name ∈ critical, SameUpToCase name op := by
  simp only [SortedMap.contains_iff, get?_distanceMap_eq_some_iff, ← isCritical_iff]
  constructor
  · rintro ⟨hops, op, block, hop, hcritical, -, -⟩
    exact ⟨op, hop, hcritical⟩
  · rintro ⟨op, hop, hcritical⟩
    obtain ⟨block, hblock⟩ := hg.indexed hop
    exact ⟨_, op, block, hop, hcritical, hblock, rfl⟩

end ControlFlowGraph

end ContractFuzz
