import ContractFuzz.Proofs.Graph.MinDistance
import ContractFuzz.Proofs.Graph.ShortestWalk
/-!
# The nearest critical instruction

The smallest distance of a set of executed instructions is that of its nearest member, so that the
smallest distance of two sets together is the smaller one of both. With the distances that an
analysis finds, it is the number of edges on the shortest way from the block of an executed
instruction to the block of a critical one.

## Main definitions

* `ControlFlowGraph.HoldsCritical` : the blocks that distances lead to.
* `ControlFlowGraph.Approach` : a walk from what was executed to such a block.

## Main results

* `ControlFlowGraph.minDistance_union` : two sets of executed instructions together.
* `ControlFlowGraph.Approach.exists_isAttained`, `ControlFlowGraph.approach_of_isAttained` : walks
  and the entries of the map.
* `ControlFlowGraph.minDistance_exact` : what a smallest distance is.
-/

namespace ContractFuzz.ControlFlowGraph

open DistanceMap

/-- The block holds an instruction whose operation is listed as critical, up to case. -/
def HoldsCritical (g : ControlFlowGraph) (critical : List String) (block : Pc) : Prop :=
  ∃ pc op, g.opcode? pc = some op ∧ (∃ name ∈ critical, SameUpToCase name op) ∧
    g.containingBlock? pc = some block

/-- A walk of `n` edges leads from the block of an executed instruction to the block of a critical
one. -/
def Approach (g : ControlFlowGraph) (critical : List String) (executed : PcSet) (n : Nat) : Prop :=
  ∃ pc ∈ executed, ∃ source target, g.containingBlock? pc = some source ∧
    g.HoldsCritical critical target ∧ g.Walk n source target

variable {g : ControlFlowGraph} {m : DistanceMap} {critical : List String} {executed : PcSet}
  {n d : Nat}

/-- The nearest member of two sets is the nearer one of their nearest members. -/
theorem minDistance_union (hm : m.Bounded) (a b : PcSet) :
    g.minDistance m (a.union b) = min (g.minDistance m a) (g.minDistance m b) := by
  refine Nat.le_antisymm (Nat.le_min.mpr ⟨?_, ?_⟩) ?_
  · exact minDistance_antitone hm fun pc hpc => SortedSet.mem_union.mpr (.inl hpc)
  · exact minDistance_antitone hm fun pc hpc => SortedSet.mem_union.mpr (.inr hpc)
  by_cases hout : g.minDistance m (a.union b) = unreachable
  · rw [hout]
    exact Nat.le_trans (Nat.min_le_left _ _) (minDistance_le_unreachable hm)
  -- The nearest member of the union is a member of one of the sets.
  obtain ⟨target, hops, block, pc, hhops, hpc, hblock, hd⟩ := isAttained_minDistance hout
  rcases SortedSet.mem_union.mp hpc with ha | hb
  · exact Nat.le_trans (Nat.min_le_left _ _)
      (minDistance_le ⟨target, hops, block, pc, hhops, ha, hblock, hd⟩)
  · exact Nat.le_trans (Nat.min_le_right _ _)
      (minDistance_le ⟨target, hops, block, pc, hhops, hb, hblock, hd⟩)

/-! ### Distances of an analysis -/

/-- The distances that executed instructions have are those of their blocks to the blocks of
critical ones. -/
theorem isAttained_distanceMap_iff : IsAttained g (g.distanceMap critical) executed d ↔
    ∃ pc ∈ executed, ∃ source target, g.containingBlock? pc = some source ∧
      g.HoldsCritical critical target ∧ (g.hopsTo target).get? source = some d := by
  simp only [IsAttained, HoldsCritical, get?_distanceMap_eq_some_iff, isCritical_iff]
  constructor
  · rintro ⟨at', _, source, pc, ⟨op, target, hop, hcritical, htarget, rfl⟩, hpc, hsource, hd⟩
    exact ⟨pc, hpc, source, target, hsource, ⟨at', op, hop, hcritical, htarget⟩, hd⟩
  · rintro ⟨pc, hpc, source, target, hsource, ⟨at', op, hop, hcritical, htarget⟩, hd⟩
    exact ⟨at', _, source, pc, ⟨op, target, hop, hcritical, htarget, rfl⟩, hpc, hsource, hd⟩

section Analysis

variable (hg : g.WellFormed) (hsize : g.blocks.size < unreachable)

include hg

theorem HoldsCritical.contains {block : Pc} (h : g.HoldsCritical critical block) :
    g.blocks.contains block = true := by
  obtain ⟨_, _, -, -, hblock⟩ := h
  exact hg.held hblock

include hsize

/-- A distance within reach is that of a walk. -/
theorem approach_of_isAttained (h : IsAttained g (g.distanceMap critical) executed d)
    (hd : d ≠ unreachable) : g.Approach critical executed d := by
  obtain ⟨pc, hpc, source, target, hsource, htarget, hget⟩ := isAttained_distanceMap_iff.mp h
  have hdistance := isDistance_of_get?_hopsTo hg hsize (htarget.contains hg) hget
  exact ⟨pc, hpc, source, target, hsource, htarget, (hdistance.shortest hd).1⟩

/-- When there is a walk, an executed instruction has a distance that is not greater. -/
theorem Approach.exists_isAttained (h : g.Approach critical executed n) :
    ∃ d, IsAttained g (g.distanceMap critical) executed d ∧ d ≠ unreachable ∧ d ≤ n := by
  obtain ⟨pc, hpc, source, target, hsource, htarget, w⟩ := h
  have hentry : (g.hopsTo target).contains source = true := contains_hopsTo.trans w.source
  obtain ⟨d, hd⟩ := SortedMap.contains_iff.mp hentry
  have hdistance := isDistance_of_get?_hopsTo hg hsize (htarget.contains hg) hd
  have hne : d ≠ unreachable := fun heq => hdistance.unreachable_iff.mp heq n w
  refine ⟨d, isAttained_distanceMap_iff.mpr ?_, hne, (hdistance.shortest hne).2 n w⟩
  exact ⟨pc, hpc, source, target, hsource, htarget, hd⟩

/-- No walk is shorter than the smallest distance. -/
theorem Approach.minDistance_le (h : g.Approach critical executed n) :
    g.minDistance (g.distanceMap critical) executed ≤ n ∧
      g.minDistance (g.distanceMap critical) executed ≠ unreachable := by
  obtain ⟨d, hattained, hne, hle⟩ := h.exists_isAttained hg hsize
  have hbound := (bounded_distanceMap g critical).le_of_isAttained hattained
  have hmin := ControlFlowGraph.minDistance_le hattained
  exact ⟨by omega, by omega⟩

/-- Out of reach is what no walk leads to. -/
theorem minDistance_eq_unreachable_iff :
    g.minDistance (g.distanceMap critical) executed = unreachable ↔
      ∀ n, ¬ g.Approach critical executed n := by
  refine ⟨fun heq n h => (h.minDistance_le hg hsize).2 heq, fun hnone => ?_⟩
  by_contra hne
  exact hnone _ (approach_of_isAttained hg hsize (isAttained_minDistance hne) hne)

/-- Nothing is left to go when a critical instruction stands in a block that was executed. -/
theorem minDistance_eq_zero_iff :
    g.minDistance (g.distanceMap critical) executed = 0 ↔
      ∃ pc ∈ executed, ∃ block, g.containingBlock? pc = some block ∧
        g.HoldsCritical critical block := by
  constructor
  · intro hzero
    have hne : g.minDistance (g.distanceMap critical) executed ≠ unreachable :=
      hzero ▸ unreachable_ne_zero.symm
    have h := approach_of_isAttained hg hsize (isAttained_minDistance hne) hne
    rw [hzero] at h
    obtain ⟨pc, hpc, source, target, hsource, htarget, w⟩ := h
    obtain ⟨⟩ := w
    exact ⟨pc, hpc, source, hsource, htarget⟩
  · rintro ⟨pc, hpc, block, hblock, hcritical⟩
    have h : g.Approach critical executed 0 :=
      ⟨pc, hpc, block, block, hblock, hcritical, .nil (hcritical.contains hg)⟩
    exact Nat.le_zero.mp (h.minDistance_le hg hsize).1

end Analysis

/-- Whatever the graph and the distances of thirty-two bits are, the smallest distance of two sets
together is the smaller one of both, without executed instructions nothing is within reach, and the
smallest distance does not grow as more is executed. With the distances that are found for a list of
blocks, of which there are fewer than `unreachable`, it is the number of edges on a shortest walk
from the block of an executed instruction to the block of a critical one: zero exactly if there is
one block for both, and `unreachable` exactly if there is no walk. -/
theorem minDistance_exact :
    (∀ (g : ControlFlowGraph) (m : DistanceMap), m.Bounded → ∀ a b : PcSet,
      g.minDistance m (a.union b) = min (g.minDistance m a) (g.minDistance m b) ∧
      g.minDistance m .empty = unreachable ∧
      ((∀ pc ∈ a, pc ∈ b) → g.minDistance m b ≤ g.minDistance m a)) ∧
    ∀ (blocks : List BasicBlock) (critical : List String) (executed : PcSet),
      (ofBlocks blocks).blocks.size < unreachable →
      let g := ofBlocks blocks
      let d := g.minDistance (g.distanceMap critical) executed
      (d ≠ unreachable → g.Approach critical executed d ∧
        ∀ n, g.Approach critical executed n → d ≤ n) ∧
      (d = 0 ↔ ∃ pc ∈ executed, ∃ block, g.containingBlock? pc = some block ∧
        g.HoldsCritical critical block) ∧
      (d = unreachable ↔ ∀ n, ¬ g.Approach critical executed n) := by
  refine ⟨fun g m hm a b => ⟨minDistance_union hm a b, minDistance_empty, minDistance_antitone hm⟩,
    fun blocks critical executed hsize => ?_⟩
  have hg := wellFormed_ofBlocks blocks
  refine ⟨fun hne => ⟨?_, fun n h => ?_⟩, minDistance_eq_zero_iff hg hsize,
    minDistance_eq_unreachable_iff hg hsize⟩
  · exact approach_of_isAttained hg hsize (isAttained_minDistance hne) hne
  · exact (h.minDistance_le hg hsize).1

private theorem holdsCritical_loopedBlocks : (ofBlocks loopedBlocks).HoldsCritical ["CALL"] 10 :=
  ⟨11, "Call", by decide +kernel,
    ⟨"CALL", List.mem_singleton_self _, by simp [SameUpToCase, SameLetter]⟩, by decide +kernel⟩

private theorem not_holdsCritical_loopedBlocks :
    ¬ (ofBlocks loopedBlocks).HoldsCritical ["CALL"] 0 := by
  rintro ⟨pc, op, hop, ⟨name, hname, hsame⟩, hblock⟩
  obtain rfl := List.mem_singleton.mp hname
  -- The only operation of the first block has a longer name.
  have hlength : ∀ e ∈ (ofBlocks loopedBlocks).instructions.entries,
      (ofBlocks loopedBlocks).containingBlock? e.1 = some 0 → e.2.length = 5 := by decide +kernel
  have hfive := hlength (pc, op) (SortedMap.get?_eq_some_iff.mp hop) hblock
  exact absurd (hsame.length_eq.trans hfive) (by decide)

/-- In the looped graph the second block holds the call, the first block is one edge away from it,
and no block has an instruction 77. -/
theorem minDistance_exact_loopedBlocks :
    let g := ofBlocks loopedBlocks
    let m := g.distanceMap ["CALL"]
    m.Bounded ∧ g.blocks.size < unreachable ∧ g.minDistance m (.ofList [0, 77]) = 1 ∧
      g.minDistance m (.ofList [10]) = 0 ∧
      g.minDistance m (SortedSet.union (.ofList [0, 77]) (.ofList [10])) = min 1 0 := by
  intro g m
  have hsize : g.blocks.size < unreachable := by decide +kernel
  have hm : m.Bounded := bounded_distanceMap g ["CALL"]
  obtain ⟨laws, nearest⟩ := minDistance_exact
  obtain ⟨union, -, -⟩ := laws g m hm (.ofList [0, 77]) (.ofList [10])
  obtain ⟨-, inside, -⟩ := nearest loopedBlocks ["CALL"] (.ofList [10]) hsize
  obtain ⟨within, outside, reached⟩ := nearest loopedBlocks ["CALL"] (.ofList [0, 77]) hsize
  have hsecond : g.minDistance m (.ofList [10]) = 0 :=
    inside.mpr ⟨10, by simp, 10, by decide +kernel, holdsCritical_loopedBlocks⟩
  have hwalk : g.Approach ["CALL"] (.ofList [0, 77]) 1 :=
    ⟨0, by simp, 0, 10, by decide +kernel, holdsCritical_loopedBlocks,
      .cons ⟨_, rfl, by decide, by decide +kernel⟩ (.nil (by decide +kernel))⟩
  have hle : g.minDistance m (.ofList [0, 77]) ≤ 1 :=
    (within fun hout => reached.mp hout 1 hwalk).2 1 hwalk
  have hne : g.minDistance m (.ofList [0, 77]) ≠ 0 := by
    intro hzero
    obtain ⟨pc, hpc, block, hblock, hholds⟩ := outside.mp hzero
    have hfirst : ∀ pc ∈ [0, 77], g.containingBlock? pc = some block → block = 0 := by
      have hblocks : [0, 77].map g.containingBlock? = [some 0, none] := by decide +kernel
      simp_all
    obtain rfl := hfirst pc (SortedSet.mem_ofList.mp hpc) hblock
    exact not_holdsCritical_loopedBlocks hholds
  have hfirst : g.minDistance m (.ofList [0, 77]) = 1 := by omega
  exact ⟨hm, hsize, hfirst, hsecond, hfirst ▸ hsecond ▸ union⟩

end ContractFuzz.ControlFlowGraph
