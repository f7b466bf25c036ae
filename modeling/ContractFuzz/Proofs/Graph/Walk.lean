import ContractFuzz.Graph.Distance
import ContractFuzz.Proofs.Graph.Index
import ContractFuzz.Proofs.Lookup
/-!
# Walks through a control flow graph

The relation that distances are about: walks along the edges between blocks. The graph's own
reversed edges are exactly the edges of this relation, turned around.

## Main definitions

* `ControlFlowGraph.Edge`, `ControlFlowGraph.Walk` : edges between blocks, and walks of a length.
* `ControlFlowGraph.IsShortest`, `ControlFlowGraph.IsDistance` : shortest walks and distances.
* `ControlFlowGraph.WellFormed` : what the indexes of a graph have to agree on.

## Main results

* `ControlFlowGraph.wellFormed_ofBlocks` : graphs that are built from blocks are well-formed.
* `ControlFlowGraph.mem_predecessors_iff` : the reversed edges.
-/

namespace ContractFuzz.ControlFlowGraph

/-- Control may go on from block `a` to block `b` of the graph. -/
def Edge (g : ControlFlowGraph) (a b : Pc) : Prop :=
  ∃ block, g.blocks.get? a = some block ∧ b ∈ block.successors ∧ g.blocks.contains b = true

/-- A walk of `n` edges from a block to another one, through blocks of the graph. -/
inductive Walk (g : ControlFlowGraph) : Nat → Pc → Pc → Prop
  | nil {a : Pc} (h : g.blocks.contains a = true) : Walk g 0 a a
  | cons {n : Nat} {a b c : Pc} (e : g.Edge a b) (w : Walk g n b c) : Walk g (n + 1) a c

/-- There is a walk of `n` edges, and none with fewer. -/
def IsShortest (g : ControlFlowGraph) (n : Nat) (a b : Pc) : Prop :=
  g.Walk n a b ∧ ∀ m, g.Walk m a b → n ≤ m

/-- The number `d` is the distance from block `a` to block `b`: the length of a shortest walk, and
`unreachable` exactly if there is no walk. -/
structure IsDistance (g : ControlFlowGraph) (a b : Pc) (d : Nat) : Prop where
  shortest : d ≠ unreachable → g.IsShortest d a b
  unreachable_iff : d = unreachable ↔ ∀ n, ¬ g.Walk n a b

/-- The indexes of a graph agree with each other: blocks are kept under their names, and every
instruction is held by a block of the graph. -/
structure WellFormed (g : ControlFlowGraph) : Prop where
  named : ∀ {a block}, g.blocks.get? a = some block → block.pc = a
  indexed : ∀ {pc op}, g.instructions.get? pc = some op → ∃ b, g.blockOf.get? pc = some b
  held : ∀ {pc b}, g.blockOf.get? pc = some b → g.blocks.contains b = true

variable {g : ControlFlowGraph}

theorem Edge.source {a b : Pc} (e : g.Edge a b) : g.blocks.contains a = true := by
  obtain ⟨block, hblock, -, -⟩ := e
  exact SortedMap.contains_iff.mpr ⟨block, hblock⟩

theorem Walk.source {n : Nat} {a b : Pc} (w : g.Walk n a b) : g.blocks.contains a = true := by
  cases w with
  | nil h => exact h
  | cons e w => exact e.source

/-! ### Graphs that are built from blocks -/

theorem wellFormed_ofBlocks (blocks : List BasicBlock) : (ofBlocks blocks).WellFormed where
  named h := (block?_ofBlocks_eq_some_iff.mp h).property
  indexed h := by
    obtain ⟨b, hb, -⟩ := opcode?_ofBlocks_eq_some_iff.mp h
    obtain ⟨c, hc⟩ := IsLast.exists_of_mem (p := BasicBlock.Claims _) hb.mem (.inl hb.property)
    exact ⟨c.pc, containingBlock?_ofBlocks_eq_some_iff.mpr ⟨c, hc, rfl⟩⟩
  held h := by
    obtain ⟨b, hb, rfl⟩ := containingBlock?_ofBlocks_eq_some_iff.mp h
    obtain ⟨c, hc⟩ := IsLast.exists_of_mem (p := fun c => c.pc = b.pc) hb.mem rfl
    exact SortedMap.contains_iff.mpr ⟨c, block?_ofBlocks_eq_some_iff.mpr hc⟩

theorem size_blocks_addBlock_le (g : ControlFlowGraph) (b : BasicBlock) :
    (g.addBlock b).blocks.size ≤ g.blocks.size + 1 := by
  rw [blocks_addBlock]
  exact SortedMap.size_insert_le _ _ _

/-- A list of blocks yields at most as many blocks, fewer if some have the same name. -/
theorem size_blocks_ofBlocks_le (blocks : List BasicBlock) :
    (ofBlocks blocks).blocks.size ≤ blocks.length := by
  suffices h : ∀ g : ControlFlowGraph,
      (blocks.foldl addBlock g).blocks.size ≤ g.blocks.size + blocks.length by
    simpa [ofBlocks, empty, SortedMap.size, SortedMap.empty] using h empty
  induction blocks with
  | nil => exact fun g => Nat.le_refl _
  | cons b rest ih =>
    intro g
    have hrest := ih (g.addBlock b)
    have hb := size_blocks_addBlock_le g b
    rw [List.foldl_cons, List.length_cons]
    omega

/-! ### Reversed edges -/

theorem mem_edges_iff (hg : g.WellFormed) {a b : Pc} : (a, b) ∈ g.edges ↔ g.Edge a b := by
  simp only [edges, List.mem_flatMap, List.mem_map, List.mem_filter, Prod.mk.injEq]
  constructor
  · rintro ⟨block, hblock, s, ⟨hs, hin⟩, rfl, rfl⟩
    obtain ⟨k, hk⟩ := SortedMap.mem_values_iff.mp hblock
    exact ⟨block, by rw [hg.named hk, hk], hs, hin⟩
  · rintro ⟨block, hblock, hs, hin⟩
    exact ⟨block, SortedMap.mem_values_iff.mpr ⟨a, hblock⟩, b, ⟨hs, hin⟩, hg.named hblock, rfl⟩

/-- The blocks in front of `b` among reversed edges. -/
def before (predecessors : SortedMap Pc PcSet) (b : Pc) : PcSet :=
  (predecessors.get? b).getD .empty

private theorem mem_before_foldl (l : List (Pc × Pc)) (m : SortedMap Pc PcSet) (a b : Pc) :
    a ∈ before (l.foldl
        (fun m e => m.insert e.2 (((m.get? e.2).getD .empty).insert e.1)) m) b ↔
      a ∈ before m b ∨ (a, b) ∈ l := by
  induction l generalizing m with
  | nil => simp
  | cons e rest ih =>
    rw [List.foldl_cons, ih, before, SortedMap.get?_insert, List.mem_cons]
    by_cases hb : b = e.2
    · subst hb
      simp only [if_true, Option.getD_some, SortedSet.mem_insert, before, Prod.ext_iff, and_true]
      rw [or_comm (a := a = e.1), or_assoc]
    · have hne : ¬ (a, b) = e := fun h => hb (by rw [← h])
      simp only [if_neg hb, hne, false_or, before]

/-- The blocks from which an edge leads to `b`. -/
theorem mem_predecessors_iff (hg : g.WellFormed) {a b : Pc} :
    a ∈ before g.predecessors b ↔ g.Edge a b := by
  rw [predecessors, mem_before_foldl, ← mem_edges_iff hg]
  simp [before]

end ContractFuzz.ControlFlowGraph
