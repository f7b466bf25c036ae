import Mathlib.Tactic.ByContra
import ContractFuzz.Proofs.Graph.Critical
/-!
# Distances are lengths of shortest walks

The search goes back from a block in rounds. After round `d` it has found exactly the blocks from
which a walk of at most `d` edges leads to the target, each with the length of a shortest one, and
its last findings are those at distance `d`. Every round finds something new or ends the search, so
as many rounds as there are blocks are enough.

## Main definitions

* `ControlFlowGraph.Layered` : what holds between two rounds.

## Main results

* `ControlFlowGraph.layered_round` : a round keeps it.
* `ControlFlowGraph.search_settled` : the whole search finds shortest walks, and all of them.
* `ControlFlowGraph.isDistance_of_get?_hopsTo` : the distances to one block.
* `ControlFlowGraph.distanceMap_ofBlocks` : the distances to all critical instructions.
-/

namespace ContractFuzz.ControlFlowGraph

variable {g : ControlFlowGraph} {target : Pc} {d : Nat} {last : List Pc} {found : BlockDistances}

/-- What the search knows after round `d`. -/
structure Layered (g : ControlFlowGraph) (target : Pc) (d : Nat) (last : List Pc)
    (found : BlockDistances) : Prop where
  sound : ∀ {b n}, found.get? b = some n → g.Walk n b target ∧ n ≤ d
  complete : ∀ {b n}, n ≤ d → g.Walk n b target → ∃ m, m ≤ n ∧ found.get? b = some m
  mem_last : ∀ {b}, b ∈ last ↔ found.get? b = some d
  size : d < found.size

/-- What the search knows when it ends: the shortest walks of all blocks that have one. -/
structure Settled (g : ControlFlowGraph) (target : Pc) (found : BlockDistances) : Prop where
  shortest : ∀ {b n}, found.get? b = some n → g.IsShortest n b target ∧ n < g.blocks.size
  complete : ∀ {b n}, g.Walk n b target → ∃ m, found.get? b = some m

/-! ### One round -/

/-- Discovering a list of blocks: those without a distance get one, and are remembered. -/
theorem foldl_discover (distance : Nat) (before : List Pc) (found : BlockDistances)
    (next : List Pc) :
    let result := before.foldl (discover distance) (found, next)
    (∀ b, result.1.get? b = match found.get? b with
      | some n => some n
      | none => if b ∈ before then some distance else none) ∧
    (∀ b, b ∈ result.2 ↔ b ∈ next ∨ found.get? b = none ∧ b ∈ before) ∧
    result.1.size + next.length = found.size + result.2.length := by
  induction before generalizing found next with
  | nil =>
    refine ⟨fun b => ?_, fun b => by simp, rfl⟩
    cases h : found.get? b <;> simp [h]
  | cons x rest ih =>
    rw [List.foldl_cons]
    cases hx : found.get? x with
    | some n =>
      have hstep : discover distance (found, next) x = (found, next) := by
        simp [discover, SortedMap.contains, hx]
      rw [hstep]
      obtain ⟨hget, hmem, hsize⟩ := ih found next
      refine ⟨fun b => ?_, fun b => ?_, hsize⟩
      · rw [hget b]
        cases hb : found.get? b with
        | some _ => rfl
        | none =>
          have hne : b ≠ x := fun h => by rw [h, hx] at hb; cases hb
          simp [hne]
      · rw [hmem b, List.mem_cons]
        constructor
        · rintro (h | ⟨hb, h⟩)
          · exact .inl h
          · exact .inr ⟨hb, .inr h⟩
        · rintro (h | ⟨hb, rfl | h⟩)
          · exact .inl h
          · rw [hx] at hb
            cases hb
          · exact .inr ⟨hb, h⟩
    | none =>
      have hstep : discover distance (found, next) x = (found.insert x distance, next ++ [x]) := by
        simp [discover, SortedMap.contains, hx]
      rw [hstep]
      obtain ⟨hget, hmem, hsize⟩ := ih (found.insert x distance) (next ++ [x])
      refine ⟨fun b => ?_, fun b => ?_, ?_⟩
      · rw [hget b, SortedMap.get?_insert]
        by_cases hb : b = x
        · subst hb
          simp [hx]
        · simp [hb]
      · rw [hmem b, SortedMap.get?_insert, List.mem_append, List.mem_cons]
        by_cases hb : b = x
        · subst hb
          simp [hx]
        · simp [hb]
      · rw [SortedMap.size_insert_of_get?_eq_none distance hx, List.length_append] at hsize
        simp only [List.length_cons, List.length_nil] at hsize
        omega

/-- The blocks in front of the last findings, in the order in which a round meets them. -/
def inFront (predecessors : SortedMap Pc PcSet) (last : List Pc) : List Pc :=
  last.flatMap fun b => (before predecessors b).toList

theorem mem_inFront_iff (hg : g.WellFormed) {a : Pc} :
    a ∈ inFront g.predecessors last ↔ ∃ b ∈ last, g.Edge a b := by
  simp only [inFront, List.mem_flatMap, ← SortedSet.mem_def, mem_predecessors_iff hg]

/-- A block with a short enough walk was found before, or a round meets it. -/
theorem found_or_inFront (hg : g.WellFormed) (h : Layered g target d last found) {b : Pc} {n : Nat}
    (hn : n ≤ d + 1) (w : g.Walk n b target) :
    (∃ m, m ≤ n ∧ found.get? b = some m) ∨
      found.get? b = none ∧ n = d + 1 ∧ b ∈ inFront g.predecessors last := by
  cases hfound : found.get? b with
  | some m =>
    refine .inl ?_
    -- a shorter walk than `n` may have been found before
    by_cases hle : n ≤ d
    · exact hfound ▸ h.complete hle w
    · exact ⟨m, by have := (h.sound hfound).2; omega, rfl⟩
  | none =>
    have far {k : Nat} (w : g.Walk k b target) : d < k := by
      by_contra hle
      obtain ⟨m, -, hm⟩ := h.complete (Nat.le_of_not_lt hle) w
      rw [hfound] at hm
      cases hm
    obtain rfl : n = d + 1 := by
      have := far w
      omega
    refine .inr ⟨rfl, rfl, (mem_inFront_iff hg).mpr ?_⟩
    cases w with
    | @cons _ _ c _ e w =>
      obtain ⟨m, hm, hc⟩ := h.complete (Nat.le_refl d) w
      -- were `c` found earlier, then so would `b` have been
      obtain rfl : m = d := by
        have := far (.cons e (h.sound hc).1)
        omega
      exact ⟨c, h.mem_last.mpr hc, e⟩

/-- A round finds the blocks at the next distance. -/
theorem layered_round (hg : g.WellFormed) (h : Layered g target d last found) :
    let result := (inFront g.predecessors last).foldl (discover (d + 1)) (found, [])
    (result.2 ≠ [] → Layered g target (d + 1) result.2 result.1) ∧
      (result.2 = [] → ∀ b, result.1.get? b = found.get? b) ∧
      result.1.size = found.size + result.2.length := by
  obtain ⟨hget, hmem, hsize⟩ := foldl_discover (d + 1) (inFront g.predecessors last) found []
  simp only [List.length_nil, Nat.add_zero, List.not_mem_nil, false_or] at hmem hsize
  refine ⟨fun hnext => ⟨fun {b n} hb => ?_, fun {b n} hn w => ?_, fun {b} => ?_, ?_⟩,
    fun hnext b => ?_, hsize⟩
  · rw [hget b] at hb
    cases hfound : found.get? b with
    | some m =>
      rw [hfound] at hb
      obtain ⟨w, hm⟩ := h.sound hfound
      cases hb
      exact ⟨w, by omega⟩
    | none =>
      simp only [hfound, Option.ite_none_right_eq_some, Option.some.injEq] at hb
      obtain ⟨hb, rfl⟩ := hb
      obtain ⟨c, hc, e⟩ := (mem_inFront_iff hg).mp hb
      exact ⟨.cons e (h.sound (h.mem_last.mp hc)).1, by omega⟩
  · rw [hget b]
    obtain ⟨m, hm, hfound⟩ | ⟨hfound, rfl, hin⟩ := found_or_inFront hg h hn w
    · exact ⟨m, hm, by rw [hfound]⟩
    · exact ⟨d + 1, Nat.le_refl _, by rw [hfound]; exact if_pos hin⟩
  · rw [hmem b, hget b]
    cases hfound : found.get? b with
    | some m =>
      have hm := (h.sound hfound).2
      simp only [reduceCtorEq, false_and, Option.some.injEq, false_iff]
      omega
    | none => simp
  · have hpos := List.length_pos_iff.mpr hnext
    have hd := h.size
    omega
  · rw [hget b]
    cases hfound : found.get? b with
    | some m => rfl
    | none =>
      have hb : ¬ (found.get? b = none ∧ b ∈ inFront g.predecessors last) := fun hb => by
        have := (hmem b).mpr hb
        rw [hnext] at this
        cases this
      exact if_neg fun hin => hb ⟨hfound, hin⟩

/-! ### The whole search -/

theorem Layered.isShortest (h : Layered g target d last found) {b : Pc} {n : Nat}
    (hb : found.get? b = some n) : g.IsShortest n b target := by
  obtain ⟨w, hn⟩ := h.sound hb
  refine ⟨w, fun m w' => ?_⟩
  by_contra hlt
  obtain ⟨k, hk, hfound⟩ := h.complete (show m ≤ d by omega) w'
  rw [hb] at hfound
  cases hfound
  omega

/-- Only blocks of the graph are found. -/
theorem Layered.size_le (h : Layered g target d last found) : found.size ≤ g.blocks.size := by
  refine SortedMap.size_le_size fun b hb => ?_
  obtain ⟨n, hn⟩ := SortedMap.contains_iff.mp hb
  exact (h.sound hn).1.source

/-- When a round finds nothing new, no block with a walk is missing. -/
theorem Layered.settled (hg : g.WellFormed) (h : Layered g target d last found)
    (hend : ∀ b, b ∈ inFront g.predecessors last → ∃ m, found.get? b = some m) :
    Settled g target found where
  shortest {b n} hb := by
    have hle := h.size_le
    have hsize := h.size
    have hn := (h.sound hb).2
    exact ⟨h.isShortest hb, by omega⟩
  complete {b n} w := by
    induction n generalizing b with
    | zero =>
      obtain ⟨m, -, hm⟩ := h.complete (Nat.zero_le d) w
      exact ⟨m, hm⟩
    | succ n ih =>
      cases w with
      | @cons _ _ c _ e w =>
        obtain ⟨m, hc⟩ := ih w
        obtain ⟨wc, hm⟩ := h.sound hc
        by_cases hmd : m = d
        · subst hmd
          exact hend b ((mem_inFront_iff hg).mpr ⟨c, h.mem_last.mpr hc, e⟩)
        · obtain ⟨k, -, hk⟩ := h.complete (show m + 1 ≤ d by omega) (.cons e wc)
          exact ⟨k, hk⟩

/-- As many rounds as blocks are enough. -/
theorem search_settled (hg : g.WellFormed) (rounds : Nat) (h : Layered g target d last found)
    (hrounds : g.blocks.size < rounds + found.size) :
    Settled g target (search g.predecessors rounds d last found) := by
  induction rounds generalizing d last found with
  | zero =>
    have hle := h.size_le
    omega
  | succ rounds ih =>
    obtain ⟨hlayered, hsame, hsize⟩ := layered_round hg h
    change Settled g target
      (let result := (inFront g.predecessors last).foldl (discover (d + 1)) (found, [])
       if result.2.isEmpty then result.1
       else search g.predecessors rounds (d + 1) result.2 result.1)
    obtain ⟨hget, hmem, -⟩ := foldl_discover (d + 1) (inFront g.predecessors last) found []
    generalize (inFront g.predecessors last).foldl (discover (d + 1)) (found, []) = result at *
    obtain ⟨found', next⟩ := result
    simp only at hlayered hsame hsize hget hmem ⊢
    by_cases hnext : next = []
    · subst hnext
      simp only [List.isEmpty_nil, if_true]
      have heq : found' = found := SortedMap.ext_get? (hsame rfl)
      rw [heq]
      refine h.settled hg fun b hb => ?_
      cases hfound : found.get? b with
      | some m => exact ⟨m, rfl⟩
      | none => simpa using (hmem b).mpr (.inr ⟨hfound, hb⟩)
    · rw [if_neg (by simpa using hnext)]
      have hpos := List.length_pos_iff.mpr hnext
      exact ih (hlayered hnext) (by omega)

theorem layered_start (ht : g.blocks.contains target = true) :
    Layered g target 0 [target] (SortedMap.insert .empty target 0) where
  sound {b n} hb := by
    rw [SortedMap.get?_insert] at hb
    split at hb
    · next h =>
      cases hb
      rw [h]
      exact ⟨.nil ht, Nat.le_refl _⟩
    · simp at hb
  complete {b n} hn w := by
    obtain rfl : n = 0 := by omega
    cases w with
    | nil => exact ⟨0, Nat.le_refl _, SortedMap.get?_insert_self _ _ _⟩
  mem_last {b} := by
    rw [List.mem_singleton, SortedMap.get?_insert]
    by_cases h : b = target <;> simp [h]
  size := by
    rw [SortedMap.size_insert_of_get?_eq_none 0 (SortedMap.get?_empty target)]
    exact Nat.succ_pos _

/-! ### Distances -/

/-- In a graph with fewer than `unreachable` blocks, the distances to a block are those of shortest
walks. -/
theorem isDistance_of_get?_hopsTo (hg : g.WellFormed) (hsize : g.blocks.size < unreachable)
    (ht : g.blocks.contains target = true) {b : Pc} {d : Nat}
    (h : (g.hopsTo target).get? b = some d) : g.IsDistance b target d := by
  have hstart := layered_start ht
  have hsettled := search_settled hg g.blocks.size hstart
    (by have := hstart.size; omega)
  rw [get?_hopsTo, Option.ite_none_right_eq_some] at h
  obtain ⟨-, h⟩ := h
  cases hfound : (search g.predecessors g.blocks.size 0 [target]
      (SortedMap.insert .empty target 0)).get? b with
  | some n =>
    rw [hfound] at h
    obtain ⟨hshortest, hn⟩ := hsettled.shortest hfound
    have hd : d = n := by
      rw [← Option.some.inj h]
      exact Nat.min_eq_right (Nat.le_of_lt (Nat.lt_trans hn hsize))
    subst hd
    refine ⟨fun _ => hshortest, fun hd => ?_, fun hnone => absurd hshortest.1 (hnone d)⟩
    omega
  | none =>
    rw [hfound] at h
    have hd : d = unreachable := (Option.some.inj h).symm
    refine ⟨fun hne => absurd hd hne, fun _ n w => ?_, fun _ => hd⟩
    obtain ⟨m, hm⟩ := hsettled.complete w
    rw [hfound] at hm
    cases hm

/-- The distance map of a list of blocks. Its keys are the instructions that a critical operation
names up to case. Its entry for such an instruction has exactly the blocks of the graph as keys, and
gives each of them its distance to the block that holds the instruction. -/
theorem distanceMap_ofBlocks (blocks : List BasicBlock) (critical : List String)
    (hsize : blocks.length < unreachable) :
    (∀ pc, ((ofBlocks blocks).distanceMap critical).contains pc = true ↔
      ∃ op, (ofBlocks blocks).opcode? pc = some op ∧ ∃ name ∈ critical, SameUpToCase name op) ∧
    ∀ pc hops, ((ofBlocks blocks).distanceMap critical).get? pc = some hops →
      ∃ target, (ofBlocks blocks).containingBlock? pc = some target ∧
        (∀ b, hops.contains b = (ofBlocks blocks).blocks.contains b) ∧
        ∀ b d, hops.get? b = some d → (ofBlocks blocks).IsDistance b target d := by
  have hg := wellFormed_ofBlocks blocks
  refine ⟨fun pc => contains_distanceMap_iff hg, fun pc hops h => ?_⟩
  obtain ⟨op, target, -, -, htarget, rfl⟩ := get?_distanceMap_eq_some_iff.mp h
  have hle := size_blocks_ofBlocks_le blocks
  refine ⟨target, htarget, fun b => contains_hopsTo, fun b d hd => ?_⟩
  exact isDistance_of_get?_hopsTo hg (by omega) (hg.held htarget) hd

/-- Three blocks. The first two form a loop; the first is also its own successor, has a successor
twice and one that leads out of the graph. The last one leads nowhere. -/
def loopedBlocks : List BasicBlock :=
  [⟨0, .ofList [(0, "JUMPI")], [0, 10, 10, 99]⟩,
    ⟨10, .ofList [(10, "JUMPDEST"), (11, "Call")], [0]⟩, ⟨20, .ofList [(20, "STOP")], []⟩]

theorem distanceMap_loopedBlocks :
    loopedBlocks.length < unreachable ∧
    ∃ hops, ((ofBlocks loopedBlocks).distanceMap ["CALL"]).get? 11 = some hops ∧
      hops.get? 0 = some 1 ∧ (ofBlocks loopedBlocks).IsDistance 0 10 1 ∧
      hops.get? 20 = some unreachable ∧ (ofBlocks loopedBlocks).IsDistance 20 10 unreachable := by
  have hsize : loopedBlocks.length < unreachable := by decide
  have hblock : (ofBlocks loopedBlocks).containingBlock? 11 = some 10 := by decide +kernel
  have hcritical : isCritical ["CALL"] "Call" = true :=
    isCritical_iff.mpr ⟨"CALL", by simp, by simp [SameUpToCase, SameLetter]⟩
  have hentry : ((ofBlocks loopedBlocks).distanceMap ["CALL"]).get? 11 =
      some ((ofBlocks loopedBlocks).hopsTo 10) :=
    get?_distanceMap_eq_some_iff.mpr ⟨"Call", 10, by decide +kernel, hcritical, hblock, rfl⟩
  obtain ⟨target, htarget, -, hdistance⟩ :=
    (distanceMap_ofBlocks loopedBlocks ["CALL"] hsize).2 11 _ hentry
  obtain rfl : 10 = target := Option.some.inj (hblock.symm.trans htarget)
  have hfirst : ((ofBlocks loopedBlocks).hopsTo 10).get? 0 = some 1 := by decide +kernel
  have hlast : ((ofBlocks loopedBlocks).hopsTo 10).get? 20 = some unreachable := by decide +kernel
  exact ⟨hsize, _, hentry, hfirst, hdistance 0 1 hfirst, hlast, hdistance 20 _ hlast⟩

end ContractFuzz.ControlFlowGraph
