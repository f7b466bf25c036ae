import ContractFuzz.Graph.Coverage
import ContractFuzz.Proofs.Lookup
import ContractFuzz.Proofs.Outcome
import Mathlib.Data.List.Induction
/-!
# The indexes of a control flow graph

A graph is built block by block, and a block takes the place of what was there before: of a block
with its name, of instructions at its program counters, and of their places in the index. So every
look-up is answered by the last block that has something to say about it. The last blocks of three
look-ups need not be the same one, and then the indexes do not agree with the blocks.

## Main definitions

* `IsLast` : the last member of a list with a property.
* `ControlFlowGraph.BuiltFrom` : the graphs that are built from a list of blocks.
* `ControlFlowGraph.IndexesAgree` : the indexes say of the instructions what the blocks say.
* `BasicBlock.Unobscured`, `BasicBlock.Unreplaced` : lists of blocks whose instructions can be
  found in the graph.

## Main results

* `ControlFlowGraph.block?_ofBlocks_eq_some_iff`, `ControlFlowGraph.opcode?_ofBlocks_eq_some_iff`,
  `ControlFlowGraph.containingBlock?_ofBlocks_eq_some_iff` : the look-ups of a graph.
* `ControlFlowGraph.BuiltFrom.indexesAgree_iff` : when the indexes of a graph agree with its blocks.
* `BasicBlock.unobscured_of_nodup` : they do if no name is used twice, and every block lists the
  instruction that it is named after.
-/

namespace ContractFuzz

/-! ### Last members -/

/-- The last member of a list with a property. -/
def IsLast {α : Type} (p : α → Prop) (l : List α) (a : α) : Prop :=
  ∃ before after, l = before ++ a :: after ∧ p a ∧ ∀ c ∈ after, ¬ p c

namespace IsLast

variable {α : Type} {p q : α → Prop} {l : List α} {a b : α}

theorem mem (h : IsLast p l a) : a ∈ l := by
  obtain ⟨before, after, rfl, -, -⟩ := h
  simp

theorem property (h : IsLast p l a) : p a := by
  obtain ⟨-, -, -, ha, -⟩ := h
  exact ha

theorem not_nil : ¬ IsLast p [] a := fun h => List.not_mem_nil h.mem

theorem append_singleton : IsLast p (l ++ [b]) a ↔ p b ∧ a = b ∨ ¬ p b ∧ IsLast p l a := by
  constructor
  · rintro ⟨before, after, hl, ha, hlast⟩
    rcases List.eq_nil_or_concat after with rfl | ⟨after, c, rfl⟩
    · obtain ⟨-, rfl⟩ := List.append_singleton_inj.mp hl
      exact .inl ⟨ha, rfl⟩
    · rw [List.concat_eq_append, ← List.cons_append, ← List.append_assoc] at hl
      obtain ⟨rfl, rfl⟩ := List.append_singleton_inj.mp hl
      exact .inr ⟨hlast b (by simp), before, after, rfl, ha, fun c hc => hlast c (by simp [hc])⟩
  · rintro (⟨hb, rfl⟩ | ⟨hb, before, after, rfl, ha, hlast⟩)
    · exact ⟨l, [], rfl, hb, fun c hc => absurd hc List.not_mem_nil⟩
    · refine ⟨before, after ++ [b], by simp, ha, fun c hc => ?_⟩
      rcases List.mem_append.mp hc with hc | hc
      · exact hlast c hc
      · rwa [List.mem_singleton.mp hc]

theorem unique (ha : IsLast p l a) (hb : IsLast p l b) : a = b := by
  induction l using List.reverseRecOn with
  | nil => exact absurd ha not_nil
  | append_singleton l c ih =>
    rcases append_singleton.mp ha with ⟨hc, rfl⟩ | ⟨hc, ha⟩ <;>
      rcases append_singleton.mp hb with ⟨hc', rfl⟩ | ⟨hc', hb⟩
    · rfl
    · exact absurd hc hc'
    · exact absurd hc' hc
    · exact ih ha hb

/-- A property that some member has, some last member has. -/
theorem exists_of_mem (ha : a ∈ l) (h : p a) : ∃ b, IsLast p l b := by
  induction l using List.reverseRecOn with
  | nil => exact absurd ha List.not_mem_nil
  | append_singleton l c ih =>
    by_cases hc : p c
    · exact ⟨c, append_singleton.mpr (.inl ⟨hc, rfl⟩)⟩
    · rcases List.mem_append.mp ha with ha | ha
      · obtain ⟨b, hb⟩ := ih ha
        exact ⟨b, append_singleton.mpr (.inr ⟨hc, hb⟩)⟩
      · exact absurd (List.mem_singleton.mp ha ▸ h) hc

/-- The last member with the weaker of two properties is the last one with the stronger property,
if it has it. -/
theorem strengthen (ha : IsLast q l a) (h : p a) (hpq : ∀ b, p b → q b) : IsLast p l a := by
  obtain ⟨before, after, hl, -, hlast⟩ := ha
  exact ⟨before, after, hl, h, fun c hc hp => hlast c hc (hpq c hp)⟩

end IsLast

/-! ### What a block says -/

namespace BasicBlock

/-- The block has an instruction at a program counter. -/
def Lists (pc : Pc) (b : BasicBlock) : Prop := b.instructions.contains pc = true

/-- The block has a program counter put down as its own: it lists it, or is named after it. -/
def Claims (pc : Pc) (b : BasicBlock) : Prop := b.Lists pc ∨ b.pc = pc

instance (pc : Pc) (b : BasicBlock) : Decidable (b.Lists pc) :=
  inferInstanceAs (Decidable (_ = true))

instance (pc : Pc) (b : BasicBlock) : Decidable (b.Claims pc) :=
  inferInstanceAs (Decidable (_ ∨ _))

/-- Every instruction can be found: the last block that lists it is the last one of its name, and
no later block is named after the instruction. -/
def Unobscured (blocks : List BasicBlock) : Prop :=
  ∀ pc b, IsLast (Lists pc) blocks b →
    IsLast (fun c => c.pc = b.pc) blocks b ∧ IsLast (Claims pc) blocks b

/-- Every instruction of a block is listed by some block that is the last one of its name. -/
def Unreplaced (blocks : List BasicBlock) : Prop :=
  ∀ b ∈ blocks, ∀ pc, b.Lists pc → ∃ c, IsLast (fun d => d.pc = c.pc) blocks c ∧ c.Lists pc

variable {blocks : List BasicBlock}

theorem Unobscured.unreplaced (h : Unobscured blocks) : Unreplaced blocks := by
  intro b hb pc hlists
  obtain ⟨c, hc⟩ := IsLast.exists_of_mem hb hlists
  exact ⟨c, (h pc c hc).1, hc.property⟩

/-- Blocks may share instructions: as long as they have different names and list the instructions
they are named after, every instruction can be found. -/
theorem unobscured_of_nodup (distinct : (blocks.map (·.pc)).Nodup)
    (first : ∀ b ∈ blocks, b.Lists b.pc) : Unobscured blocks := by
  rintro pc b ⟨before, after, rfl, hb, hlast⟩
  refine ⟨⟨before, after, rfl, rfl, fun c hc heq => ?_⟩,
    before, after, rfl, .inl hb, fun c hc hclaims => ?_⟩
  · rw [List.map_append, List.map_cons] at distinct
    have hnot := (List.nodup_cons.mp (List.nodup_append.mp distinct).2.1).1
    exact hnot (heq ▸ List.mem_map_of_mem hc)
  · rcases hclaims with hlists | rfl
    · exact hlast c hc hlists
    · exact hlast c hc (first c (by simp [hc]))

end BasicBlock

namespace ControlFlowGraph

open BasicBlock

/-! ### Look-ups -/

variable {g : ControlFlowGraph} {blocks : List BasicBlock} {b : BasicBlock} {pc name : Pc}
  {op : String}

/-- Indexing instructions adds them, all held by the given block, and touches no block. -/
private theorem foldl_addInstruction (block : Pc) (l : List (Pc × String)) (g : ControlFlowGraph) :
    l.foldl (addInstruction block) g =
      ⟨g.blocks, l.foldl (fun m i => m.insert i.1 i.2) g.instructions,
        (l.map fun i => (i.1, block)).foldl (fun m i => m.insert i.1 i.2) g.blockOf⟩ := by
  induction l generalizing g with
  | nil => rfl
  | cons i rest ih => exact ih (addInstruction block g i)

/-- Indexing the instructions of a block. -/
private theorem indexed (g : ControlFlowGraph) (b : BasicBlock) :
    let indexed := b.instructions.entries.foldl (addInstruction b.pc) g
    indexed.blocks = g.blocks ∧
    (∀ pc, indexed.opcode? pc =
      if b.Lists pc then b.instructions.get? pc else g.opcode? pc) ∧
    ∀ pc, indexed.containingBlock? pc =
      if b.Lists pc then some b.pc else g.containingBlock? pc := by
  have hentries : ∀ i ∈ b.instructions.entries, i.2 = (b.instructions.get? i.1).getD "" := by
    intro i hi
    rw [SortedMap.get?_eq_some_iff.mpr hi, Option.getD_some]
  have hlists : ∀ pc, pc ∈ b.instructions.entries.map (·.1) ↔ b.Lists pc :=
    fun pc => SortedMap.mem_keys_iff
  rw [foldl_addInstruction]
  refine ⟨rfl, fun pc => ?_, fun pc => ?_⟩
  · rw [opcode?, SortedMap.get?_foldl_insert (fun pc => (b.instructions.get? pc).getD "") hentries]
    simp only [hlists]
    by_cases h : b.Lists pc
    · obtain ⟨op, hop⟩ := SortedMap.contains_iff.mp h
      rw [if_pos h, if_pos h, hop, Option.getD_some]
    · rw [if_neg h, if_neg h, opcode?]
  · have hblock : ∀ i ∈ b.instructions.entries.map fun i => (i.1, b.pc), i.2 = b.pc := by
      intro i hi
      obtain ⟨j, -, rfl⟩ := List.mem_map.mp hi
      rfl
    have hkeys : ((b.instructions.entries.map fun i => (i.1, b.pc)).map (·.1)) =
        b.instructions.entries.map (·.1) := List.map_map
    rw [containingBlock?, SortedMap.get?_foldl_insert (fun _ => b.pc) hblock, hkeys]
    simp only [hlists, containingBlock?]

theorem blocks_addBlock (g : ControlFlowGraph) (b : BasicBlock) :
    (g.addBlock b).blocks = g.blocks.insert b.pc b := by
  rw [addBlock, (indexed _ b).1]

theorem block?_addBlock (g : ControlFlowGraph) (b : BasicBlock) (name : Pc) :
    (g.addBlock b).block? name = if name = b.pc then some b else g.block? name := by
  rw [block?, blocks_addBlock, SortedMap.get?_insert]
  rfl

theorem opcode?_addBlock (g : ControlFlowGraph) (b : BasicBlock) (pc : Pc) :
    (g.addBlock b).opcode? pc = if b.Lists pc then b.instructions.get? pc else g.opcode? pc :=
  (indexed { g with blockOf := g.blockOf.insert b.pc b.pc } b).2.1 pc

theorem containingBlock?_addBlock (g : ControlFlowGraph) (b : BasicBlock) (pc : Pc) :
    (g.addBlock b).containingBlock? pc =
      if b.Claims pc then some b.pc else g.containingBlock? pc := by
  have hheld := (indexed { g with blockOf := g.blockOf.insert b.pc b.pc } b).2.2 pc
  have hnamed : containingBlock? { g with blockOf := g.blockOf.insert b.pc b.pc } pc =
      if b.pc = pc then some b.pc else g.containingBlock? pc := by
    simp only [containingBlock?, SortedMap.get?_insert, eq_comm (a := pc)]
  rw [hnamed] at hheld
  rw [show (g.addBlock b).containingBlock? pc = _ from hheld]
  by_cases h : b.Lists pc
  · rw [if_pos h, if_pos (.inl h)]
  · simp only [Claims, h, if_false, false_or]

theorem ofBlocks_append_singleton (blocks : List BasicBlock) (b : BasicBlock) :
    ofBlocks (blocks ++ [b]) = (ofBlocks blocks).addBlock b := by
  rw [ofBlocks, List.foldl_append]
  rfl

/-- The block of a name is the last one with it. -/
theorem block?_ofBlocks_eq_some_iff :
    (ofBlocks blocks).block? name = some b ↔ IsLast (fun c => c.pc = name) blocks b := by
  induction blocks using List.reverseRecOn with
  | nil => exact ⟨fun h => (by cases h), fun h => absurd h IsLast.not_nil⟩
  | append_singleton blocks c ih =>
    rw [ofBlocks_append_singleton, block?_addBlock, IsLast.append_singleton]
    by_cases h : c.pc = name
    · simp [h, eq_comm]
    · simp [h, Ne.symm h, ih]

/-- The operation at a program counter is that of the last block that lists it. -/
theorem opcode?_ofBlocks_eq_some_iff : (ofBlocks blocks).opcode? pc = some op ↔
    ∃ b, IsLast (Lists pc) blocks b ∧ b.instructions.get? pc = some op := by
  induction blocks using List.reverseRecOn with
  | nil => exact ⟨fun h => (by cases h), fun ⟨b, hb, _⟩ => absurd hb IsLast.not_nil⟩
  | append_singleton blocks c ih =>
    simp only [ofBlocks_append_singleton, opcode?_addBlock, IsLast.append_singleton]
    by_cases h : c.Lists pc
    · simp [h]
    · simp [h, ih]

/-- An instruction is held by the last block that claims it. -/
theorem containingBlock?_ofBlocks_eq_some_iff : (ofBlocks blocks).containingBlock? pc = some name ↔
    ∃ b, IsLast (Claims pc) blocks b ∧ b.pc = name := by
  induction blocks using List.reverseRecOn with
  | nil => exact ⟨fun h => (by cases h), fun ⟨b, hb, _⟩ => absurd hb IsLast.not_nil⟩
  | append_singleton blocks c ih =>
    simp only [ofBlocks_append_singleton, containingBlock?_addBlock, IsLast.append_singleton]
    by_cases h : c.Claims pc
    · simp [h]
    · simp [h, ih]

/-- The instructions of a graph are those that some given block lists. -/
theorem contains_instructions_ofBlocks_iff :
    (ofBlocks blocks).instructions.contains pc = true ↔ ∃ b ∈ blocks, b.Lists pc := by
  rw [SortedMap.contains_iff]
  constructor
  · rintro ⟨op, hop⟩
    obtain ⟨b, hb, -⟩ := opcode?_ofBlocks_eq_some_iff.mp hop
    exact ⟨b, hb.mem, hb.property⟩
  · rintro ⟨b, hb, hlists⟩
    obtain ⟨c, hc⟩ := IsLast.exists_of_mem hb hlists
    obtain ⟨op, hop⟩ := SortedMap.contains_iff.mp hc.property
    exact ⟨op, opcode?_ofBlocks_eq_some_iff.mpr ⟨c, hc, hop⟩⟩

/-! ### Agreement -/

/-- The graph is built from these blocks, be they given as such or in a decompiler's output. -/
inductive BuiltFrom : List BasicBlock → ControlFlowGraph → Prop
  | given (blocks : List BasicBlock) : BuiltFrom blocks (ofBlocks blocks)
  | decompiled {raw : List DecompiledBlock} {blocks : List BasicBlock} {g : ControlFlowGraph}
      (read : raw.mapM DecompiledBlock.read = .ok blocks) (accepted : ofDecompiled raw = .ok g) :
      BuiltFrom blocks g

theorem BuiltFrom.eq_ofBlocks (h : BuiltFrom blocks g) : g = ofBlocks blocks := by
  cases h with
  | given => rfl
  | decompiled read accepted =>
    rw [ofDecompiled, read] at accepted
    exact (Except.ok.inj accepted).symm

/-- The graph of a decompiler's output is built from the blocks that were read. -/
theorem exists_builtFrom {raw : List DecompiledBlock} (accepted : ofDecompiled raw = .ok g) :
    ∃ blocks, raw.mapM DecompiledBlock.read = .ok blocks ∧ BuiltFrom blocks g := by
  cases hread : raw.mapM DecompiledBlock.read with
  | error e =>
    rw [ofDecompiled, hread] at accepted
    cases accepted
  | ok blocks => exact ⟨blocks, rfl, .decompiled hread accepted⟩

/-- Some block of the graph lists the instruction. -/
def Lists (g : ControlFlowGraph) (pc : Pc) : Prop := ∃ name b, g.block? name = some b ∧ b.Lists pc

/-- The instructions that the blocks of the graph list. -/
def listed (g : ControlFlowGraph) : PcSet := .ofList (g.blocks.values.flatMap (·.instructions.keys))

/-- The indexes say of the instructions what the blocks say. -/
structure IndexesAgree (g : ControlFlowGraph) : Prop where
  /-- The instructions of the graph are those of its blocks. -/
  known : ∀ pc, g.instructions.contains pc = true ↔ g.Lists pc
  /-- An instruction is held by a block that has it, with the same operation. -/
  held : ∀ pc op, g.opcode? pc = some op → ∃ name b,
    g.containingBlock? pc = some name ∧ g.block? name = some b ∧ b.instructions.get? pc = some op

theorem mem_listed_iff : pc ∈ g.listed ↔ g.Lists pc := by
  simp only [listed, SortedSet.mem_ofList, List.mem_flatMap, SortedMap.mem_values_iff,
    SortedMap.mem_keys_iff]
  constructor
  · rintro ⟨b, ⟨name, hname⟩, hb⟩
    exact ⟨name, b, hname, hb⟩
  · rintro ⟨name, b, hname, hb⟩
    exact ⟨b, ⟨name, hname⟩, hb⟩

/-- What a block of the graph lists is an instruction of the graph. -/
theorem contains_instructions_of_lists (h : (ofBlocks blocks).Lists pc) :
    (ofBlocks blocks).instructions.contains pc = true := by
  obtain ⟨name, b, hname, hb⟩ := h
  exact contains_instructions_ofBlocks_iff.mpr ⟨b, (block?_ofBlocks_eq_some_iff.mp hname).mem, hb⟩

/-- All instructions are listed if none of them was lost with a block that was replaced. -/
theorem known_iff_unreplaced :
    (∀ pc, (ofBlocks blocks).instructions.contains pc = true ↔ (ofBlocks blocks).Lists pc) ↔
      Unreplaced blocks := by
  constructor
  · intro known b hb pc hlists
    obtain ⟨name, c, hname, hc⟩ :=
      (known pc).mp (contains_instructions_ofBlocks_iff.mpr ⟨b, hb, hlists⟩)
    have hlast := block?_ofBlocks_eq_some_iff.mp hname
    obtain rfl : c.pc = name := hlast.property
    exact ⟨c, hlast, hc⟩
  · refine fun unreplaced pc => ⟨fun h => ?_, contains_instructions_of_lists⟩
    obtain ⟨b, hb, hlists⟩ := contains_instructions_ofBlocks_iff.mp h
    obtain ⟨c, hlast, hc⟩ := unreplaced b hb pc hlists
    exact ⟨c.pc, c, block?_ofBlocks_eq_some_iff.mpr hlast, hc⟩

theorem indexesAgree_ofBlocks_iff : (ofBlocks blocks).IndexesAgree ↔ Unobscured blocks := by
  constructor
  · intro agree pc b hb
    obtain ⟨op, hop⟩ := SortedMap.contains_iff.mp hb.property
    obtain ⟨name, c, hname, hc, hlisted⟩ :=
      agree.held pc op (opcode?_ofBlocks_eq_some_iff.mpr ⟨b, hb, hop⟩)
    obtain ⟨d, hd, rfl⟩ := containingBlock?_ofBlocks_eq_some_iff.mp hname
    have hnamed := block?_ofBlocks_eq_some_iff.mp hc
    have hlists : c.Lists pc := SortedMap.contains_iff.mpr ⟨op, hlisted⟩
    -- The block of that name and the one that claims the instruction both do both.
    obtain rfl : c = d := IsLast.unique (p := fun x => x.pc = d.pc ∧ x.Claims pc)
      (hnamed.strengthen ⟨hnamed.property, .inl hlists⟩ fun _ h => h.1)
      (hd.strengthen ⟨rfl, hd.property⟩ fun _ h => h.2)
    obtain rfl : b = c := hb.unique (hd.strengthen hlists fun _ h => .inl h)
    exact ⟨hnamed, hd⟩
  · intro unobscured
    have held : ∀ pc op, (ofBlocks blocks).opcode? pc = some op → ∃ name b,
        (ofBlocks blocks).containingBlock? pc = some name ∧
        (ofBlocks blocks).block? name = some b ∧ b.instructions.get? pc = some op := by
      intro pc op hop
      obtain ⟨b, hb, hget⟩ := opcode?_ofBlocks_eq_some_iff.mp hop
      obtain ⟨hnamed, hclaims⟩ := unobscured pc b hb
      exact ⟨b.pc, b, containingBlock?_ofBlocks_eq_some_iff.mpr ⟨b, hclaims, rfl⟩,
        block?_ofBlocks_eq_some_iff.mpr hnamed, hget⟩
    refine ⟨fun pc => ⟨fun h => ?_, contains_instructions_of_lists⟩, held⟩
    obtain ⟨op, hop⟩ := SortedMap.contains_iff.mp h
    obtain ⟨name, b, -, hb, hget⟩ := held pc op hop
    exact ⟨name, b, hb, SortedMap.contains_iff.mpr ⟨op, hget⟩⟩

/-- The instructions by whose number coverage is scaled are those of the blocks, if none was
lost. -/
theorem size_instructions_ofBlocks_iff :
    (ofBlocks blocks).instructions.size = (ofBlocks blocks).listed.size ↔ Unreplaced blocks := by
  rw [SortedSet.size_eq_size_iff fun pc hpc =>
    contains_instructions_of_lists (mem_listed_iff.mp hpc), ← known_iff_unreplaced]
  simp only [mem_listed_iff]
  exact ⟨fun h pc => ⟨h pc, contains_instructions_of_lists⟩, fun h pc => (h pc).mp⟩

/-- The indexes of a graph agree with its blocks exactly if no block that the graph is built from
gets in the way of an instruction of an earlier one: by taking the name of the last block that
lists it, or by being named after it without listing it. The instructions are counted as those of
the blocks exactly if none is lost with a block that another one of its name replaces. -/
theorem BuiltFrom.indexesAgree_iff (h : BuiltFrom blocks g) :
    (g.IndexesAgree ↔ Unobscured blocks) ∧
      (g.instructions.size = g.listed.size ↔ Unreplaced blocks) := by
  obtain rfl := h.eq_ofBlocks
  exact ⟨indexesAgree_ofBlocks_iff, size_instructions_ofBlocks_iff⟩

/-- Two blocks that share their last instruction, as a decompiler writes them. -/
def sharingBlocks : List DecompiledBlock :=
  [⟨"0x0", [⟨"0x0", "JUMPDEST"⟩, ⟨"0x5", "ADD"⟩], ["0x4"]⟩,
   ⟨"0x4", [⟨"0x4", "JUMPDEST"⟩, ⟨"0x5", "ADD"⟩], []⟩]

theorem indexesAgree_sharingBlocks : ∃ blocks g, BuiltFrom blocks g ∧
    ofDecompiled sharingBlocks = .ok g ∧ g.IndexesAgree ∧ g.instructions.size = g.listed.size := by
  let blocks : List BasicBlock :=
    [⟨0, .ofList [(0, "JUMPDEST"), (5, "ADD")], [4]⟩,
     ⟨4, .ofList [(4, "JUMPDEST"), (5, "ADD")], []⟩]
  have read : sharingBlocks.mapM DecompiledBlock.read = .ok blocks := by rfl
  have accepted : ofDecompiled sharingBlocks = .ok (ofBlocks blocks) := by
    rw [ofDecompiled, read]
    rfl
  have built : BuiltFrom blocks (ofBlocks blocks) := .decompiled read accepted
  obtain ⟨agree, counted⟩ := built.indexesAgree_iff
  have unobscured : Unobscured blocks := unobscured_of_nodup (by decide +kernel) (by decide +kernel)
  exact ⟨blocks, _, built, accepted, agree.mpr unobscured, counted.mpr unobscured.unreplaced⟩

/-- Blocks of which the second replaces the first, with an instruction that it does not list, and
the third is named after an instruction that only the second lists. -/
def obscuringBlocks : List BasicBlock :=
  [⟨0, .ofList [(0, "JUMPDEST"), (1, "CALL")], []⟩,
   ⟨0, .ofList [(0, "JUMPDEST"), (5, "SSTORE")], []⟩,
   ⟨5, .ofList [(6, "STOP")], []⟩]

/-- The graph knows an instruction that no block lists, and gives an instruction to a block that
does not list it. -/
theorem indexes_disagree_obscuringBlocks :
    (∃ pc, (ofBlocks obscuringBlocks).instructions.contains pc = true ∧
      ¬ (ofBlocks obscuringBlocks).Lists pc) ∧
    (∃ pc name b, (ofBlocks obscuringBlocks).containingBlock? pc = some name ∧
      (ofBlocks obscuringBlocks).block? name = some b ∧
      (ofBlocks obscuringBlocks).Lists pc ∧ ¬ b.Lists pc) ∧
    ¬ (ofBlocks obscuringBlocks).IndexesAgree := by
  have hlost : (1 : Pc) ∉ (ofBlocks obscuringBlocks).listed := by
    rw [← SortedSet.contains_iff]
    decide +kernel
  have hlisted : (5 : Pc) ∈ (ofBlocks obscuringBlocks).listed :=
    SortedSet.contains_iff.mp (by decide +kernel)
  have hknown : (ofBlocks obscuringBlocks).instructions.contains 1 = true := by decide +kernel
  refine ⟨⟨1, hknown, mt mem_listed_iff.mpr hlost⟩, ⟨5, 5, ⟨5, .ofList [(6, "STOP")], []⟩, ?_⟩,
    fun agree => hlost (mem_listed_iff.mpr ((agree.known 1).mp hknown))⟩
  exact ⟨by decide +kernel, rfl, mem_listed_iff.mp hlisted, by decide +kernel⟩

end ControlFlowGraph

end ContractFuzz
