import ContractFuzz.Failure
import ContractFuzz.Sorted.Map
import ContractFuzz.Sorted.Set
import ContractFuzz.Text.Blank
import ContractFuzz.Text.Numeral
/-!
# Control flow graphs

The basic blocks of a contract's code as a decompiler recovers them, with an index from every
instruction to the block that holds it. Successors that are no blocks of the graph lead out of the
recovered code.

## Main definitions

* `Pc`, `readPc`: program counters and their written form.
* `BasicBlock`, `ControlFlowGraph`, `ControlFlowGraph.ofBlocks`.
* `DecompiledBlock`, `ControlFlowGraph.ofDecompiled`: the graph of a decompiler's output.
* `ControlFlowGraph.predecessors`: the edges between blocks, reversed.
-/

namespace ContractFuzz

/-- A program counter. -/
abbrev Pc := UInt64

/-- A set of program counters. -/
abbrev PcSet := SortedSet Pc

/-- The number that a text stands for between blanks: hexadecimal after `0x` or `0X`, else
decimal. -/
def readPc? (raw : String) : Option Pc :=
  let number := match Text.trimBlanks raw.toList with
    | '0' :: 'x' :: r => Text.readBounded 16 UInt64.size r
    | '0' :: 'X' :: r => Text.readBounded 16 UInt64.size r
    | cs => Text.readBounded 10 UInt64.size cs
  number.map UInt64.ofNat

/-- A program counter, or the failure that names the text that is none. -/
def readPc (raw : String) : Except Failure Pc :=
  match readPc? raw with
  | some pc => .ok pc
  | none => .error (.malformedGraph (Text.trim raw))

/-- Instructions that run one after the other, with the places where control may go next. -/
structure BasicBlock where
  /-- The first instruction, which names the block. -/
  pc : Pc
  /-- The operations of the block. -/
  instructions : SortedMap Pc String
  /-- The blocks that may run next, in the given order. -/
  successors : List Pc

/-- Basic blocks with an index of their instructions. -/
structure ControlFlowGraph where
  /-- The blocks, by their first instruction. -/
  blocks : SortedMap Pc BasicBlock
  /-- The operations of all blocks. -/
  instructions : SortedMap Pc String
  /-- The block that holds an instruction. -/
  blockOf : SortedMap Pc Pc

namespace ControlFlowGraph

/-- The graph without blocks. -/
def empty : ControlFlowGraph := ⟨.empty, .empty, .empty⟩

instance : Inhabited ControlFlowGraph := ⟨empty⟩

/-- Index one instruction of the block at `block`. -/
def addInstruction (block : Pc) (g : ControlFlowGraph) (i : Pc × String) : ControlFlowGraph :=
  { g with
    instructions := g.instructions.insert i.1 i.2
    blockOf := g.blockOf.insert i.1 block }

/-- Add a block, in place of one with the same name. The instructions of the block take the place
of those known before. -/
def addBlock (g : ControlFlowGraph) (b : BasicBlock) : ControlFlowGraph :=
  let named := { g with blockOf := g.blockOf.insert b.pc b.pc }
  let indexed := b.instructions.entries.foldl (addInstruction b.pc) named
  { indexed with blocks := indexed.blocks.insert b.pc b }

/-- The graph of a list of blocks, added one after the other. -/
def ofBlocks (blocks : List BasicBlock) : ControlFlowGraph := blocks.foldl addBlock empty

/-- Whether there is no block. -/
def isEmpty (g : ControlFlowGraph) : Bool := g.blocks.isEmpty

/-- The block of that name. -/
def block? (g : ControlFlowGraph) (pc : Pc) : Option BasicBlock := g.blocks.get? pc

/-- The operation at a program counter. -/
def opcode? (g : ControlFlowGraph) (pc : Pc) : Option String := g.instructions.get? pc

/-- The name of the block that holds an instruction. -/
def containingBlock? (g : ControlFlowGraph) (pc : Pc) : Option Pc := g.blockOf.get? pc

/-- The edges between blocks of the graph, as pairs of source and destination. -/
def edges (g : ControlFlowGraph) : List (Pc × Pc) :=
  g.blocks.values.flatMap fun b =>
    (b.successors.filter g.blocks.contains).map fun s => (b.pc, s)

/-- For every block that can be reached over an edge, the blocks from which it can. -/
def predecessors (g : ControlFlowGraph) : SortedMap Pc PcSet :=
  g.edges.foldl
    (fun m e => m.insert e.2 (((m.get? e.2).getD .empty).insert e.1)) .empty

end ControlFlowGraph

/-- An instruction in a decompiler's output. -/
structure DecompiledInstruction where
  /-- The program counter, as text. -/
  pc : String
  /-- The operation. -/
  op : String

/-- A basic block in a decompiler's output. -/
structure DecompiledBlock where
  /-- The first program counter, as text. -/
  pc : String
  /-- The instructions. -/
  instructions : List DecompiledInstruction
  /-- The program counters that may follow, as text. -/
  successors : List String

namespace DecompiledBlock

/-- Read the program counters of a block: those of its instructions, then its successors, then its
own. -/
def read (b : DecompiledBlock) : Except Failure BasicBlock := do
  let instructions ← b.instructions.mapM fun i => do return (← readPc i.pc, i.op)
  let successors ← b.successors.mapM readPc
  return ⟨← readPc b.pc, .ofList instructions, successors⟩

end DecompiledBlock

namespace ControlFlowGraph

/-- The graph of a decompiler's output. -/
def ofDecompiled (blocks : List DecompiledBlock) : Except Failure ControlFlowGraph :=
  (blocks.mapM DecompiledBlock.read).map ofBlocks

end ControlFlowGraph

end ContractFuzz
