import ContractFuzz.Abi.Value
import ContractFuzz.Graph.ControlFlow
/-!
# A sample contract

A small wallet, given by its basic blocks, and the blocks and events of a call to it.

## Main definitions

* `Wallet.layout`, `Wallet.decompiled`: the blocks, and how a decompiler shows them.
* `Wallet.execute`: what a node observes when it executes a call.
-/

namespace ContractFuzz.Wallet

/-- The block that looks up the function. -/
def dispatch : Pc := 0x00

/-- The block of deposits. -/
def deposit : Pc := 0x10

/-- The block of large deposits. -/
def largeDeposit : Pc := 0x20

/-- The block of withdrawals. -/
def withdraw : Pc := 0x30

/-- The block that pays out. -/
def payout : Pc := 0x40

/-- The block that locks the wallet. -/
def lock : Pc := 0x50

/-- The last block. -/
def exit : Pc := 0x60

/-- The blocks of the wallet: name, instructions and successors. -/
def layout : List (Pc × List (Pc × String) × List Pc) :=
  [(dispatch, [(0x00, "PUSH1"), (0x02, "CALLDATALOAD"), (0x03, "JUMPI")],
      [deposit, withdraw, lock]),
    (deposit, [(0x10, "JUMPDEST"), (0x11, "SSTORE"), (0x12, "JUMPI")], [largeDeposit, exit]),
    (largeDeposit, [(0x20, "JUMPDEST"), (0x21, "NUMBER"), (0x22, "JUMP")], [exit]),
    (withdraw, [(0x30, "JUMPDEST"), (0x31, "SLOAD"), (0x32, "JUMPI")], [payout, exit]),
    (payout, [(0x40, "JUMPDEST"), (0x41, "CALL"), (0x42, "JUMP")], [exit]),
    (lock, [(0x50, "JUMPDEST"), (0x51, "TIMESTAMP"), (0x52, "SSTORE"), (0x53, "JUMP")], [exit]),
    (exit, [(0x60, "JUMPDEST"), (0x61, "STOP")], [])]

/-- A program counter in hexadecimal. -/
def pcText (pc : Pc) : String := String.ofList ('0' :: 'x' :: Text.hexDigits pc.toNat)

/-- The layout as a decompiler shows it. -/
def decompiled : List DecompiledBlock :=
  layout.map fun (pc, instructions, successors) =>
    ⟨pcText pc, instructions.map fun (pc, op) => ⟨pcText pc, op⟩, successors.map pcText⟩

/-- What a node observes when it executes a call. -/
structure Execution where
  /-- The executed instructions. -/
  executed : PcSet
  /-- The names of events. -/
  events : List String

/-- The number that an argument stands for, zero if it stands for none. -/
def amount (v : Option Value) : Nat :=
  ((v.bind Value.text?).bind fun s => Text.readGrouped 10 s.toList).getD 0

/-- One ether, in its smallest unit. -/
def oneEther : Nat := 1000000000000000000

/-- The blocks between the first and the last that a call runs through, and its events. Deposits
over one ether are stamped with the number of the block, odd amounts are paid out. -/
def path (function : String) (args : List Value) : List Pc × List String :=
  if function = "deposit" then
    if amount args.head? > oneEther then
      ([deposit, largeDeposit], ["StorageChanged", "BlockNumber"])
    else ([deposit], ["StorageChanged"])
  else if function = "withdraw" then
    if amount args.head? % 2 = 1 then
      ([withdraw, payout], ["EtherTransfer", "RepeatedCall"])
    else ([withdraw], [])
  else if function = "lock" then
    if args.head?.bind Value.bool? = some true then ([lock], ["Timestamp", "StorageChanged"])
    else ([], [])
  else ([], [])

/-- Execute a call. -/
def execute (function : String) (args : List Value) : Execution :=
  let (between, events) := path function args
  let blocks := dispatch :: between ++ [exit]
  let instructions := layout.flatMap fun (pc, instructions, _) =>
    if blocks.contains pc then instructions.map (·.1) else []
  ⟨.ofList instructions, events⟩

end ContractFuzz.Wallet
