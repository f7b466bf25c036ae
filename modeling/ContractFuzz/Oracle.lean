import ContractFuzz.Sorted.Set
/-!
# Oracles

What a transaction did, as far as it can reveal a weakness, and the combinations that do.

## Main definitions

* `Observation`: one of the things that a node reports; `Observation.ofName?` reads its name.
* `Snapshot`: which of them happened during a transaction.
* `Oracle`, `Oracle.detects`: the weaknesses, and the snapshots that reveal them.
* `detectWeaknesses`: the names of all weaknesses that some oracles detect.
-/

namespace ContractFuzz

/-- Something that a node reports about a transaction. -/
inductive Observation where
  | etherTransfer
  | sendOp
  | storageChanged
  | repeatedCall
  | nestedCallFailed
  | rootCallFailed
  | outOfGas
  | timestamp
  | blockNumber
  | blockHash
  | delegateCall
  | delegateInputControlled
deriving DecidableEq

namespace Observation

/-- The letters and digits of a name, in lower case; nothing else of it counts. -/
def normalize (name : String) : String :=
  String.ofList ((name.toList.filter Char.isAlphanum).map Char.toLower)

/-- The observations by their normalized names, some of which have two. -/
def table : List (String × Observation) :=
  [("ethertransfer", .etherTransfer), ("sendop", .sendOp), ("send", .sendOp),
    ("storagechanged", .storageChanged), ("repeatedcall", .repeatedCall),
    ("reentrancycall", .repeatedCall), ("nestedcallfailed", .nestedCallFailed),
    ("exceptioncall", .nestedCallFailed), ("rootcallfailed", .rootCallFailed),
    ("outofgas", .outOfGas), ("gaslesssend", .outOfGas), ("timestamp", .timestamp),
    ("blocknumber", .blockNumber), ("number", .blockNumber), ("blockhash", .blockHash),
    ("delegatecall", .delegateCall), ("delegateinputcontrolled", .delegateInputControlled)]

/-- The observation of a name in any spelling. -/
def ofName? (name : String) : Option Observation := table.lookup (normalize name)

end Observation

/-- Which of the observations were made during a transaction. -/
structure Snapshot where
  etherTransfer : Bool
  sendOp : Bool
  storageChanged : Bool
  repeatedCall : Bool
  nestedCallFailed : Bool
  rootCallFailed : Bool
  outOfGas : Bool
  timestamp : Bool
  blockNumber : Bool
  blockHash : Bool
  delegateCall : Bool
  delegateInputControlled : Bool
deriving DecidableEq

namespace Snapshot

/-- The snapshot of a transaction during which nothing was observed. -/
def empty : Snapshot :=
  ⟨false, false, false, false, false, false, false, false, false, false, false, false⟩

instance : Inhabited Snapshot := ⟨empty⟩

/-- The snapshot with one more observation. -/
def add (s : Snapshot) : Observation → Snapshot
  | .etherTransfer => { s with etherTransfer := true }
  | .sendOp => { s with sendOp := true }
  | .storageChanged => { s with storageChanged := true }
  | .repeatedCall => { s with repeatedCall := true }
  | .nestedCallFailed => { s with nestedCallFailed := true }
  | .rootCallFailed => { s with rootCallFailed := true }
  | .outOfGas => { s with outOfGas := true }
  | .timestamp => { s with timestamp := true }
  | .blockNumber => { s with blockNumber := true }
  | .blockHash => { s with blockHash := true }
  | .delegateCall => { s with delegateCall := true }
  | .delegateInputControlled => { s with delegateInputControlled := true }

/-- The snapshot of a list of event names; unknown names are passed over. -/
def ofEvents (names : List String) : Snapshot :=
  (names.filterMap Observation.ofName?).foldl add empty

/-- Whether the transaction had an effect worth protecting. -/
def hasEffect (s : Snapshot) : Bool := s.storageChanged || s.etherTransfer || s.sendOp

end Snapshot

/-- The weaknesses that are looked for. -/
inductive Oracle where
  | reentrancy
  | exceptionDisorder
  | gaslessSend
  | timestampDependency
  | numberDependency
  | dangerousDelegateCall
deriving DecidableEq, Inhabited

namespace Oracle

/-- All oracles. -/
def all : List Oracle :=
  [.reentrancy, .exceptionDisorder, .gaslessSend, .timestampDependency, .numberDependency,
    .dangerousDelegateCall]

/-- The name of a weakness. -/
def name : Oracle → String
  | reentrancy => "reentrancy"
  | exceptionDisorder => "exception_disorder"
  | gaslessSend => "gasless_send"
  | timestampDependency => "timestamp_dependency"
  | numberDependency => "number_dependency"
  | dangerousDelegateCall => "dangerous_delegate_call"

/-- The weakness of a name. -/
def ofName? (name : String) : Option Oracle := all.find? (·.name == name)

/-- Whether a snapshot reveals the weakness. -/
def detects (s : Snapshot) : Oracle → Bool
  | reentrancy => s.repeatedCall && s.etherTransfer
  | exceptionDisorder => s.nestedCallFailed && !s.rootCallFailed
  | gaslessSend => s.sendOp && s.outOfGas
  | timestampDependency => s.timestamp && s.hasEffect
  | numberDependency => (s.blockNumber || s.blockHash) && s.hasEffect
  | dangerousDelegateCall => s.delegateCall && s.delegateInputControlled

end Oracle

/-- The names of the weaknesses that the given oracles detect. -/
def detectWeaknesses (oracles : List Oracle) (s : Snapshot) : SortedSet String :=
  .ofList ((oracles.filter (·.detects s)).map Oracle.name)

end ContractFuzz
