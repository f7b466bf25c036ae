import ContractFuzz.Binary64
import ContractFuzz.Record.Contract
import ContractFuzz.Record.Transaction
/-!
# Ranking of transactions

Past transactions are ranked by what they achieved, measured against what their contract allows.

## Main definitions

* `Signal`: which achievements count. `ScorePolicy`: how they are combined when all of them do.
* `Ranking`, `Ranking.score`: the scale of a contract, and the place of a transaction on it.
* `Ranking.order`: transactions from best to worst.
-/

namespace ContractFuzz

/-- The achievements that a ranking looks at. -/
inductive Signal where
  /-- The number of executed instructions. -/
  | coverage
  /-- The hops gained towards critical instructions. -/
  | distance
  /-- These two and the executed critical instructions, combined by a policy. -/
  | distanceCoverage
deriving DecidableEq, Inhabited

/-- How the three achievements become one score. -/
inductive ScorePolicy where
  /-- Their sum, each multiplied by a weight. -/
  | weightedSum (hits coverage distance : Binary64)
  /-- The greatest of them. -/
  | max
deriving DecidableEq, Inhabited

/-- What transactions of a contract are measured by. -/
structure Ranking where
  /-- The achievements that count. -/
  signal : Signal
  /-- How they are combined. -/
  policy : ScorePolicy
  /-- The number of critical instructions. -/
  targetCount : Nat
  /-- The number of instructions. -/
  instructionCount : Nat
  /-- The sum of the blocks' largest distances. -/
  distanceSum : Nat

/-- A number as a part of another, zero if that is zero. -/
def ratio (part whole : Nat) : Binary64 :=
  if whole = 0 then ⟨0⟩ else .ofFloat (part.toFloat / whole.toFloat)

namespace Ranking

/-- The ranking for the transactions of a contract. -/
def ofContract (c : Contract) (signal : Signal) (policy : ScorePolicy) : Ranking :=
  ⟨signal, policy, c.targetCount, c.instructionCount, c.distances.maxDistanceSum⟩

/-- The executed critical instructions, as a part of all. -/
def hitsRatio (r : Ranking) (tx : Transaction) : Binary64 := ratio tx.hits r.targetCount

/-- The executed instructions, as a part of all. -/
def coverageRatio (r : Ranking) (tx : Transaction) : Binary64 :=
  ratio tx.executed.size r.instructionCount

/-- The hops gained, as a part of the sum of distances. -/
def distanceRatio (r : Ranking) (tx : Transaction) : Binary64 :=
  ratio (gainedHops tx.distanceGain) r.distanceSum

/-- The score of a transaction. -/
def score (r : Ranking) (tx : Transaction) : Binary64 :=
  match r.signal with
  | .coverage => r.coverageRatio tx
  | .distance => r.distanceRatio tx
  | .distanceCoverage =>
    let hits := r.hitsRatio tx
    let coverage := r.coverageRatio tx
    let distance := r.distanceRatio tx
    match r.policy with
    | .weightedSum h c d => h * hits + c * coverage + d * distance
    | .max => (hits.max coverage).max distance

/-- Transactions by descending score. Those with the same score stay in their order. -/
def order (r : Ranking) (txs : List Transaction) : List Transaction :=
  txs.mergeSort fun a b => decide ((r.score b).rank ≤ (r.score a).rank)

end Ranking

end ContractFuzz
