import ContractFuzz.Abi.Argument
import ContractFuzz.Oracle
import ContractFuzz.Seed.Ranking
import ContractFuzz.Seed.Selection
/-!
# Configuration

## Main definitions

* `Config`, `FuzzingConfig`: what can be configured, with the defaults.
* `Config.validate`: the conditions that a configuration has to meet.
-/

namespace ContractFuzz

/-- How inputs are generated. -/
structure FuzzingConfig where
  /-- The number of argument lists in a batch of seeds. -/
  seedsSize : Nat
  /-- The number of transactions that are generated at a time. -/
  batchSize : Nat
  /-- The operations that are targets of the distance analysis. -/
  critical : List String
  /-- Values given in advance. -/
  seeds : SeedCorpus
  /-- How achievements are combined. -/
  policy : ScorePolicy
  /-- How seeds are selected by rank. -/
  selection : SelectionRule
  /-- The strategies that tasks may use. -/
  enabled : List Strategy
  /-- The seed of the random sources, if it is fixed. -/
  randomSeed : Option Nat

/-- The configuration of campaigns. -/
structure Config where
  /-- How inputs are generated. -/
  fuzzing : FuzzingConfig
  /-- The weaknesses that are looked for. -/
  oracles : List Oracle
  /-- How many seconds a submitted transaction may wait for its execution. -/
  timeoutSeconds : Nat

namespace SelectionRule

/-- The parts of the pool that are used unless others are given. -/
def default : SelectionRule := ⟨0.4, 0.7, 0.5, 0.8⟩

end SelectionRule

/-- The weights that are used unless others are given: 0.1 for executed critical instructions, 0.6
for coverage and 0.3 for distance. -/
def ScorePolicy.default : ScorePolicy :=
  .weightedSum (.ofFloat 0.1) (.ofFloat 0.6) (.ofFloat 0.3)

/-- The operations that play a part in the weaknesses that oracles look for. -/
def defaultCritical : List String :=
  ["CALL", "CALLCODE", "DELEGATECALL", "SELFDESTRUCT", "TIMESTAMP", "NUMBER", "BLOCKHASH"]

/-- Generation of inputs as it is unless configured otherwise. -/
def FuzzingConfig.default : FuzzingConfig :=
  ⟨10, 5, defaultCritical, .empty, .default, .default, Strategy.all, none⟩

namespace Config

/-- The configuration in which nothing is given. -/
def default : Config := ⟨.default, Oracle.all, 30⟩

instance : Inhabited Config := ⟨default⟩

/-- How long a submitted transaction may wait for its execution. -/
def timeout (c : Config) : Duration := .ofSeconds c.timeoutSeconds

/-- Whether two numbers are in order between zero and one. -/
def inUnitOrder (a b : Float) : Bool := 0 ≤ a && a ≤ b && b ≤ 1

/-- Check the conditions, the first that fails being reported. -/
def validate (c : Config) : Except Failure Unit :=
  let rule := c.fuzzing.selection
  if c.timeoutSeconds = 0 then .error (.config .timeoutNotPositive)
  else if c.fuzzing.seedsSize = 0 then .error (.config .seedsSizeNotPositive)
  else if c.fuzzing.batchSize = 0 then .error (.config .batchSizeNotPositive)
  else if !inUnitOrder rule.firstRange rule.secondRange then
    .error (.config .rangesOutOfOrder)
  else if !inUnitOrder rule.firstLimit rule.secondLimit then
    .error (.config .limitsOutOfOrder)
  else .ok ()

end Config

end ContractFuzz
