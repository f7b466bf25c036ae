import ContractFuzz.Config
import ContractFuzz.Seed.Crossover
import ContractFuzz.Store
/-!
# Seed batches

Batches of argument lists for a function, bred from its most recent finished transactions: these
are ranked, a pool of parents is selected from them, and pairs of parents are crossed. Children
that no longer stand for values are dropped, and the corpus fills up what is missing.

## Main definitions

* `TryDraw`: a computation that draws and may fail.
* `selectParents`, `breed`, `decodeChildren`, `fillUp`: the steps.
* `seedBatch`: a batch.
-/

namespace ContractFuzz

/-- A computation that draws from a source and may fail. What was drawn before a failure is gone. -/
abbrev TryDraw := ExceptT Failure Draw

namespace TryDraw

/-- A draw, which does not fail. -/
def draw {α : Type} (d : Draw α) : TryDraw α := ExceptT.lift d

/-- The result of a computation that does not draw. -/
def ofExcept {α : Type} (r : Except Failure α) : TryDraw α := ExceptT.mk (pure r)

end TryDraw

/-- A random value of the corpus for a type. -/
def corpusValue (corpus : SeedCorpus) (type : String) : TryDraw Value := do
  let type ← TryDraw.ofExcept (AbiType.named type)
  let (result, a) ← TryDraw.draw ((Argument.fresh type).loadSeed corpus)
  TryDraw.ofExcept result
  return a.value

/-- A random value of the corpus for every parameter. -/
def corpusTuple (corpus : SeedCorpus) (inputs : List AbiParam) : TryDraw (List Value) :=
  inputs.mapM fun p => corpusValue corpus p.type

/-- Select from a ranked pool as many times as it has members. -/
def selectParents (rule : SelectionRule) (ranked : List Seed) : Draw (List Seed) :=
  ranked.filterMapM fun _ => select rule ranked

/-- Cross random pairs of parents, until there are `size` children or the attempts are used up. -/
def breed (parents : List Seed) (size : Nat) : (attempts : Nat) → List Seed → Draw (List Seed)
  | 0, children => pure children
  | attempts + 1, children =>
    if size ≤ children.length then pure children
    else do
      let first ← Draw.choose parents
      let second ← Draw.choose parents
      match first, second with
      | some first, some second =>
        match crossover first second with
        | some (a, b) => breed parents size attempts (children ++ [a, b])
        | none => breed parents size attempts children
      | _, _ => pure children

/-- At most `size` children of parents, of whom there must be three or more. -/
def offspring (parents : List Seed) (size : Nat) : Draw (List Seed) := do
  if parents.length > 2 then return (← breed parents size (2 * size) []).take size
  else return []

/-- The typed values of children, without those that have a text that is not a value. -/
def decodeChildren (inputs : List AbiParam) : List Seed → Except Failure (List (List Value))
  | [] => .ok []
  | child :: rest =>
    match deserializeAll inputs child with
    | .ok values => do return values :: (← decodeChildren inputs rest)
    | .error (.invalidValue _ _) => decodeChildren inputs rest
    | .error e => .error e

/-- As many random argument lists of the corpus as asked for. -/
def fillUp (corpus : SeedCorpus) (inputs : List AbiParam) : Nat → TryDraw (List (List Value))
  | 0 => pure []
  | missing + 1 => do
    let tuple ← corpusTuple corpus inputs
    return tuple :: (← fillUp corpus inputs missing)

/-- The recent inputs of a function, from best to worst. -/
def rankedSeeds (config : FuzzingConfig) (store : Store) (target : FunctionTarget)
    (signal : Signal) : List Seed :=
  let ranking := Ranking.ofContract target.contract signal config.policy
  (ranking.order (store.recentDone target.function (2 * config.seedsSize))).map (·.inputs)

/-- A batch of argument lists for a function. -/
def seedBatch (config : FuzzingConfig) (store : Store) (target : FunctionTarget)
    (signal : Signal) : TryDraw (List (List Value)) := do
  let size := config.seedsSize
  let ranked := rankedSeeds config store target signal
  let parents ← TryDraw.draw (selectParents config.selection ranked)
  let children ← TryDraw.draw (offspring parents size)
  let batch ← TryDraw.ofExcept (decodeChildren target.inputs children)
  return batch ++ (← fillUp config.seeds target.inputs (size - batch.length))

/-- A batch of argument lists for the function of an id. -/
def requestSeeds (config : FuzzingConfig) (store : Store) (function : FunctionId)
    (signal : Signal) : TryDraw (List (List Value)) := do
  let target ← TryDraw.ofExcept (store.resolve function)
  seedBatch config store target signal

end ContractFuzz
