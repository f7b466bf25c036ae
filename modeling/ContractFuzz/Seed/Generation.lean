import ContractFuzz.Seed.Schedule
/-!
# Generation of inputs

What each strategy makes of corpus, history and chance: one argument list for a function.

## Main definitions

* `generateInput`: the arguments that a strategy generates.
* `FuzzingConfig.enabledStrategies`, `FuzzingConfig.require`: which strategies may be used.
* `chooseFunction`: the function to call.
-/

namespace ContractFuzz

/-- The probability with which the genetic algorithm changes a parameter. -/
def mutationChance : Float := 0.1

/-- Change the value of a parameter. -/
def mutateValue (p : AbiParam) (v : Value) : TryDraw Value := do
  let type ← TryDraw.ofExcept (AbiType.named p.type)
  return (← TryDraw.draw (Argument.mk type v).mutate).2.value

/-- Change the value of a parameter with the probability of a mutation. -/
def mutateValueSometimes (p : AbiParam) (v : Value) : TryDraw Value := do
  let type ← TryDraw.ofExcept (AbiType.named p.type)
  return (← TryDraw.draw ((Argument.mk type v).mutateSometimes mutationChance)).2.value

/-- A changed value of the corpus for every parameter. -/
def blackboxInput (config : FuzzingConfig) (target : FunctionTarget) : TryDraw (List Value) :=
  target.inputs.mapM fun p => do mutateValue p (← corpusValue config.seeds p.type)

/-- Any member of a batch, with every value changed. -/
def greyboxInput (config : FuzzingConfig) (store : Store) (target : FunctionTarget)
    (signal : Signal) : TryDraw (List Value) := do
  match ← TryDraw.draw (Draw.choose (← seedBatch config store target signal)) with
  | some values => (target.inputs.zip values).mapM fun (p, v) => mutateValue p v
  | none => return []

/-- A member of a batch selected by rank, with some values changed. -/
def geneticInput (config : FuzzingConfig) (store : Store) (target : FunctionTarget) :
    TryDraw (List Value) := do
  let batch ← seedBatch config store target .distanceCoverage
  match ← TryDraw.draw (select config.selection batch) with
  | some values => (target.inputs.zip values).mapM fun (p, v) => mutateValueSometimes p v
  | none => return []

/-- The arguments that a strategy generates for a function. -/
def generateInput (config : FuzzingConfig) (store : Store) (strategy : Strategy)
    (function : FunctionId) : TryDraw (List Value) := do
  let target ← TryDraw.ofExcept (store.resolve function)
  match strategy with
  | .blackbox => blackboxInput config target
  | .greybox => greyboxInput config store target .coverage
  | .directedGreybox => greyboxInput config store target .distance
  | .otherDirectedGreybox => greyboxInput config store target .distanceCoverage
  | .geneticAlgorithm => geneticInput config store target

namespace FuzzingConfig

/-- The strategies that may be used, in their order and without repetition. -/
def enabledStrategies (config : FuzzingConfig) : List Strategy :=
  Strategy.all.filter config.enabled.contains

/-- Check that a strategy may be used. -/
def require (config : FuzzingConfig) (strategy : Strategy) : Except Failure Unit :=
  if config.enabled.contains strategy then .ok () else .error (.strategyNotFound strategy)

end FuzzingConfig

/-- The functions from which one is chosen: those that accept payments if there are any, else all.
Constructors are left out. -/
def candidates (functions : List ContractFunction) : List ContractFunction :=
  let callable := functions.filter (!·.isConstructor)
  let payable := callable.filter (·.payable)
  if payable.isEmpty then callable else payable

/-- A random function to call. -/
def chooseFunction (functions : List ContractFunction) : Draw (Option ContractFunction) :=
  Draw.choose (candidates functions)

end ContractFuzz
