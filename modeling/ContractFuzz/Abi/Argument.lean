import ContractFuzz.Abi.Mutator
import ContractFuzz.Sorted.Map
/-!
# Arguments

A call argument in the making: a type together with the current value, which is read, generated,
picked from a corpus and mutated.

## Main definitions

* `Argument`, `Argument.fresh`.
* `SeedCorpus`: values given in advance, by the declared name of their type.
* `Argument.deserialize`, `Argument.loadSeed`: reading, which may fail and then leaves the value.
* `Argument.generate`, `Argument.mutate`, `Argument.mutateSometimes`: random changes.
-/

namespace ContractFuzz

/-- The values given in advance, as texts, by the declared name of their type. -/
abbrev SeedCorpus := SortedMap String (List String)

/-- A type with a current value. -/
structure Argument where
  /-- The type. -/
  type : AbiType
  /-- The current value. -/
  value : Value

namespace Argument

/-- An argument that was not set yet. -/
def fresh (type : AbiType) : Argument := ⟨type, type.kind.zero⟩

/-- The serialized form of the current value. -/
def serialized (a : Argument) : String := a.value.serialized

/-- Take the value that a text stands for. If it stands for none, the value stays. -/
def deserialize (a : Argument) (raw : String) : Except Failure Unit × Argument :=
  match a.type.deserialize raw with
  | .ok v => (.ok (), { a with value := v })
  | .error e => (.error e, a)

/-- Take a random value of the corpus. -/
def loadSeed (a : Argument) (corpus : SeedCorpus) : Draw (Except Failure Unit × Argument) := do
  match ← Draw.choose ((corpus.get? a.type.name).getD []) with
  | some raw => return a.deserialize raw
  | none => return (.error (.missingSeeds a.type.name), a)

/-- Take a random value. -/
def generate (a : Argument) : Draw Argument := do
  return { a with value := ← a.type.kind.generate }

/-- Change the value by one of the mutators of its type. Says whether there was one. -/
def mutate (a : Argument) : Draw (Bool × Argument) := do
  match ← Draw.choose a.type.kind.mutators with
  | some m => return (true, { a with value := ← m.apply a.type.kind a.value })
  | none => return (false, a)

/-- Change the value with the given probability. Says whether it was changed. -/
def mutateSometimes (a : Argument) (chance : Float) : Draw (Bool × Argument) := do
  if (← Draw.fraction) ≥ chance then return (false, a) else a.mutate

end Argument

end ContractFuzz
