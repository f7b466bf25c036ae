import ContractFuzz.Campaign.Listening
import ContractFuzz.Proofs.Seed.Batch
/-!
# Generated arguments survive recording

Before they are submitted, generated arguments are written as texts and read back, so that what is
submitted is what is recorded. Neither step can fail or change anything: a batch is the same as if
both were left out.

## Main definitions

* `directBatch` : a batch of arguments as they were generated.

## Main results

* `generateInput_recorded` : generated arguments are read back from their texts unchanged.
-/

namespace ContractFuzz

/-- As many inputs as a batch has, taken as they are generated. -/
def directBatch (config : FuzzingConfig) (strategy : Strategy) (function : FunctionId)
    (store : Store) : TryDraw (List (Seed × List Value)) := do
  TryDraw.ofExcept (config.require strategy)
  (List.replicate config.batchSize ()).mapM fun _ => do
    let generated ← generateInput config store strategy function
    return (generated.map Value.serialized, generated)

/-- One generated input is its texts together with the arguments as they were generated. -/
theorem generateOne_eq {config : FuzzingConfig} (hsize : 0 < config.seedsSize) {store : Store}
    {strategy : Strategy} {function : FunctionId} {target : FunctionTarget}
    (h : store.resolve function = .ok target) :
    generateOne config store strategy function target.inputs = do
      let generated ← generateInput config store strategy function
      return (generated.map Value.serialized, generated) := by
  refine TryDraw.bind_congr_of_always (always_generateInput hsize store strategy function) ?_
  rintro values ⟨target', htarget, hvalues⟩
  obtain rfl := Except.ok.inj (h.symm.trans htarget)
  rw [serializeAll_eq_ok hvalues]
  change (do
    let read ← TryDraw.ofExcept (deserializeAll target.inputs (values.map Value.serialized))
    return (values.map Value.serialized, read)) = _
  rw [deserializeAll_serialized hvalues]
  rfl

/-- What any strategy generates has one value for each parameter, is written without failure and
read back unchanged. So a batch is never given up over its own texts: it is the batch of the
arguments as they are generated. -/
theorem generateInput_recorded {config : FuzzingConfig} (hsize : 0 < config.seedsSize)
    (store : Store) (strategy : Strategy) (function : FunctionId) :
    (∀ source values,
      ((generateInput config store strategy function).run source).1 = .ok values →
        ∃ target texts, store.resolve function = .ok target ∧
          values.length = target.inputs.length ∧
          serializeAll target.inputs values = .ok texts ∧
          deserializeAll target.inputs texts = .ok values) ∧
    ∀ target, store.resolve function = .ok target →
      generateBatch config strategy function target.inputs store =
        directBatch config strategy function store := by
  refine ⟨fun source values h => ?_, fun target htarget => ?_⟩
  · obtain ⟨target, htarget, hvalues⟩ :=
      always_generateInput hsize store strategy function source values h
    exact ⟨target, values.map Value.serialized, htarget, hvalues.length_eq.symm,
      serializeAll_eq_ok hvalues, deserializeAll_serialized hvalues⟩
  · rw [generateBatch, directBatch]
    simp only [generateOne_eq hsize htarget]

/-- A store with a contract whose one function takes a truth value. -/
def switchStore : Store where
  tasks := .empty
  contracts := .insert .empty ⟨0⟩
    (.new ⟨0⟩ ⟨0⟩ "Switch" "[[\"function\",\"set\",[[\"on\",\"bool\"]]]]")
  functions := [⟨⟨0⟩, ⟨0⟩, "set", 1, false, false⟩]
  transactions := []

/-- A configuration whose corpus has one truth value. -/
def switchConfig : FuzzingConfig :=
  { FuzzingConfig.default with seeds := .insert .empty "bool" ["true"] }

/-- Whether a truth value was generated, and it is false. -/
private def isSwitchedOff : Except Failure (List Value) → Bool
  | .ok [.bool false] => true
  | _ => false

private theorem eq_of_isSwitchedOff {r : Except Failure (List Value)}
    (h : isSwitchedOff r = true) : r = .ok [.bool false] := by
  unfold isSwitchedOff at h
  split at h
  · rfl
  · cases h

theorem generateInput_switchStore :
    0 < switchConfig.seedsSize ∧
    ((generateInput switchConfig switchStore .blackbox ⟨0⟩).run default).1 = .ok [.bool false] ∧
    ∃ target texts, switchStore.resolve ⟨0⟩ = .ok target ∧
      [Value.bool false].length = target.inputs.length ∧
      serializeAll target.inputs [.bool false] = .ok texts ∧
      deserializeAll target.inputs texts = .ok [.bool false] := by
  have hsize : 0 < switchConfig.seedsSize := by decide
  have hrun : ((generateInput switchConfig switchStore .blackbox ⟨0⟩).run default).1 =
      .ok [.bool false] :=
    eq_of_isSwitchedOff (by decide +kernel)
  exact ⟨hsize, hrun,
    (generateInput_recorded hsize switchStore .blackbox ⟨0⟩).1 default [.bool false] hrun⟩

end ContractFuzz
