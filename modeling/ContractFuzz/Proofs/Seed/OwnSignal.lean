import ContractFuzz.Proofs.Random.Always
import ContractFuzz.Proofs.Outcome
import ContractFuzz.Proofs.Seed.History
import ContractFuzz.Proofs.Seed.Recorded
/-!
# What a strategy reacts to

A strategy looks at the recent inputs of its function and at what its signal shows of them. Two
stores that agree on this give the same inputs and leave the source at the same place, whatever else
they hold.

## Main definitions

* `Signal.shows`, `Signal.Alike` : what a signal shows of a transaction, and which look the same.
* `Strategy.signal?` : the signal of a strategy.
* `SameTarget`, `AlikeRecently` : two stores agree on a function and its contract, and the recent
  transactions of the function are alike in both.

## Main results

* `Ranking.score_congr` : a score is made of what the signal shows.
* `Ranking.map_inputs_order` : so is the order of the inputs after ranking.
* `ownSignal_decides` : nothing else has an influence on what is generated.
-/

namespace ContractFuzz

/-- The achievements of a transaction that a signal shows. -/
def Signal.shows : Signal → Transaction → List Nat
  | .coverage, tx => [tx.executed.size]
  | .distance, tx => [gainedHops tx.distanceGain]
  | .distanceCoverage, tx => [tx.hits, tx.executed.size, gainedHops tx.distanceGain]

/-- Two transactions with the same inputs that look the same to a signal. -/
structure Signal.Alike (signal : Signal) (a b : Transaction) : Prop where
  inputs : a.inputs = b.inputs
  shown : signal.shows a = signal.shows b

/-- The signal that a strategy ranks seeds by, if it looks at any. -/
def Strategy.signal? : Strategy → Option Signal
  | blackbox => none
  | greybox => some .coverage
  | directedGreybox => some .distance
  | otherDirectedGreybox => some .distanceCoverage
  | geneticAlgorithm => some .distanceCoverage

/-- Two stores that agree on a function and on its contract, with the interface and the analysis of
it. -/
structure SameTarget (store store' : Store) (function : FunctionId) : Prop where
  getFunction_eq : store'.getFunction function = store.getFunction function
  getContract_eq : ∀ f, store.getFunction function = .ok f →
    store'.getContract f.contract = store.getContract f.contract

/-! ### Scores -/

/-- Transactions that look the same to its signal have the same score. -/
theorem Ranking.score_congr (r : Ranking) {a b : Transaction}
    (h : r.signal.shows a = r.signal.shows b) : r.score a = r.score b := by
  unfold score hitsRatio coverageRatio distanceRatio
  revert h
  cases r.signal with
  | coverage =>
    intro h
    obtain ⟨hexecuted, -⟩ := List.cons.inj h
    simp only [hexecuted]
  | distance =>
    intro h
    obtain ⟨hgained, -⟩ := List.cons.inj h
    simp only [hgained]
  | distanceCoverage =>
    intro h
    obtain ⟨hhits, h⟩ := List.cons.inj h
    obtain ⟨hexecuted, h⟩ := List.cons.inj h
    obtain ⟨hgained, -⟩ := List.cons.inj h
    simp only [hhits, hexecuted, hgained]

/-- Lists of transactions that look the same at every place have the same inputs in the same order
after ranking. -/
theorem Ranking.map_inputs_order (r : Ranking) {txs txs' : List Transaction}
    (h : List.Forall₂ r.signal.Alike txs txs') :
    (r.order txs).map (·.inputs) = (r.order txs').map (·.inputs) := by
  -- A list is ranked by what is kept of each transaction: its score and its inputs.
  let view : Transaction → Binary64 × Seed := fun tx => (r.score tx, tx.inputs)
  let le : Binary64 × Seed → Binary64 × Seed → Bool := fun x y => decide (y.1.rank ≤ x.1.rank)
  have hview : txs.map view = txs'.map view := by
    rw [← List.forall₂_eq_eq_eq, List.forall₂_map_left_iff, List.forall₂_map_right_iff]
    exact h.imp fun a b hab => Prod.ext (r.score_congr hab.shown) hab.inputs
  have hrank (l : List Transaction) :
      (r.order l).map (·.inputs) = ((l.map view).mergeSort le).map Prod.snd := by
    have hsort : (r.order l).map view = (l.map view).mergeSort le :=
      List.map_mergeSort fun _ _ _ _ => rfl
    rw [← hsort, List.map_map]
    rfl
  rw [hrank, hrank, hview]

/-! ### Targets -/

theorem SameTarget.resolve_eq {store store' : Store} {function : FunctionId}
    (same : SameTarget store store' function) :
    store'.resolve function = store.resolve function := by
  unfold Store.resolve
  rw [same.getFunction_eq]
  cases hfunction : store.getFunction function with
  | error e => rfl
  | ok f =>
    change store'.getContract f.contract >>= _ = store.getContract f.contract >>= _
    rw [same.getContract_eq f hfunction]

/-- Stores with the same contracts and functions agree on all functions. -/
theorem SameTarget.of_tables {store store' : Store} {function : FunctionId}
    (contracts : store'.contracts = store.contracts)
    (functions : store'.functions = store.functions) : SameTarget store store' function where
  getFunction_eq := by rw [Store.getFunction, Store.getFunction, functions]
  getContract_eq f _ := by rw [Store.getContract, Store.getContract, contracts]

/-- The target of a function's id is that function. -/
theorem function_of_resolve {store : Store} {function : FunctionId} {target : FunctionTarget}
    (h : store.resolve function = .ok target) : target.function = function := by
  obtain ⟨f, -, h⟩ := bind_eq_ok_iff.mp h
  obtain ⟨contract, -, h⟩ := bind_eq_ok_iff.mp h
  obtain ⟨inputs, -, h⟩ := bind_eq_ok_iff.mp h
  exact Except.ok.inj h ▸ rfl

/-! ### Batches and inputs -/

section Alike

variable {config : FuzzingConfig} {store store' : Store} {function : FunctionId} {signal : Signal}

/-- The transactions at which a batch for a function looks are alike at every place: the newest
finished ones of the function, twice as many as the batch is to have. -/
def AlikeRecently (config : FuzzingConfig) (function : FunctionId) (signal : Signal)
    (store store' : Store) : Prop :=
  List.Forall₂ signal.Alike (store.recentDone function (2 * config.seedsSize))
    (store'.recentDone function (2 * config.seedsSize))

/-- A batch depends on the store through the window of the function only. -/
theorem seedBatch_congr {target : FunctionTarget}
    (h : AlikeRecently config target.function signal store store') :
    seedBatch config store' target signal = seedBatch config store target signal := by
  have hranked : rankedSeeds config store' target signal =
      rankedSeeds config store target signal :=
    ((Ranking.ofContract target.contract signal config.policy).map_inputs_order h).symm
  unfold seedBatch
  rw [hranked]

theorem requestSeeds_eq_of_alike (same : SameTarget store store' function)
    (h : AlikeRecently config function signal store store') :
    requestSeeds config store' function signal = requestSeeds config store function signal := by
  unfold requestSeeds
  rw [same.resolve_eq]
  refine TryDraw.bind_congr_of_always (TryDraw.always_ofExcept fun _ h => h)
    fun target htarget => ?_
  obtain rfl := function_of_resolve htarget
  exact seedBatch_congr h

/-- A strategy needs to know of the recent transactions what its signal shows, or nothing if it has
no signal. -/
theorem generateInput_eq_of_alike {strategy : Strategy} (same : SameTarget store store' function)
    (h : ∀ signal ∈ strategy.signal?, AlikeRecently config function signal store store') :
    generateInput config store' strategy function =
      generateInput config store strategy function := by
  unfold generateInput
  rw [same.resolve_eq]
  refine TryDraw.bind_congr_of_always (TryDraw.always_ofExcept fun _ h => h)
    fun target htarget => ?_
  obtain rfl := function_of_resolve htarget
  cases strategy with
  | blackbox => rfl
  | greybox => simp only [greyboxInput, seedBatch_congr (h .coverage rfl)]
  | directedGreybox => simp only [greyboxInput, seedBatch_congr (h .distance rfl)]
  | otherDirectedGreybox => simp only [greyboxInput, seedBatch_congr (h .distanceCoverage rfl)]
  | geneticAlgorithm => simp only [geneticInput, seedBatch_congr (h .distanceCoverage rfl)]

/-- Of two stores that agree on a function and its contract, a batch is the same whenever the recent
transactions of the function have the same inputs and look the same to the signal, place by place:
the same values or the same failure, and the same is left of the source. So are the inputs that a
strategy with this signal generates; those of the strategy without a signal are always the same. -/
theorem ownSignal_decides (same : SameTarget store store' function) (config : FuzzingConfig) :
    (∀ signal, AlikeRecently config function signal store store' →
      (∀ source, (requestSeeds config store' function signal).run source =
        (requestSeeds config store function signal).run source) ∧
      ∀ strategy : Strategy, strategy.signal? = some signal → ∀ source,
        (generateInput config store' strategy function).run source =
          (generateInput config store strategy function).run source) ∧
    ∀ source, (generateInput config store' .blackbox function).run source =
      (generateInput config store .blackbox function).run source := by
  refine ⟨fun signal h => ⟨fun source => ?_, fun strategy hsignal source => ?_⟩, fun source => ?_⟩
  · rw [requestSeeds_eq_of_alike same h]
  · have hall : ∀ s ∈ strategy.signal?, AlikeRecently config function s store store' := by
      intro s hs
      obtain rfl := Option.some.inj (hsignal.symm.trans hs)
      exact h
    rw [generateInput_eq_of_alike same hall]
  · rw [generateInput_eq_of_alike same fun _ h => by cases h]

end Alike

/-- A finished call of the switch. -/
def switchCall (number : Nat) (on : String) (executed : List Pc) : Transaction :=
  { Transaction.new ⟨number⟩ ⟨0⟩ ⟨0⟩ [on] .epoch with
    status := .done
    executed := .ofList executed }

/-- The switch was turned on and off, and nothing else happened. -/
def quietHistory : Store :=
  { switchStore with transactions := [switchCall 0 "true" [1, 2], switchCall 1 "false" [1]] }

/-- The same calls executed as many other instructions and more of them critical ones. There are an
older call, a call of another function and one that is not finished. -/
def noisyHistory : Store :=
  { switchStore with
    transactions := [
      switchCall 2 "false" [1, 2, 3, 4],
      { switchCall 3 "true" [7, 9] with
        hash := some "h"
        weaknesses := .ofList ["freezing_ether"]
        hits := 5 },
      { switchCall 4 "true" [5] with status := .running },
      { switchCall 5 "false" [8] with distanceGain := 3 },
      { switchCall 6 "true" [6] with function := ⟨1⟩ }] }

/-- A configuration that looks at two calls. -/
def narrowConfig : FuzzingConfig := { switchConfig with seedsSize := 1 }

theorem ownSignal_decides_noisyHistory :
    SameTarget quietHistory noisyHistory ⟨0⟩ ∧
    (∀ source, (requestSeeds narrowConfig noisyHistory ⟨0⟩ .coverage).run source =
      (requestSeeds narrowConfig quietHistory ⟨0⟩ .coverage).run source) ∧
    ∀ source, (generateInput narrowConfig noisyHistory .greybox ⟨0⟩).run source =
      (generateInput narrowConfig quietHistory .greybox ⟨0⟩).run source := by
  have same : SameTarget quietHistory noisyHistory ⟨0⟩ := .of_tables rfl rfl
  have alike : AlikeRecently narrowConfig ⟨0⟩ .coverage quietHistory noisyHistory := by
    rw [AlikeRecently, Store.recentDone_of_inOrder (by decide +kernel),
      Store.recentDone_of_inOrder (by decide +kernel)]
    exact .cons ⟨rfl, rfl⟩ (.cons ⟨rfl, rfl⟩ .nil)
  obtain ⟨hbatch, hinput⟩ := (ownSignal_decides same narrowConfig).1 .coverage alike
  exact ⟨same, hbatch, hinput .greybox rfl⟩

end ContractFuzz
