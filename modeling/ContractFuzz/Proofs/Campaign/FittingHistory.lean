import ContractFuzz.Proofs.Campaign.LaterWith
import ContractFuzz.Proofs.Campaign.Tracked
import ContractFuzz.Proofs.Seed.Fitting
/-!
# Stored history fits its functions

Whatever was submitted or deployed, the function that a transaction calls is stored, belongs to the
contract of its task, and its parameters accept the recorded inputs. Neither an analysis nor a
further registration changes that. So batches that are bred from recorded inputs never fail over the
number of their fields.

## Main definitions

* `Transaction.FitsIn` : a transaction that fits the function it calls.
* `Ledger.Fitting` : the invariant.

## Main results

* `Ledger.Move.fitting` : every move keeps all transactions fitting.
* `Campaign.Later.history_fits` : stored history fits in every state of a run.
-/

namespace ContractFuzz

/-! ### Functions and their parameters -/

/-- The parameters of a function are those of the interface definition. -/
theorem Contract.inputsOf_congr {k k' : Contract} (h : k'.abi = k.abi) (f : ContractFunction) :
    k'.inputsOf f = k.inputsOf f := by
  simp only [inputsOf, definition, h]

/-- The parameters of a function that is no constructor are those of its method. -/
theorem Contract.inputsOf_of_method {k : Contract} {f : ContractFunction} {d : AbiDefinition}
    {m : AbiMethod} (hdefinition : k.definition = .ok d) (hmethod : d.method f.name = .ok m)
    (callable : f.isConstructor = false) : k.inputsOf f = .ok m.inputs := by
  refine bind_eq_ok_iff.mpr ⟨d, hdefinition, ?_⟩
  rw [if_neg (ne_true_of_eq_false callable)]
  exact bind_eq_ok_iff.mpr ⟨m, hmethod, rfl⟩

/-- Neither a deployment nor an analysis changes the interface definition. -/
theorem Contract.abi_enriched (k : Contract) (config : Config) (d : Deployment)
    (graph : ControlFlowGraph) : (k.enriched config d graph).abi = k.abi := by
  unfold enriched attachAnalysis
  split <;> rfl

namespace Store

variable {s s' : Store} {f : ContractFunction}

theorem getFunction_of_mem (distinct : (s.functions.map (·.id)).Nodup) (h : f ∈ s.functions) :
    s.getFunction f.id = .ok f := by
  cases hfind : s.functions.find? (·.id == f.id) with
  | none => exact absurd (beq_self_eq_true f.id) (List.find?_eq_none.mp hfind f h)
  | some f' =>
    have hid : f'.id = f.id := by simpa using List.find?_some hfind
    obtain rfl := List.inj_on_of_nodup_map distinct (List.mem_of_find?_eq_some hfind) h hid
    rw [getFunction, hfind]
    rfl

/-- A stored function of a stored contract is found with its parameters. -/
theorem resolve_of_mem (distinct : (s.functions.map (·.id)).Nodup) (h : f ∈ s.functions)
    {k : Contract} (hk : s.contracts.get? f.contract = some k) {inputs : List AbiParam}
    (hinputs : k.inputsOf f = .ok inputs) : s.resolve f.id = .ok ⟨f.id, k, inputs⟩ := by
  refine bind_eq_ok_iff.mpr ⟨f, getFunction_of_mem distinct h, ?_⟩
  refine bind_eq_ok_iff.mpr ⟨k, getContract_eq_ok_iff.mpr hk, ?_⟩
  exact bind_eq_ok_iff.mpr ⟨inputs, hinputs, rfl⟩

/-- All functions and contracts are kept, the contracts with their tasks and interface
definitions. -/
structure Keeps (s s' : Store) : Prop where
  functions : ∀ f ∈ s.functions, f ∈ s'.functions
  contracts : ∀ {i k}, s.contracts.get? i = some k →
    ∃ k', s'.contracts.get? i = some k' ∧ k'.task = k.task ∧ k'.abi = k.abi

end Store

/-! ### Transactions -/

namespace Transaction

/-- What is asked for by a transaction: a call of a function with inputs, for a task. -/
def request (tx : Transaction) : TaskId × FunctionId × List String :=
  (tx.task, tx.function, tx.inputs)

/-- The function that is called is stored and belongs to the contract of the task, and its
parameters accept the inputs. -/
def FitsIn (tx : Transaction) (s : Store) : Prop :=
  ∃ f ∈ s.functions, ∃ k inputs, f.id = tx.function ∧ s.contracts.get? f.contract = some k ∧
    k.task = tx.task ∧ k.inputsOf f = .ok inputs ∧ Fits inputs tx.inputs

variable {tx new : Transaction} {s s' : Store}

theorem FitsIn.of_request (h : tx.FitsIn s) (same : new.request = tx.request) : new.FitsIn s := by
  obtain ⟨htask, hrest⟩ := Prod.mk.inj same
  obtain ⟨hfunction, hinputs⟩ := Prod.mk.inj hrest
  unfold FitsIn
  rw [htask, hfunction, hinputs]
  exact h

theorem FitsIn.keeps (h : tx.FitsIn s) (keeps : s.Keeps s') : tx.FitsIn s' := by
  obtain ⟨f, hf, k, inputs, hid, hk, htask, hinputs, fits⟩ := h
  obtain ⟨k', hk', htask', habi⟩ := keeps.contracts hk
  exact ⟨f, keeps.functions f hf, k', inputs, hid, hk', htask'.trans htask,
    (Contract.inputsOf_congr habi f).trans hinputs, fits⟩

end Transaction

/-- The node's answer does not change what is asked for. -/
theorem BatchOutcome.request_apply (o : BatchOutcome) (tx : Transaction) :
    (o.apply tx).request = tx.request := by
  rw [o.apply_eq]
  rfl

namespace Ledger

variable {config : Config} {Accepted : Task → Contract → Prop} {g g' : Ledger}

/-- A registration under a new id keeps all functions and contracts. -/
theorem keeps_register {task : Task} {contract : Contract} {definition : AbiDefinition}
    (newContract : g.store.contracts.get? contract.id = none) :
    g.store.Keeps (g.register task contract definition).store := by
  refine ⟨fun f hf => List.mem_append_left _ hf, fun {i k} hk => ⟨k, ?_, rfl, rfl⟩⟩
  refine SortedMap.get?_insert_eq_some_iff.mpr (.inr ⟨?_, hk⟩)
  rintro rfl
  rw [newContract] at hk
  cases hk

/-- So does what a contract learns of its deployment. -/
theorem keeps_enriched {contract : Contract}
    (hcontract : g.store.getContract contract.id = .ok contract) (config : Config)
    (d : Deployment) (graph : ControlFlowGraph) :
    g.store.Keeps (g.store.createContract (contract.enriched config d graph)) := by
  refine ⟨fun f hf => hf, fun {i k} hk => ?_⟩
  by_cases hi : i = contract.id
  · obtain rfl := Option.some.inj
      (hk.symm.trans (hi ▸ Store.getContract_eq_ok_iff.mp hcontract))
    exact ⟨_, SortedMap.get?_insert_eq_some_iff.mpr
        (.inl ⟨hi.trans (enriched_same k config d graph).1.symm, rfl⟩),
      (enriched_same k config d graph).2, k.abi_enriched config d graph⟩
  · refine ⟨k, SortedMap.get?_insert_eq_some_iff.mpr (.inr ⟨?_, hk⟩), rfl, rfl⟩
    rwa [(enriched_same contract config d graph).1]

/-- Functions have numbers of their own that were handed out before, and all transactions fit the
functions they call. -/
structure Fitting (g : Ledger) : Prop where
  distinct : (g.store.functions.map (·.id)).Nodup
  numbered : ∀ f ∈ g.store.functions, f.id.number < g.nextFunction
  fits : ∀ tx ∈ g.store.transactions, tx.FitsIn g.store

theorem fitting_empty : empty.Fitting where
  distinct := .nil
  numbered _ h := by cases h
  fits _ h := by cases h

namespace Fitting

/-- Transactions may be replaced by others with the same request, and further ones that fit may be
added. -/
theorem replace (h : g.Fitting) {txs : List Transaction}
    (kept : ∀ tx ∈ txs, tx.FitsIn g.store ∨
      ∃ old ∈ g.store.transactions, tx.request = old.request) :
    (g.withTransactions txs).Fitting where
  distinct := h.distinct
  numbered := h.numbered
  fits tx htx := by
    rcases kept tx htx with fits | ⟨old, hold, same⟩
    · exact fits
    · exact (h.fits old hold).of_request same

/-- Transactions that fit may be added, with any numbers. -/
theorem append (h : g.Fitting) {txs : List Transaction} (fits : ∀ tx ∈ txs, tx.FitsIn g.store)
    (next : Nat) :
    Fitting { g.withTransactions (g.store.transactions ++ txs) with nextTransaction := next } := by
  have added : (g.withTransactions (g.store.transactions ++ txs)).Fitting := by
    refine h.replace fun tx htx => ?_
    rcases List.mem_append.mp htx with htx | htx
    · exact .inr ⟨tx, htx, rfl⟩
    · exact .inl (fits tx htx)
  exact ⟨added.distinct, added.numbered, added.fits⟩

/-- One transaction may be replaced by another one with the same request. -/
theorem middle (h : g.Fitting) {before after : List Transaction} {tx new : Transaction}
    (split : g.store.transactions = before ++ tx :: after) (same : new.request = tx.request) :
    (g.withTransactions (before ++ new :: after)).Fitting := by
  refine h.replace ?_
  rw [split]
  exact forall_mem_middle_iff.mpr ⟨.inr (exists_mem_middle_iff.mpr (.inl same)),
    fun tx' htx' => .inr (exists_mem_middle_iff.mpr (.inr ⟨tx', htx', rfl⟩))⟩

/-- A contract may be registered under a new id, with functions that have the numbers that
follow. -/
theorem register (h : g.Fitting) {task : Task} {contract : Contract} {definition : AbiDefinition}
    (newContract : g.store.contracts.get? contract.id = none) :
    (g.register task contract definition).Fitting := by
  have numbers := definition.numbers_functions contract.id g.nextFunction
  exact ⟨RecordId.nodup_append h.distinct h.numbered numbers,
    RecordId.below_append h.numbered numbers,
    fun tx htx => (h.fits tx htx).keeps (keeps_register newContract)⟩

end Fitting

/-- The transactions of a batch ask for the generated inputs. -/
theorem exists_seed_of_mem_batch {first : Nat} {task : TaskId} {function : FunctionId}
    {clock : Nat → Instant} {seeds : List Seed} {outcome : BatchOutcome} {tx : Transaction}
    (h : tx ∈ (newBatch first task function clock seeds).map outcome.apply) :
    ∃ seed ∈ seeds, tx.request = (task, function, seed) := by
  obtain ⟨number, time, seed, hseed, rfl⟩ := exists_of_mem_batch h
  exact ⟨seed, hseed, outcome.request_apply _⟩

/-- Every move but a registration keeps all transactions fitting. -/
theorem Move.fitting (sound : g.Sound) (h : g.Fitting)
    (move : Move config (fun _ _ => False) g g') : g'.Fitting := by
  cases move with
  | register new accepted hdefinition => exact accepted.elim
  | start now htask created => exact ⟨h.distinct, h.numbered, h.fits⟩
  | finish htask running expired => exact ⟨h.distinct, h.numbered, h.fits⟩
  | request hcontract analyzed => exact ⟨h.distinct, h.numbered, h.fits⟩
  | expire task cutoff =>
    refine h.replace fun tx' htx' => .inr ?_
    obtain ⟨tx, htx, rfl⟩ := List.mem_map.mp htx'
    refine ⟨tx, htx, ?_⟩
    split <;> rfl
  | @deploy task contract constructor definition source values texts now hash started htask
      hcontract hconstructor hdefinition drawn =>
    obtain ⟨hstored, hown⟩ := sound.contractOfTask_eq_ok_iff.mp hcontract
    obtain ⟨hmem, hkind, hof⟩ := Store.constructorOf_eq_ok hconstructor
    have hinputs : contract.inputsOf constructor = .ok definition.constructorInputs := by
      refine bind_eq_ok_iff.mpr ⟨definition, hdefinition, ?_⟩
      rw [if_pos hkind]
      rfl
    have fits : Fits definition.constructorInputs texts :=
      ⟨values, always_constructorArguments task _ source (values, texts) drawn⟩
    refine h.append (List.forall_mem_singleton.mpr ?_) _
    exact ⟨constructor, hmem, contract, _, rfl, hof ▸ hstored, hown, hinputs, fits⟩
  | @enrich contract d graph tx hcontract hgraph last htask hashed =>
    exact ⟨h.distinct, h.numbered,
      fun tx htx => (h.fits tx htx).keeps (keeps_enriched hcontract config d graph)⟩
  | @submit task contract definition function method source generated clock outcome requested
      htask running hcontract hdefinition candidate hmethod drawn =>
    obtain ⟨hstored, hown⟩ := sound.contractOfTask_eq_ok_iff.mp hcontract
    obtain ⟨hfunction, hkind⟩ := mem_of_mem_candidates candidate
    obtain ⟨hmem, hof⟩ := List.mem_filter.mp hfunction
    have hinputs := Contract.inputsOf_of_method hdefinition hmethod hkind
    obtain ⟨-, hread⟩ := always_generateBatch _ _ _ _ _ source generated drawn
    refine h.append (fun tx htx => ?_) _
    obtain ⟨seed, hseed, same⟩ := exists_seed_of_mem_batch htx
    obtain ⟨r, hr, rfl⟩ := List.mem_map.mp hseed
    have fits : Fits method.inputs r.1 := ⟨r.2, hread r hr⟩
    obtain ⟨heqtask, hrest⟩ := Prod.mk.inj same
    obtain ⟨heqfunction, heqinputs⟩ := Prod.mk.inj hrest
    exact ⟨function, hmem, contract, _, heqfunction.symm, (beq_iff_eq.mp hof) ▸ hstored,
      hown.trans heqtask.symm, hinputs, heqinputs ▸ fits⟩
  | @record before after tx hash task contract executed split hashed first unrecorded htask
      hcontract =>
    have same : (tx.recorded config.fuzzing.critical contract task.executed executed).request =
        tx.request := rfl
    have recorded := h.middle split same
    exact ⟨recorded.distinct, recorded.numbered, recorded.fits⟩
  | weaken new split hashed first => exact h.middle split rfl

/-- No move but a registration adds functions or contracts, and all of them are kept. -/
theorem Move.keeps (move : Move config (fun _ _ => False) g g') :
    g'.store.functions = g.store.functions ∧ g.store.Keeps g'.store := by
  cases move with
  | register new accepted hdefinition => exact accepted.elim
  | @enrich contract d graph tx hcontract hgraph last htask hashed =>
    exact ⟨rfl, keeps_enriched hcontract config d graph⟩
  | _ => exact ⟨rfl, fun _ hf => hf, fun {_ k} hk => ⟨k, hk, rfl, rfl⟩⟩

end Ledger

/-! ### Runs -/

namespace Campaign

variable {ω : Type} {e : Engine ω} {c : Campaign ω} {world : ω} {deployer fuzzer : Source}

/-- In every state of a run, all transactions fit the functions they call. -/
theorem Later.fitting (h : Later e (initial world deployer fuzzer) c) : c.ledger.Fitting := by
  refine h.laterWith.invariant (J := Ledger.Fitting) (sound_initial world deployer fuzzer) ?_ ?_ ?_
  · exact ledger_initial world deployer fuzzer ▸ Ledger.fitting_empty
  · exact fun _ fitting _ _ newContract _ => fitting.register newContract
  · exact fun sound fitting move => move.fitting sound fitting

/-- In every state of a run, the function that a transaction calls is stored and belongs to the
contract of the transaction's task, and its parameters accept the recorded inputs. So under no
configuration and for no function does a batch fail because recorded inputs do not have one field
for each parameter. -/
theorem Later.history_fits (h : Later e (initial world deployer fuzzer) c) :
    (∀ tx ∈ c.store.transactions, ∃ f k inputs values,
      c.store.getFunction tx.function = .ok f ∧ c.store.contractOfTask tx.task = .ok k ∧
      f.contract = k.id ∧ k.inputsOf f = .ok inputs ∧
      deserializeAll inputs tx.inputs = .ok values) ∧
    ∀ config function signal source expected found,
      ((requestSeeds config c.store function signal).run source).1 ≠
        .error (.seedArity expected found) := by
  have sound : c.ledger.Sound := h.sound
  have fitting : c.ledger.Fitting := h.fitting
  have distinct : (c.store.functions.map (·.id)).Nodup := fitting.distinct
  constructor
  · intro tx htx
    obtain ⟨f, hf, k, inputs, hid, hk, htask, hinputs, values, hvalues⟩ := fitting.fits tx htx
    have hkid : k.id = f.contract := sound.contractNamed hk
    exact ⟨f, k, inputs, values, hid ▸ Store.getFunction_of_mem distinct hf,
      sound.contractOfTask_eq_ok_iff.mpr ⟨hkid ▸ hk, htask⟩, hkid.symm, hinputs, hvalues⟩
  · intro config function signal source expected found failed
    -- A batch is bred from finished transactions of the function, which fit it, so they have as
    -- many fields as it has parameters.
    have noArity : (Failure.seedArity expected found).isSeedArity = false := by
      refine failsOnly_requestSeeds (fun target htarget tx htx => ?_) signal source _ failed
      have hfinished := (areNewest_recentDone function _ c.store).mem htx
      obtain ⟨hmem, hof⟩ := List.mem_filter.mp hfinished
      have hfunction : tx.function = function := beq_iff_eq.mp (Bool.and_eq_true_iff.mp hof).1
      obtain ⟨f, hf, k, inputs, hid, hk, -, hinputs, fits⟩ := fitting.fits tx hmem
      have hresolved := Store.resolve_of_mem distinct hf hk hinputs
      rw [hid, hfunction] at hresolved
      obtain rfl := Except.ok.inj (hresolved.symm.trans htarget)
      exact fits.length_eq
    cases noArity

/-- In the short campaign, the deployment took no inputs and the function one each. -/
theorem history_fits_switchCampaign :
    switchCampaign.store.transactions.map (fun tx => (tx.function.number, tx.inputs.length)) =
      [(0, 0), (1, 1), (1, 1)] ∧
    (∀ tx ∈ switchCampaign.store.transactions, ∃ f k inputs values,
      switchCampaign.store.getFunction tx.function = .ok f ∧
      switchCampaign.store.contractOfTask tx.task = .ok k ∧
      f.contract = k.id ∧ k.inputsOf f = .ok inputs ∧
      deserializeAll inputs tx.inputs = .ok values) ∧
    ∀ config signal source expected found,
      ((requestSeeds config switchCampaign.store ⟨1⟩ signal).run source).1 ≠
        .error (.seedArity expected found) := by
  have laterWith : LaterWith switchEngine (fun _ _ => True)
      (initial switchWorld (.ofSeed 0) (.ofSeed 0)) switchCampaign :=
    laterWith_switchCampaign trivial
  obtain ⟨fits, arity⟩ := laterWith.later.history_fits
  exact ⟨by decide +kernel, fits, fun config => arity config ⟨1⟩⟩

end Campaign

end ContractFuzz
