import ContractFuzz.Proofs.Campaign.DeploymentRecord
import Mathlib.Data.List.Nodup
/-!
# Tracked deployments

A ledger tracks deployments if every analyzed contract knows where it was deployed last. Here is
what keeps it so. A deployment and what its contract learns of it are one step here: in between, the
new deployment is stored, but its contract still knows the one before.

## Main definitions

* `Store.deploymentHashes` : the hashes of the deployments for a task.
* `Contract.UpToDate` : a contract that knows the last one of them.
* `Ledger.Tracked` : all analyzed contracts do.
* `Ledger.Untouched` : nothing has happened that matters for this.

## Main results

* `Ledger.Tracked.untouched`, `Ledger.Tracked.append` : steps that are no deployments.
* `Ledger.Tracked.deploy`, `Ledger.Tracked.register` : deployments, and new contracts.
-/

namespace ContractFuzz

/-! ### Deployments for a task -/

namespace Store

/-- Whether a function is a constructor. -/
def isConstructor (s : Store) (function : FunctionId) : Bool :=
  s.functions.any fun f => f.id == function && f.isConstructor

/-- The hashes of the deployments for a task, that is, of its calls of constructors. -/
def deploymentHashes (task : TaskId) (s : Store) : List (Option String) :=
  ((s.transactionsOf task).filter fun tx => s.isConstructor tx.function).map (·.hash)

end Store

/-- A contract that has an address, and the hash of the last deployment for its task. -/
def Contract.UpToDate (k : Contract) (s : Store) : Prop :=
  ∀ hash, (s.deploymentHashes k.task).getLast? = some hash →
    k.address.isSome = true ∧ k.deployment = hash

/-- What a transaction calls, for which task and under which hash. -/
def Transaction.call (tx : Transaction) : TaskId × FunctionId × Option String :=
  (tx.task, tx.function, tx.hash)

namespace Store

variable {s s' : Store} {task : TaskId} {txs : List Transaction}

theorem deploymentHashes_congr (functions : s'.functions = s.functions)
    (calls : s'.transactions.map Transaction.call = s.transactions.map Transaction.call) :
    s'.deploymentHashes task = s.deploymentHashes task := by
  have hcalls : ∀ s : Store, s.deploymentHashes task = ((s.transactions.map Transaction.call).filter
      fun call => s.isConstructor call.2.1 && call.1 == task).map (·.2.2) := by
    intro s
    rw [deploymentHashes, transactionsOf, List.filter_filter, List.filter_map, List.map_map]
    rfl
  rw [hcalls, hcalls, calls]
  unfold isConstructor
  rw [functions]

theorem isConstructor_of_mem (distinct : (s.functions.map (·.id)).Nodup) {f : ContractFunction}
    (h : f ∈ s.functions) : s.isConstructor f.id = f.isConstructor := by
  refine Bool.eq_iff_iff.mpr ⟨fun hany => ?_, fun hf => ?_⟩
  · obtain ⟨f', hf', heq⟩ := List.any_eq_true.mp hany
    obtain ⟨hid, hconstructor⟩ := Bool.and_eq_true_iff.mp heq
    obtain rfl := List.inj_on_of_nodup_map distinct hf' h (beq_iff_eq.mp hid)
    exact hconstructor
  · exact List.any_eq_true.mpr ⟨f, h, Bool.and_eq_true_iff.mpr ⟨beq_self_eq_true _, hf⟩⟩

/-- Further transactions are deployments if they call constructors. -/
theorem deploymentHashes_createTransactions (txs : List Transaction) :
    (s.createTransactions txs).deploymentHashes task = s.deploymentHashes task ++
      ((txs.filter fun tx => s.isConstructor tx.function && tx.task == task).map (·.hash)) := by
  rw [deploymentHashes, deploymentHashes, transactionsOf, transactionsOf, List.filter_filter,
    List.filter_filter, ← List.map_append, ← List.filter_append]
  rfl

/-- The call of a constructor is the last deployment for its task. -/
theorem deploymentHashes_createTransaction {tx : Transaction}
    (h : s.isConstructor tx.function = true) :
    (s.createTransaction tx).deploymentHashes tx.task =
      s.deploymentHashes tx.task ++ [tx.hash] := by
  refine (deploymentHashes_createTransactions [tx]).trans (congrArg (_ ++ ·) ?_)
  rw [List.filter_cons_of_pos (by rw [h, beq_self_eq_true]; rfl)]
  rfl

/-- Calls of other functions, and those for other tasks, are no deployments. -/
theorem deploymentHashes_of_forall
    (h : ∀ tx ∈ txs, tx.task = task → s.isConstructor tx.function = false) :
    (s.createTransactions txs).deploymentHashes task = s.deploymentHashes task := by
  rw [deploymentHashes_createTransactions, List.filter_eq_nil_iff.mpr, List.map_nil,
    List.append_nil]
  intro tx htx hboth
  obtain ⟨hconstructor, htask⟩ := Bool.and_eq_true_iff.mp hboth
  rw [h tx htx (beq_iff_eq.mp htask)] at hconstructor
  cases hconstructor

theorem constructorOf_eq_ok {contract : ContractId} {f : ContractFunction}
    (h : s.constructorOf contract = .ok f) :
    f ∈ s.functions ∧ f.isConstructor = true ∧ f.contract = contract := by
  have hfind := orMissing_eq_ok_iff.mp h
  have hboth := List.find?_some hfind
  obtain ⟨hcontract, hconstructor⟩ := Bool.and_eq_true_iff.mp hboth
  exact ⟨List.mem_of_find?_eq_some hfind, hconstructor, beq_iff_eq.mp hcontract⟩

end Store

/-- Functions that can be called are no constructors. -/
theorem mem_of_mem_candidates {functions : List ContractFunction} {f : ContractFunction}
    (h : f ∈ candidates functions) : f ∈ functions ∧ f.isConstructor = false := by
  have callable : f ∈ functions.filter (!·.isConstructor) := by
    unfold candidates at h
    dsimp only at h
    split at h
    · exact h
    · exact (List.mem_filter.mp h).1
  obtain ⟨hmem, hconstructor⟩ := List.mem_filter.mp callable
  exact ⟨hmem, (Bool.not_eq_true' _).mp hconstructor⟩

/-- The functions of a contract are numbered one after the other. -/
theorem AbiDefinition.numbers_functions (d : AbiDefinition) (contract : ContractId) (first : Nat) :
    (d.functions contract first).map (·.id.number) =
      List.range' first (d.methods.size + 1) := by
  have hlength : d.methods.values.length = d.methods.size := List.length_map _
  refine List.ext_getElem (by simp [functions, hlength]) fun i h₁ h₂ => ?_
  cases i with
  | zero => simp [functions, constructorRecord]
  | succ i => simp [functions, methodRecord]; omega

/-! ### Tracked deployments -/

namespace Ledger

/-- Every analyzed contract is up to date. Functions have numbers of their own that were handed out
before, and so have all functions that are called. -/
structure Tracked (g : Ledger) : Prop where
  distinct : (g.store.functions.map (·.id)).Nodup
  numbered : ∀ f ∈ g.store.functions, f.id.number < g.nextFunction
  called : ∀ tx ∈ g.store.transactions, tx.function.number < g.nextFunction
  upToDate : ∀ {i k}, g.store.contracts.get? i = some k → k.isAnalyzed = true → k.UpToDate g.store

/-- Nothing has happened to functions and contracts, nor to what is called. -/
structure Untouched (g g' : Ledger) : Prop where
  functions : g'.store.functions = g.store.functions
  contracts : g'.store.contracts = g.store.contracts
  number : g'.nextFunction = g.nextFunction
  calls : g'.store.transactions.map Transaction.call = g.store.transactions.map Transaction.call

theorem Untouched.refl (g : Ledger) : g.Untouched g := ⟨rfl, rfl, rfl, rfl⟩

/-- One transaction may become another version of it. -/
theorem Untouched.middle {g : Ledger} {before after : List Transaction} {tx new : Transaction}
    (split : g.store.transactions = before ++ tx :: after) (call : new.call = tx.call) :
    g.Untouched (g.withTransactions (before ++ new :: after)) :=
  ⟨rfl, rfl, rfl, by simp [withTransactions, split, call]⟩

theorem tracked_empty : empty.Tracked where
  distinct := .nil
  numbered _ h := by cases h
  called _ h := by cases h
  upToDate h := by cases h

namespace Tracked

variable {g g' : Ledger}

theorem untouched (h : g.Tracked) (same : g.Untouched g') : g'.Tracked where
  distinct := same.functions ▸ h.distinct
  numbered := same.functions ▸ same.number ▸ h.numbered
  called tx htx := by
    have hcall := List.mem_map_of_mem (f := Transaction.call) htx
    rw [same.calls] at hcall
    obtain ⟨old, hold, heq⟩ := List.mem_map.mp hcall
    have hfunction : old.function = tx.function := congrArg (·.2.1) heq
    exact hfunction ▸ same.number ▸ h.called old hold
  upToDate hk analyzed hash hlast := by
    rw [Store.deploymentHashes_congr same.functions same.calls] at hlast
    exact h.upToDate (same.contracts ▸ hk) analyzed hash hlast

/-- Transactions may be added that are no deployments of analyzed contracts. -/
theorem append (h : g.Tracked) {txs : List Transaction} {number : Nat}
    (called : ∀ tx ∈ txs, tx.function.number < g.nextFunction)
    (others : ∀ i k, g.store.contracts.get? i = some k → k.isAnalyzed = true →
      ∀ tx ∈ txs, tx.task = k.task → g.store.isConstructor tx.function = false) :
    Tracked { g with
      store := g.store.createTransactions txs
      nextTransaction := number } where
  distinct := h.distinct
  numbered := h.numbered
  called tx htx := (List.mem_append.mp htx).elim (h.called tx) (called tx)
  upToDate hk analyzed hash hlast := by
    rw [Store.deploymentHashes_of_forall (others _ _ hk analyzed)] at hlast
    exact h.upToDate hk analyzed hash hlast

/-- A deployment may be stored together with what its contract learns of it. -/
theorem deploy (h : g.Tracked) (sound : g.Sound) {k old : Contract} {d : Deployment}
    {tx : Transaction} {constructor : ContractFunction}
    (hold : g.store.contracts.get? k.id = some old) (htask : k.task = old.task)
    (carries : k.Carries d) (hmem : constructor ∈ g.store.functions)
    (hconstructor : constructor.isConstructor = true)
    (call : tx.call = (k.task, constructor.id, some d.hash)) (number : Nat) : Tracked { g with
      store := (g.store.createTransaction tx).createContract k
      nextTransaction := number } := by
  obtain ⟨hof, hrest⟩ := Prod.mk.inj call
  obtain ⟨hfunction, hhash⟩ := Prod.mk.inj hrest
  exact {
    distinct := h.distinct
    numbered := h.numbered
    called := fun tx' htx' => by
      rcases List.mem_append.mp htx' with htx' | htx'
      · exact h.called tx' htx'
      · rw [List.mem_singleton.mp htx', hfunction]
        exact h.numbered constructor hmem
    upToDate := fun {i k'} hk' analyzed hash hlast => by
      change ((g.store.createTransaction tx).deploymentHashes k'.task).getLast? = _ at hlast
      rcases SortedMap.get?_insert_eq_some_iff.mp hk' with ⟨rfl, rfl⟩ | ⟨hne, hk'⟩
      · have hcalls : g.store.isConstructor tx.function = true := by
          rw [hfunction, Store.isConstructor_of_mem h.distinct hmem, hconstructor]
        rw [← hof, Store.deploymentHashes_createTransaction hcalls, List.getLast?_concat,
          hhash] at hlast
        rw [carries.1, carries.2]
        exact ⟨rfl, Option.some.inj hlast⟩
      · have others : ∀ tx' ∈ [tx], tx'.task = k'.task →
            g.store.isConstructor tx'.function = false := by
          intro tx' htx' heq
          rw [List.mem_singleton.mp htx', hof, htask] at heq
          exact absurd (sound.contractUnique hk' hold heq.symm) hne
        exact h.upToDate hk' analyzed hash (Store.deploymentHashes_of_forall others ▸ hlast) }

/-- A new task has no deployments, and its functions are new. -/
theorem register (h : g.Tracked) (sound : g.Sound) {task : Task} {contract : Contract}
    {definition : AbiDefinition} (newTask : g.store.tasks.get? task.id = none) :
    (g.register task contract definition).Tracked := by
  have numbers := definition.numbers_functions contract.id g.nextFunction
  -- No function that was called before is among the new ones.
  have before : ∀ tx ∈ g.store.transactions,
      (g.register task contract definition).store.isConstructor tx.function =
        g.store.isConstructor tx.function := by
    intro tx htx
    have hnew : (definition.functions contract.id g.nextFunction).any
        (fun f => f.id == tx.function && f.isConstructor) = false := by
      refine List.any_eq_false.mpr fun f hf hboth => ?_
      have hid := beq_iff_eq.mp (Bool.and_eq_true_iff.mp hboth).1
      have hnumber := (RecordId.number_of_mem numbers hf).1
      rw [hid] at hnumber
      exact absurd (h.called tx htx) (Nat.not_lt.mpr hnumber)
    change (g.store.functions ++ _).any _ = _
    rw [List.any_append, hnew, Bool.or_false]
    rfl
  have hashes : ∀ id, (g.register task contract definition).store.deploymentHashes id =
      g.store.deploymentHashes id := by
    intro id
    refine congrArg (List.map (·.hash)) (List.filter_congr fun tx htx => before tx ?_)
    exact (Store.mem_transactionsOf.mp htx).1
  exact {
    distinct := RecordId.nodup_append h.distinct h.numbered numbers
    numbered := RecordId.below_append h.numbered numbers
    called := fun tx htx => Nat.lt_add_right _ (h.called tx htx)
    upToDate := fun {i k} hk analyzed hash hlast => by
      rw [hashes] at hlast
      rcases SortedMap.get?_insert_eq_some_iff.mp hk with ⟨rfl, rfl⟩ | ⟨-, hk⟩
      · obtain ⟨tx, htx, -⟩ := List.mem_map.mp (List.mem_of_getLast? hlast)
        obtain ⟨hmem, htask⟩ := Store.mem_transactionsOf.mp (List.mem_filter.mp htx).1
        obtain ⟨t, ht⟩ := sound.taskOfTransaction tx hmem
        rw [htask] at ht
        exact absurd (newTask.symm.trans ht) nofun
      · exact h.upToDate hk analyzed hash hlast }

end Tracked

end Ledger

end ContractFuzz
