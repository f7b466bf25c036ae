import ContractFuzz.Proofs.Campaign.Filing
/-!
# What is recorded of a deployment

The transaction of a deployment is stored as soon as the node has accepted it. The contract learns
where it was deployed only together with its analysis: if that fails, half of the deployment is
recorded and the other half is lost.

## Main definitions

* `Analyzable` : an analysis of the contract will succeed.
* `Contract.Carries`, `Store.Carries` : a contract knows where a deployment has put it.
* `DeploymentRecord` : what is recorded of a deployment that the node accepted.

## Main results

* `finishDeployment_eq_ok_iff` : the last steps succeed exactly if the analysis does.
* `deploymentRecord_deployTask` : exactly then the contract learns of the deployment.
-/

namespace ContractFuzz

open Activity

variable {ω : Type} {e : Engine ω} {c c' : Campaign ω}

/-- An analysis of the contract will succeed: there is one already, or what the decompiler recovers
makes a control flow graph. -/
def Analyzable (e : Engine ω) (k : Contract) (world : ω) : Prop :=
  k.isAnalyzed = true ∨ ∃ blocks graph, (e.services.decompile k world).1 = .ok blocks ∧
    ControlFlowGraph.ofDecompiled blocks = .ok graph

/-- The contract knows the address and the hash of a deployment. -/
def Contract.Carries (k : Contract) (d : Deployment) : Prop :=
  k.address = some d.address ∧ k.deployment = some d.hash

/-- The stored contract knows the address and the hash of a deployment. -/
def Store.Carries (s : Store) (id : ContractId) (d : Deployment) : Prop :=
  ∃ k, s.getContract id = .ok k ∧ k.Carries d

/-! ### The analysis -/

/-- Whatever an analysis finds, a deployed contract carries its deployment. -/
theorem Contract.carries_enriched (k : Contract) (config : Config) (d : Deployment)
    (graph : ControlFlowGraph) : (k.enriched config d graph).Carries d := by
  unfold Contract.enriched Contract.attachAnalysis
  split <;> exact ⟨rfl, rfl⟩

theorem exists_analyze_iff (k : Contract) :
    (∃ k', ((analyze e k).perform c).1 = .ok k') ↔ Analyzable e k c.world := by
  unfold Analyzable
  cases hanalyzed : k.isAnalyzed with
  | true =>
    rw [analyze, if_pos hanalyzed]
    exact ⟨fun _ => .inl rfl, fun _ => ⟨k, rfl⟩⟩
  | false =>
    rw [perform_analyze_of_unanalyzed hanalyzed, or_iff_right Bool.false_ne_true]
    rcases e.services.decompile k c.world with ⟨answer, world⟩
    cases answer with
    | error reason =>
      constructor
      · rintro ⟨_, ⟨⟩⟩
      · rintro ⟨_, _, ⟨⟩, -⟩
    | ok blocks =>
      change (∃ k', (ControlFlowGraph.ofDecompiled blocks).map _ = .ok k') ↔ _
      cases hgraph : ControlFlowGraph.ofDecompiled blocks with
      | error failure =>
        constructor
        · rintro ⟨_, ⟨⟩⟩
        · rintro ⟨_, graph, ⟨⟩, hsome⟩
          cases hgraph.symm.trans hsome
      | ok graph => exact ⟨fun _ => ⟨blocks, graph, rfl, hgraph⟩, fun _ => ⟨_, rfl⟩⟩

/-- The last steps of a deployment succeed exactly if the contract can be analyzed. -/
theorem finishDeployment_eq_ok_iff {k old : Contract} (hstored : c.store.getContract k.id = .ok old)
    (task : TaskId) :
    ((finishDeployment e k task).perform c).1 = .ok () ↔ Analyzable e k c.world := by
  rw [← exists_analyze_iff, perform_finishDeployment hstored]
  rcases (analyze e k).perform c with ⟨r, c'⟩
  cases r with
  | error failure => exact ⟨nofun, nofun⟩
  | ok k' => exact ⟨fun _ => ⟨k', rfl⟩, fun _ => rfl⟩

/-! ### The deployment -/

/-- What is recorded of a deployment that the node accepted, once its event was handled with a
result. In any case its transaction is stored. The event is handled without failure exactly if the
contract can be analyzed; and exactly then the stored contract carries the deployment, unless it did
so by chance before. -/
structure DeploymentRecord (e : Engine ω) (task : TaskId) (contract : Contract)
    (constructor : FunctionId) (d : Deployment) (world : ω) (r : Except Failure Unit)
    (c' : Campaign ω) : Prop where
  stored : ∃ tx ∈ c'.store.transactions, tx.task = task ∧ tx.function = constructor ∧
    tx.status = .done ∧ tx.hash = some d.hash
  succeeded : r = .ok () ↔ Analyzable e (contract.deployed d) world
  carried : c'.store.Carries contract.id d ↔
    Analyzable e (contract.deployed d) world ∨ contract.Carries d

theorem deploymentRecord_deployTask (filed : c.Filed) {task : Task} {contract : Contract}
    {constructor : ContractFunction} {values : List Value} {texts : List String} {source : Source}
    {d : Deployment} {world : ω} {r : Except Failure Unit}
    (deploying : Deploying e c task contract constructor values texts source)
    (answer : e.services.deploy contract values c.world = (.ok d, world))
    (handled : (deployTask e task.id).perform c = (r, c')) :
    DeploymentRecord e task.id contract constructor.id d world r c' := by
  let tx := Transaction.deployment ⟨c.nextTransaction⟩ task.id constructor.id texts
    (e.services.clock world 0) d.hash
  have hcontract := filed.getContract_of_contractOfTask deploying.hcontract
  have hstored : (c.withDeployment source world tx).store.getContract
      (contract.deployed d).id = .ok contract := hcontract
  have hok := finishDeployment_eq_ok_iff (e := e) hstored task.id
  have hfinish := finishDeployment_outcome (e := e) hstored task.id
  rw [← perform_deployTask deploying answer, handled] at hok hfinish
  refine ⟨⟨tx, ?_, rfl, rfl, rfl, rfl⟩, hok, ?_⟩
  · have hlast : tx ∈ c.store.transactions ++ [tx] := List.mem_append_right _ List.mem_cons_self
    cases hfinish with
    | failed failure world' unanalyzed => exact hlast
    | finished world' hgraph => exact hlast
  · cases hfinish with
    | failed failure world' unanalyzed =>
      have hfailed : ¬ Analyzable e (contract.deployed d) world := fun h => nomatch hok.mpr h
      rw [or_iff_right hfailed]
      constructor
      · rintro ⟨k, hk, hcarries⟩
        obtain rfl := Except.ok.inj (hk.symm.trans hcontract)
        exact hcarries
      · exact fun hcarries => ⟨contract, hcontract, hcarries⟩
    | @finished graph world' hgraph =>
      let k := contract.enriched e.config d graph
      have hget : ((c.withDeployment source world' tx).store.createContract k).getContract k.id =
          .ok k := Store.getContract_eq_ok_iff.mpr (SortedMap.get?_insert_self _ _ _)
      have hid : k.id = contract.id := (Ledger.enriched_same contract e.config d graph).1
      rw [← hid]
      exact iff_of_true ⟨k, hget, contract.carries_enriched e.config d graph⟩ (.inl (hok.mp rfl))

end ContractFuzz
