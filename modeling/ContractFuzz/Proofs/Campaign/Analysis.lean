import ContractFuzz.Proofs.Campaign.Frame
import ContractFuzz.Proofs.Campaign.LatestDeployment
import ContractFuzz.Proofs.Campaign.Signals
/-!
# Analyses of contracts

An analysis is taken up by the first deployment after which the contract can be analyzed, and stays.
Later deployments write the contract back as a whole, but only their address and hash are new. This
is so in every run, also if others publish events, register tasks a second time, or make the
decompiler answer otherwise.

## Main definitions

* `Incident`, `Campaign.Onward` : what happens to campaigns, with events from elsewhere.
* `Ledger.ContractChange` : what one incident does to the contracts.
* `Contract.SameAnalysis` : two versions of a contract with the same analysis.
* `Campaign.Redeploys` : the node will accept the next deployment.

## Main results

* `Incident.contractChange_perform` : all that an incident can do to the contracts.
* `analyses_attached_once` : analyses are right, and stay while deployments go on.
-/

namespace ContractFuzz

open Activity

variable {ω : Type} {e : Engine ω} {c : Campaign ω}

/-! ### Runs with events from elsewhere -/

/-- What can happen to campaigns. -/
inductive Incident (ω : Type) where
  /-- Something is done to them. -/
  | operation (op : Operation ω)
  /-- Somebody else publishes an event. -/
  | event (l : Listener) (task : TaskId)

namespace Incident

/-- The state after an incident. -/
def perform (e : Engine ω) : Incident ω → Campaign ω → Campaign ω
  | operation op, c => op.perform e c
  | event l task, c => c.publish l task

/-- A contract that is registered is an accepted one. -/
def Registers (Accepted : Contract → Prop) : Incident ω → Prop
  | operation (.register _ contract) => Accepted contract
  | _ => True

end Incident

namespace Campaign

/-- The states that incidents lead to from a given one, when only accepted contracts are
registered. -/
inductive Onward (e : Engine ω) (Accepted : Contract → Prop) (c : Campaign ω) : Campaign ω → Prop
  | now : Onward e Accepted c c
  | step {c' : Campaign ω} (onward : Onward e Accepted c c') (incident : Incident ω)
      (registers : incident.Registers Accepted) : Onward e Accepted c (incident.perform e c')

variable {Accepted : Contract → Prop} {c' : Campaign ω}

theorem Filed.incident (h : c.Filed) (incident : Incident ω) : (incident.perform e c).Filed := by
  cases incident with
  | operation op => exact h.perform op
  | event l task =>
    cases l <;> exact h.of_eq rfl rfl rfl rfl

theorem Onward.filed (h : Onward e Accepted c c') (filed : c.Filed) : c'.Filed := by
  induction h with
  | now => exact filed
  | step _ incident _ ih => exact ih.incident incident

end Campaign

/-! ### Changes of contracts -/

/-- What an incident does to the contracts: nothing, or one is registered, or one is deployed and
keeps its analysis or takes one up. -/
inductive Ledger.ContractChange (config : Config) (Accepted : Contract → Prop) (g g' : Ledger) :
    Prop
  | kept (same : g'.store.contracts = g.store.contracts)
  | registered {contract : Contract} (task : TaskId) (accepted : Accepted contract)
      (added : g'.store.contracts = g.store.contracts.insert contract.id { contract with task })
  | deployed {k : Contract} (d : Deployment) (graph : ControlFlowGraph)
      (hk : g.store.contracts.get? k.id = some k)
      (recovered : k.isAnalyzed = true ∨ ∃ blocks, ControlFlowGraph.ofDecompiled blocks = .ok graph)
      (replaced : g'.store.contracts = g.store.contracts.insert k.id (k.enriched config d graph))

open Ledger (ContractChange)

variable {Accepted : Contract → Prop}

/-- What leaves the outline leaves the contracts. -/
private theorem ContractChange.of_leaves {α : Type} {p : Activity ω α}
    (h : p.Leaves Campaign.outline) (c : Campaign ω) :
    ContractChange e.config Accepted c.ledger (p.perform c).2.ledger :=
  .kept (Campaign.contracts_eq_of_outline (h c))

theorem contractChange_deployTask (filed : c.Filed) (id : TaskId) :
    ContractChange e.config Accepted c.ledger ((deployTask e id).perform c).2.ledger := by
  have houtcome :=
    deployTask_outcome_of_named (e := e) filed.taskNamed filed.contractNamed id
  generalize (deployTask e id).perform c = result at houtcome
  cases houtcome with
  | failed failure source => exact .kept rfl
  | refused deploying answer => exact .kept rfl
  | unanalyzed failure hid deploying answer unanalyzed => exact .kept rfl
  | @deployed task contract _ _ _ _ d graph _ _ c' hid deploying answer hgraph recorded =>
    have hk := filed.getContract_of_contractOfTask deploying.hcontract
    refine .deployed d graph (Store.getContract_eq_ok_iff.mp hk) hgraph ?_
    subst recorded
    rw [← (Ledger.enriched_same contract e.config d graph).1]
    rfl

theorem contractChange_handle (filed : c.Filed) (l : Listener) (task : TaskId) :
    ContractChange e.config Accepted c.ledger ((handle e l task).perform c).2.ledger := by
  cases l with
  | deployer => exact contractChange_deployTask filed task
  | fuzzer => exact .kept (congrArg Prod.fst (leaves_submitInputs task c))
  | reporter => exact ContractChange.of_leaves (leaves_reportTask task) c

/-- All that an incident can do to the contracts. -/
theorem Incident.contractChange_perform (filed : c.Filed) {incident : Incident ω}
    (registers : incident.Registers Accepted) :
    ContractChange e.config Accepted c.ledger (incident.perform e c).ledger := by
  cases incident with
  | event l task => exact .kept (by cases l <;> rfl)
  | operation op =>
    cases op with
    | register task contract =>
      change ContractChange e.config Accepted c.ledger
        ((registerTask task contract).perform c).2.ledger
      rcases ledger_registerTask (c := c) task contract with heq | ⟨definition, -, heq⟩
      · exact .kept (by rw [heq])
      · exact .registered task.id registers (by rw [heq]; rfl)
    | start task now => exact ContractChange.of_leaves (leaves_startTask task now) c
    | check now => exact ContractChange.of_leaves (leaves_checkTasks now) c
    | deliver l =>
      change ContractChange e.config Accepted c.ledger ((ContractFuzz.deliver e l).run c).2.ledger
      rcases ledger_deliver (e := e) (c := c) l with ⟨task, -, heq⟩ | heq
      · have hsame := c.ledger_setTopic_receive l 0
        rw [heq, ← hsame]
        exact contractChange_handle (filed.of_ledger hsame) l task
      · exact .kept (by rw [heq])
    | recordExecution hash executed =>
      exact ContractChange.of_leaves (leaves_recordExecution hash executed) c
    | recordWeaknesses hash snapshot =>
      exact ContractChange.of_leaves (leaves_recordWeaknesses hash snapshot) c
    | outside world => exact .kept rfl

/-! ### What changes of contracts keep -/

/-- The second version of a contract has the analysis of the first one. -/
structure Contract.SameAnalysis (k k' : Contract) : Prop where
  graph : k'.graph = k.graph
  distances : k'.distances = k.distances
  targetCount : k'.targetCount = k.targetCount

namespace Contract.SameAnalysis

variable {k k' k'' : Contract}

theorem refl (k : Contract) : k.SameAnalysis k := ⟨rfl, rfl, rfl⟩

theorem trans (h : k.SameAnalysis k') (h' : k'.SameAnalysis k'') : k.SameAnalysis k'' :=
  ⟨h'.graph.trans h.graph, h'.distances.trans h.distances, h'.targetCount.trans h.targetCount⟩

theorem isAnalyzed (h : k.SameAnalysis k') : k'.isAnalyzed = k.isAnalyzed :=
  congrArg Option.isSome h.graph

/-- An analyzed contract that is deployed keeps its analysis. -/
theorem enriched (analyzed : k.isAnalyzed = true) (config : Config) (d : Deployment)
    (graph : ControlFlowGraph) : k.SameAnalysis (k.enriched config d graph) := by
  rw [k.enriched_of_isAnalyzed config d graph analyzed]
  exact ⟨rfl, rfl, rfl⟩

end Contract.SameAnalysis

namespace Ledger.ContractChange

variable {config : Config} {g g' : Ledger}

/-- If contracts are registered without an analysis, all analyses stay right. -/
theorem analyses (change : ContractChange config (fun k => k.isAnalyzed = false) g g')
    (h : g.Analyses config.fuzzing.critical) : g'.Analyses config.fuzzing.critical := by
  intro i k' hk' analyzed
  cases change with
  | kept same => exact h (same ▸ hk') analyzed
  | registered task accepted added =>
    rcases SortedMap.get?_insert_eq_some_iff.mp (added ▸ hk') with ⟨-, rfl⟩ | ⟨-, hk'⟩
    · exact absurd (accepted.symm.trans analyzed) (by decide)
    · exact h hk' analyzed
  | deployed d graph hk recovered replaced =>
    rcases SortedMap.get?_insert_eq_some_iff.mp (replaced ▸ hk') with ⟨-, rfl⟩ | ⟨-, hk'⟩
    · exact Contract.exists_analyzedBy_enriched config d recovered (h hk)
    · exact h hk' analyzed

/-- As long as no other contract takes its id, an analyzed contract keeps its analysis. -/
theorem keeps {id : ContractId} {k : Contract}
    (change : ContractChange config (fun new => new.id ≠ id) g g')
    (hk : g.store.contracts.get? id = some k) (analyzed : k.isAnalyzed = true) :
    ∃ k', g'.store.contracts.get? id = some k' ∧ k.SameAnalysis k' := by
  cases change with
  | kept same => exact ⟨k, same ▸ hk, .refl k⟩
  | registered task accepted added =>
    exact ⟨k, added ▸ (SortedMap.get?_insert_of_ne accepted.symm).trans hk, .refl k⟩
  | @deployed k' d graph hk' recovered replaced =>
    rw [replaced]
    by_cases hid : id = k'.id
    · subst hid
      obtain rfl := Option.some.inj (hk.symm.trans hk')
      exact ⟨_, SortedMap.get?_insert_self _ _ _, .enriched analyzed config d graph⟩
    · exact ⟨k, (SortedMap.get?_insert_of_ne hid).trans hk, .refl k⟩

end Ledger.ContractChange

namespace Campaign.Onward

variable {c' : Campaign ω}

/-- If contracts are registered without an analysis, all analyses stay right. -/
theorem analyses (h : Onward e (fun k => k.isAnalyzed = false) c c') (filed : c.Filed)
    (right : c.ledger.Analyses e.config.fuzzing.critical) :
    c'.ledger.Analyses e.config.fuzzing.critical := by
  induction h with
  | now => exact right
  | step before incident registers ih =>
    exact (Incident.contractChange_perform (before.filed filed) registers).analyses ih

/-- As long as no other contract takes its id, an analyzed contract keeps its analysis. -/
theorem keeps {id : ContractId} {k : Contract} (h : Onward e (fun new => new.id ≠ id) c c')
    (filed : c.Filed) (hk : c.store.getContract id = .ok k) (analyzed : k.isAnalyzed = true) :
    ∃ k', c'.store.getContract id = .ok k' ∧ k.SameAnalysis k' := by
  induction h with
  | now => exact ⟨k, hk, .refl k⟩
  | step before incident registers ih =>
    obtain ⟨k₁, hk₁, same⟩ := ih
    obtain ⟨k₂, hk₂, same'⟩ :=
      (Incident.contractChange_perform (e := e) (before.filed filed) registers).keeps
        (Store.getContract_eq_ok_iff.mp hk₁) (same.isAnalyzed.trans analyzed)
    exact ⟨k₂, Store.getContract_eq_ok_iff.mpr hk₂, same.trans same'⟩

end Campaign.Onward

/-! ### Later deployments -/

/-- The deployer's next event is the start of a task with the given contract, and the node will
accept the deployment. -/
def Campaign.Redeploys (e : Engine ω) (c : Campaign ω) (k : Contract) (d : Deployment) : Prop :=
  ∃ task constructor values texts source world,
    ((c.topic .deployer).receive 0).1 = .event task.id ∧
    Deploying e c task k constructor values texts source ∧
    e.services.deploy k values c.world = (.ok d, world)

/-- If an analyzed contract is deployed again, it learns where. -/
theorem carries_deliver (filed : c.Filed) {k : Contract} {d : Deployment}
    (analyzed : k.isAnalyzed = true) (redeploys : c.Redeploys e k d) :
    ((deliver e .deployer).run c).2.store.Carries k.id d := by
  obtain ⟨task, constructor, values, texts, source, world, received, deploying, answer⟩ := redeploys
  let c' := c.setTopic .deployer ((c.topic .deployer).receive 0).2
  have deploying' : Deploying e c' task k constructor values texts source :=
    ⟨deploying.htask, deploying.hcontract, deploying.hconstructor, deploying.drawn⟩
  have filed' : c'.Filed := filed.of_ledger (c.ledger_setTopic_receive .deployer 0)
  have record := deploymentRecord_deployTask filed' deploying' answer rfl
  have carried := record.carried.mpr (.inl (.inl analyzed))
  have hledger := ledger_deliver_of_event (e := e) received
  have hstore : ((deliver e .deployer).run c).2.store =
      ((deployTask e task.id).perform c').2.store := congrArg Ledger.store hledger
  exact hstore ▸ carried

open Campaign

/-- In every run in which contracts are registered without an analysis, analyzed contracts have
taken up one of a decompiler's output, with respect to the critical instructions. Whatever happens
then, they keep it, as long as no other contract takes their id. Still, every further deployment
that the node accepts puts down its address and its hash. -/
theorem analyses_attached_once {world : ω} {deployer fuzzer : Source} {id : ContractId}
    {k : Contract}
    (reached : Onward e (fun k => k.isAnalyzed = false) (initial world deployer fuzzer) c)
    (hk : c.store.getContract id = .ok k) (analyzed : k.isAnalyzed = true) :
    (∃ graph, k.AnalyzedBy e.config.fuzzing.critical graph) ∧
    ∀ c', Onward e (fun new => new.id ≠ id) c c' →
      ∃ k', c'.store.getContract id = .ok k' ∧ k.SameAnalysis k' ∧
        ∀ d, c'.Redeploys e k' d →
          ∃ k'', ((Operation.deliver .deployer).perform e c').store.getContract id = .ok k'' ∧
            k''.Carries d ∧ k.SameAnalysis k'' := by
  have filed := reached.filed (filed_initial world deployer fuzzer)
  have empty : (initial world deployer fuzzer).ledger.Analyses e.config.fuzzing.critical :=
    ledger_initial world deployer fuzzer ▸ Ledger.analyses_empty
  refine ⟨reached.analyses (filed_initial world deployer fuzzer) empty
    (Store.getContract_eq_ok_iff.mp hk) analyzed, fun c' onward => ?_⟩
  obtain ⟨k', hk', same⟩ := onward.keeps filed hk analyzed
  refine ⟨k', hk', same, fun d redeploys => ?_⟩
  -- The delivery is one more incident, and the contract that it leaves is the one it deployed.
  have filed' := onward.filed filed
  have analyzed' : k'.isAnalyzed = true := same.isAnalyzed.trans analyzed
  obtain ⟨k'', hk'', same'⟩ := (onward.step (.operation (.deliver .deployer)) trivial).keeps filed
    hk analyzed
  obtain ⟨found, hfound, carries⟩ := carries_deliver filed' analyzed' redeploys
  rw [filed'.contractNamed (Store.getContract_eq_ok_iff.mp hk')] at hfound
  obtain rfl := Except.ok.inj (hfound.symm.trans hk'')
  exact ⟨found, hfound, carries, same'⟩

theorem onward_deployedIn (world : World) :
    Onward switchEngine (fun k => k.isAnalyzed = false) (initial world (.ofSeed 0) (.ofSeed 0))
      (deployedIn world) := by
  have registered : Onward switchEngine (fun k => k.isAnalyzed = false)
      (initial world (.ofSeed 0) (.ofSeed 0)) _ :=
    Onward.now.step (.operation (.register switchTask switchContract)) rfl
  exact (registered.step (.operation (.start ⟨0⟩ .epoch)) trivial).step
    (.operation (.deliver .deployer)) trivial

/-- The contract was deployed and analyzed. Then somebody publishes the start of its task once more,
and from now on the decompiler fails. -/
def switchRepublished : Campaign World :=
  (Incident.operation (.outside { unreadableWorld with hashes := 7 })).perform switchEngine
    ((Incident.event .deployer ⟨0⟩).perform switchEngine (deployedIn switchWorld))

theorem onward_switchRepublished (Accepted : Contract → Prop) :
    Onward switchEngine Accepted (deployedIn switchWorld) switchRepublished :=
  (Onward.now.step (.event .deployer ⟨0⟩) trivial).step (.operation (.outside _)) trivial

/-- The event is handled without failure, since no analysis is needed, and the node gives its next
hash to the deployment. -/
theorem redeploys_switchRepublished {k : Contract}
    (hk : switchRepublished.store.getContract ⟨0⟩ = .ok k) :
    switchRepublished.Redeploys switchEngine k ⟨"at-h7", "h7"⟩ := by
  have filed : switchRepublished.Filed := (onward_switchRepublished fun _ => True).filed
    ((onward_deployedIn switchWorld).filed (filed_initial _ _ _))
  have received : ((switchRepublished.topic .deployer).receive 0).1 = .event ⟨0⟩ := by
    decide +kernel
  have ok : ((deployTask switchEngine ⟨0⟩).perform switchRepublished).1 = .ok () := by
    decide +kernel
  have found : (switchRepublished.store.contractOfTask ⟨0⟩).toOption.map (·.id) = some ⟨0⟩ := by
    decide +kernel
  obtain ⟨task, contract, constructor, values, texts, source, d, world, hid, deploying, answer⟩ :=
    exists_deploying_of_ok filed ok
  obtain ⟨contract', hcontract', hzero⟩ := exists_of_toOption found
  obtain rfl := Except.ok.inj (hcontract'.symm.trans (hid ▸ deploying.hcontract))
  have hstored := filed.getContract_of_contractOfTask deploying.hcontract
  rw [hzero] at hstored
  obtain rfl := Except.ok.inj (hstored.symm.trans hk)
  have hd : d = ⟨"at-h7", "h7"⟩ := by
    have hworld : switchRepublished.world = { unreadableWorld with hashes := 7 } := rfl
    rw [hworld] at answer
    have hdeploy : (World.deploy contract' values { unreadableWorld with hashes := 7 }).1 =
        .ok ⟨"at-" ++ ("h" ++ toString 7), "h" ++ toString 7⟩ := rfl
    have hanswer : Except.ok d = Except.ok _ := (congrArg Prod.fst answer).symm.trans hdeploy
    have hash : "h" ++ toString 7 = "h7" := by decide +kernel
    have address : "at-" ++ "h7" = "at-h7" := by decide +kernel
    rw [Except.ok.inj hanswer, hash, address]
  subst hd
  exact ⟨task, constructor, values, texts, source, world, hid ▸ received, deploying, answer⟩

/-- The second deployment is put down, and the analysis of the first one is kept. -/
theorem analyses_attached_once_switchRepublished :
    ∃ k k'', (deployedIn switchWorld).store.getContract ⟨0⟩ = .ok k ∧
      k.Carries ⟨"at-h0", "h0"⟩ ∧ (∃ graph, k.AnalyzedBy ["CALL"] graph) ∧
      ((Operation.deliver .deployer).perform switchEngine switchRepublished).store.getContract ⟨0⟩ =
        .ok k'' ∧ k''.Carries ⟨"at-h7", "h7"⟩ ∧ k.SameAnalysis k'' := by
  have stored : ((deployedIn switchWorld).store.getContract ⟨0⟩).toOption.map
      (fun k => (k.isAnalyzed, k.address, k.deployment)) =
        some (true, some "at-h0", some "h0") := by decide +kernel
  obtain ⟨k, hk, fields⟩ := exists_of_toOption stored
  obtain ⟨analyzed, carries⟩ := Prod.mk.inj fields
  obtain ⟨analysis, continued⟩ := analyses_attached_once (onward_deployedIn switchWorld) hk analyzed
  obtain ⟨k', hk', -, redeployed⟩ := continued switchRepublished (onward_switchRepublished _)
  obtain ⟨k'', hk'', carries', same⟩ := redeployed _ (redeploys_switchRepublished hk')
  exact ⟨k, k'', hk, Prod.mk.inj carries, analysis, hk'', carries', same⟩

end ContractFuzz
