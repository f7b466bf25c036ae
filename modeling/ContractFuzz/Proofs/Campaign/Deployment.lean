import ContractFuzz.Proofs.Campaign.Sound
/-!
# What the deployer does

All outcomes of handling the start of a task. Only a deployment that the node accepted is recorded;
after that, only the analysis of the contract can fail.

## Main definitions

* `DeployOutcome` : the outcomes.

## Main results

* `deployTask_outcome` : there are no others.
* `moves_deployTask` : the moves that are made.
-/

namespace ContractFuzz

open Activity

variable {ω : Type} {e : Engine ω} {c : Campaign ω}

/-- The outcome of an analysis: it fails without a trace, or yields the contract with the analysis,
which is that of recovered blocks unless the contract was analyzed before. -/
inductive AnalyzeOutcome (e : Engine ω) (k : Contract) (c : Campaign ω) :
    Except Failure Contract × Campaign ω → Prop
  | failed (failure : Failure) (world : ω) (unanalyzed : k.isAnalyzed = false) :
      AnalyzeOutcome e k c (.error failure, { c with world })
  | analyzed (graph : ControlFlowGraph) (world : ω)
      (hgraph : k.isAnalyzed = true ∨ ∃ blocks, ControlFlowGraph.ofDecompiled blocks = .ok graph) :
      AnalyzeOutcome e k c
        (.ok (k.attachAnalysis graph (graph.distanceMap e.config.fuzzing.critical)).2,
          { c with world })

/-- An analysis that is still to be done makes a graph of what the decompiler recovers. -/
theorem perform_analyze_of_unanalyzed {k : Contract} (hanalyzed : k.isAnalyzed = false) :
    (analyze e k).perform c =
      ((e.services.decompile k c.world).1.mapError (.external .decompiler) >>= fun blocks =>
        (ControlFlowGraph.ofDecompiled blocks).map fun graph =>
          (k.attachAnalysis graph (graph.distanceMap e.config.fuzzing.critical)).2,
        { c with world := (e.services.decompile k c.world).2 }) := by
  rw [analyze, hanalyzed, if_neg Bool.false_ne_true, perform_bind, perform_external]
  rcases e.services.decompile k c.world with ⟨answer, world⟩
  cases answer with
  | error reason => rfl
  | ok blocks =>
    change (ofExcept (ControlFlowGraph.ofDecompiled blocks) >>= _).perform _ =
      ((ControlFlowGraph.ofDecompiled blocks).map _, _)
    cases ControlFlowGraph.ofDecompiled blocks <;> rfl

theorem analyze_outcome (k : Contract) : AnalyzeOutcome e k c ((analyze e k).perform c) := by
  cases hanalyzed : k.isAnalyzed with
  | true =>
    have houtcome : AnalyzeOutcome e k c _ := .analyzed .empty c.world (.inl hanalyzed)
    rw [Contract.attachAnalysis, if_pos hanalyzed] at houtcome
    rwa [analyze, if_pos hanalyzed]
  | false =>
    rw [perform_analyze_of_unanalyzed hanalyzed]
    rcases e.services.decompile k c.world with ⟨answer, world⟩
    cases answer with
    | error reason => exact .failed _ world hanalyzed
    | ok blocks =>
      change AnalyzeOutcome e k c ((ControlFlowGraph.ofDecompiled blocks).map _, _)
      cases hgraph : ControlFlowGraph.ofDecompiled blocks with
      | error failure => exact .failed failure world hanalyzed
      | ok graph => exact .analyzed graph world (.inr ⟨blocks, hgraph⟩)

/-- The last steps of a deployment: the contract is analyzed and stored, and the first inputs are
requested. -/
def finishDeployment (e : Engine ω) (k : Contract) (task : TaskId) : Activity ω Unit := do
  let k ← analyze e k
  update (·.updateContract k)
  let _ ← publish .fuzzer task

/-- What the last steps lead to: only the analysis can fail. -/
inductive FinishOutcome (e : Engine ω) (k : Contract) (task : TaskId) (c : Campaign ω) :
    Except Failure Unit × Campaign ω → Prop
  | failed (failure : Failure) (world : ω) (unanalyzed : k.isAnalyzed = false) :
      FinishOutcome e k task c (.error failure, { c with world })
  | finished {graph : ControlFlowGraph} (world : ω)
      (hgraph : k.isAnalyzed = true ∨ ∃ blocks, ControlFlowGraph.ofDecompiled blocks = .ok graph) :
      FinishOutcome e k task c (.ok (), Campaign.publish
        { c with
          store := c.store.createContract
            (k.attachAnalysis graph (graph.distanceMap e.config.fuzzing.critical)).2
          world } .fuzzer task)

/-- The last steps fail where the analysis does, and go on with the analyzed contract otherwise. -/
theorem perform_finishDeployment {k old : Contract} (hstored : c.store.getContract k.id = .ok old)
    (task : TaskId) :
    (finishDeployment e k task).perform c =
      match (analyze e k).perform c with
      | (.ok k', c') =>
        (.ok (), Campaign.publish { c' with store := c'.store.createContract k' } .fuzzer task)
      | (.error failure, c') => (.error failure, c') := by
  have hanalyze := analyze_outcome (e := e) (c := c) k
  rw [finishDeployment, perform_bind]
  generalize (analyze e k).perform c = result at hanalyze ⊢
  cases hanalyze with
  | failed failure world unanalyzed => rfl
  | analyzed graph world hgraph =>
    have hid := (Ledger.attachAnalysis_same k graph
      (graph.distanceMap e.config.fuzzing.critical)).1
    exact perform_bind_of_ok (perform_update_of_ok (Store.updateContract_eq (hid.symm ▸ hstored)))

theorem finishDeployment_outcome {k old : Contract} (hstored : c.store.getContract k.id = .ok old)
    (task : TaskId) :
    FinishOutcome e k task c ((finishDeployment e k task).perform c) := by
  have hanalyze := analyze_outcome (e := e) (c := c) k
  rw [perform_finishDeployment hstored]
  generalize (analyze e k).perform c = result at hanalyze ⊢
  cases hanalyze with
  | failed failure world unanalyzed => exact .failed failure world unanalyzed
  | analyzed graph world hgraph => exact .finished world hgraph

/-! ### Outcomes of a deployment -/

/-- The campaigns after the node accepted a deployment, which was recorded. -/
def Campaign.withDeployment (c : Campaign ω) (source : Source) (world : ω) (tx : Transaction) :
    Campaign ω :=
  { c with
    store := c.store.createTransaction tx
    deployerSource := source
    nextTransaction := c.nextTransaction + 1
    world := world }

/-- What is known of a deployment that is sent to the node: its task, contract and constructor, and
the arguments that were drawn. -/
structure Deploying (e : Engine ω) (c : Campaign ω) (task : Task) (contract : Contract)
    (constructor : ContractFunction) (values : List Value) (texts : List String)
    (source : Source) : Prop where
  htask : c.store.getTask task.id = .ok task
  hcontract : c.store.contractOfTask task.id = .ok contract
  hconstructor : c.store.constructorOf contract.id = .ok constructor
  drawn : ∃ definition, contract.definition = .ok definition ∧
    (constructorArguments task definition.constructorInputs).run c.deployerSource =
      (.ok (values, texts), source)

/-- What the start of a task leads to. -/
inductive DeployOutcome (e : Engine ω) (id : TaskId) (c : Campaign ω) :
    Except Failure Unit × Campaign ω → Prop
  | failed (failure : Failure) (source : Source) :
      DeployOutcome e id c (.error failure, { c with deployerSource := source })
  | refused {task : Task} {contract : Contract} {constructor : ContractFunction}
      {values : List Value} {texts : List String} {source : Source} {reason : String} {world : ω}
      (deploying : Deploying e c task contract constructor values texts source)
      (answer : e.services.deploy contract values c.world = (.error reason, world)) :
      DeployOutcome e id c (.error (.external .chainClient reason),
        { c with deployerSource := source, world })
  | unanalyzed {task : Task} {contract : Contract} {constructor : ContractFunction}
      {values : List Value} {texts : List String} {source : Source} {d : Deployment}
      {world world' : ω} (failure : Failure) (hid : task.id = id)
      (deploying : Deploying e c task contract constructor values texts source)
      (answer : e.services.deploy contract values c.world = (.ok d, world))
      (unanalyzed : contract.isAnalyzed = false) :
      DeployOutcome e id c (.error failure, c.withDeployment source world'
        (.deployment ⟨c.nextTransaction⟩ task.id constructor.id texts (e.services.clock world 0)
          d.hash))
  | deployed {task : Task} {contract : Contract} {constructor : ContractFunction}
      {values : List Value} {texts : List String} {source : Source} {d : Deployment}
      {graph : ControlFlowGraph} {world world' : ω} {c' : Campaign ω} (hid : task.id = id)
      (deploying : Deploying e c task contract constructor values texts source)
      (answer : e.services.deploy contract values c.world = (.ok d, world))
      (hgraph : contract.isAnalyzed = true ∨
        ∃ blocks, ControlFlowGraph.ofDecompiled blocks = .ok graph)
      (recorded : c' = c.withDeployment source world'
        (.deployment ⟨c.nextTransaction⟩ task.id constructor.id texts (e.services.clock world 0)
          d.hash)) :
      DeployOutcome e id c (.ok (), Campaign.publish
        { c' with store := c'.store.createContract (contract.enriched e.config d graph) }
        .fuzzer task.id)

/-- A deployment that the node accepts is recorded; what is left are the last steps. -/
theorem perform_deployTask {task : Task} {contract : Contract} {constructor : ContractFunction}
    {values : List Value} {texts : List String} {source : Source} {d : Deployment} {world : ω}
    (deploying : Deploying e c task contract constructor values texts source)
    (answer : e.services.deploy contract values c.world = (.ok d, world)) :
    (deployTask e task.id).perform c =
      (finishDeployment e (contract.deployed d) task.id).perform (c.withDeployment source world
        (.deployment ⟨c.nextTransaction⟩ task.id constructor.id texts (e.services.clock world 0)
          d.hash)) := by
  obtain ⟨definition, hdefinition, hdrawn⟩ := deploying.drawn
  unfold deployTask
  rw [perform_query_bind_of_ok deploying.htask, perform_query_bind_of_ok deploying.hcontract,
    perform_query_bind_of_ok deploying.hconstructor, hdefinition, perform_ofExcept_bind_of_ok rfl]
  dsimp only
  rw [perform_bind_of_ok (perform_drawAsDeployer_of_eq hdrawn)]
  dsimp only
  rw [perform_bind_of_ok (perform_external_of_ok (c := { c with deployerSource := source }) answer),
    perform_bind_of_ok (perform_now _ _), perform_bind_of_ok (perform_newTransactions _ _),
    perform_bind_of_ok (perform_change _ _)]
  rfl

/-- Whatever the start of a task leads to is one of the outcomes, as long as tasks and contracts are
kept under their own ids. -/
theorem deployTask_outcome_of_named
    (taskNamed : ∀ {id t}, c.store.tasks.get? id = some t → t.id = id)
    (contractNamed : ∀ {i k}, c.store.contracts.get? i = some k → k.id = i) (id : TaskId) :
    DeployOutcome e id c ((deployTask e id).perform c) := by
  generalize hresult : (deployTask e id).perform c = result
  have hrun := hresult
  unfold deployTask at hrun
  cases htask : c.store.getTask id with
  | error failure =>
    rw [perform_query_bind_of_error htask] at hrun
    exact hrun ▸ .failed failure c.deployerSource
  | ok task =>
    obtain rfl : task.id = id := taskNamed (Store.getTask_eq_ok_iff.mp htask)
    rw [perform_query_bind_of_ok htask] at hrun
    cases hcontract : c.store.contractOfTask task.id with
    | error failure =>
      rw [perform_query_bind_of_error hcontract] at hrun
      exact hrun ▸ .failed failure c.deployerSource
    | ok contract =>
      rw [perform_query_bind_of_ok hcontract] at hrun
      cases hconstructor : c.store.constructorOf contract.id with
      | error failure =>
        rw [perform_query_bind_of_error hconstructor] at hrun
        exact hrun ▸ .failed failure c.deployerSource
      | ok constructor =>
        rw [perform_query_bind_of_ok hconstructor] at hrun
        cases hdefinition : contract.definition with
        | error failure =>
          rw [hdefinition, perform_ofExcept_bind_of_error rfl] at hrun
          exact hrun ▸ .failed failure c.deployerSource
        | ok definition =>
          rw [hdefinition, perform_ofExcept_bind_of_ok rfl] at hrun
          dsimp only at hrun
          rcases hdrawn : (constructorArguments task definition.constructorInputs).run
            c.deployerSource with ⟨drawn, source⟩
          cases drawn with
          | error failure =>
            rw [perform_bind_of_error (perform_drawAsDeployer_of_eq hdrawn)] at hrun
            exact hrun ▸ .failed failure source
          | ok drawn =>
            obtain ⟨values, texts⟩ := drawn
            have deploying : Deploying e c task contract constructor values texts source :=
              ⟨htask, hcontract, hconstructor, definition, hdefinition, hdrawn⟩
            rcases hanswer : e.services.deploy contract values c.world with ⟨answer, world⟩
            cases answer with
            | error reason =>
              rw [perform_bind_of_ok (perform_drawAsDeployer_of_eq hdrawn)] at hrun
              dsimp only at hrun
              rw [perform_bind_of_error (perform_external_of_error
                (c := { c with deployerSource := source }) hanswer)] at hrun
              exact hrun ▸ .refused deploying hanswer
            | ok d =>
              rw [perform_deployTask deploying hanswer] at hresult
              let tx := Transaction.deployment ⟨c.nextTransaction⟩ task.id constructor.id texts
                (e.services.clock world 0) d.hash
              have hstored : (c.withDeployment source world tx).store.getContract
                  (contract.deployed d).id = .ok contract := by
                obtain ⟨⟨i, hi⟩, -⟩ := Store.contractOfTask_eq_ok hcontract
                exact Store.getContract_eq_ok_iff.mpr (contractNamed hi ▸ hi)
              have hfinish := finishDeployment_outcome (e := e) hstored task.id
              rw [hresult] at hfinish
              cases hfinish with
              | failed failure world' unanalyzed =>
                exact .unanalyzed failure rfl deploying hanswer unanalyzed
              | @finished graph world' hgraph =>
                have recorded : c.withDeployment source world' tx =
                    { c.withDeployment source world tx with world := world' } := rfl
                exact .deployed rfl deploying hanswer hgraph recorded.symm

theorem deployTask_outcome (h : c.ledger.Sound) (id : TaskId) :
    DeployOutcome e id c ((deployTask e id).perform c) :=
  deployTask_outcome_of_named h.taskNamed h.contractNamed id

/-- What the start of a task does to the ledger, if it was published. -/
theorem moves_deployTask {Accepted : Task → Contract → Prop} (h : c.ledger.Sound) {id : TaskId}
    (started : id ∈ c.starts.published) :
    Ledger.Moves e.config Accepted c.ledger ((deployTask e id).perform c).2.ledger := by
  have houtcome := deployTask_outcome (e := e) h id
  generalize (deployTask e id).perform c = result at houtcome
  -- The move that records an accepted deployment.
  have record : ∀ {task contract constructor values texts source} (d : Deployment) (world world'),
      task.id = id → Deploying e c task contract constructor values texts source →
      Ledger.Move e.config Accepted c.ledger (c.withDeployment source world'
        (.deployment ⟨c.nextTransaction⟩ task.id constructor.id texts (e.services.clock world 0)
          d.hash)).ledger := by
    intro task contract constructor values texts source d world world' hid deploying
    obtain ⟨definition, hdefinition, hdrawn⟩ := deploying.drawn
    exact .deploy (e.services.clock world 0) d.hash (hid ▸ started) deploying.htask
      deploying.hcontract deploying.hconstructor hdefinition (congrArg Prod.fst hdrawn)
  cases houtcome with
  | failed failure source => exact .refl
  | refused deploying answer => exact .refl
  | @unanalyzed task contract constructor values texts source d world world' failure hid deploying
      answer unanalyzed => exact .single (record d world world' hid deploying)
  | @deployed task contract constructor values texts source d graph world world' c' hid deploying
      answer hgraph recorded =>
    obtain ⟨hk, htask⟩ := h.contractOfTask_eq_ok_iff.mp deploying.hcontract
    obtain ⟨hkid, hktask⟩ := Ledger.enriched_same contract e.config d graph
    have hrecord := record d world world' hid deploying
    rw [← recorded] at hrecord
    have hcontracts : c'.store.contracts = c.store.contracts := by rw [recorded]; rfl
    have hlast : c'.store.transactions.getLast? = some (.deployment ⟨c.nextTransaction⟩ task.id
        constructor.id texts (e.services.clock world 0) d.hash) := by
      rw [recorded]
      exact List.getLast?_concat
    have henrich : Ledger.Move e.config Accepted c'.ledger (Campaign.ledger
        { c' with store := c'.store.createContract (contract.enriched e.config d graph) }) :=
      .enrich (Store.getContract_eq_ok_iff.mpr (hcontracts ▸ hk)) hgraph hlast htask.symm rfl
    refine .tail (.tail (.single hrecord) henrich) ?_
    rw [Campaign.ledger_publish]
    refine .request (((henrich.sound (hrecord.sound h)).contractOfTask_eq_ok_iff).mpr
      ⟨?_, hktask.trans htask⟩) (Ledger.isAnalyzed_enriched contract e.config d graph)
    exact SortedMap.get?_insert_self _ _ _

end ContractFuzz
