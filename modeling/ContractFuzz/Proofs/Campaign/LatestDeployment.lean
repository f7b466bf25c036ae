import ContractFuzz.Proofs.Campaign.Redrive
import ContractFuzz.Proofs.Campaign.Tracked
/-!
# Contracts and their latest deployments

Every operation keeps deployments tracked: deliveries to the deployer are looked at as a whole, and
all others add no deployments. So in every state of a run, a contract that is analyzed knows where
it was deployed last. One that could not be analyzed does not.

## Main results

* `Ledger.Tracked.perform` : every operation keeps deployments tracked.
* `deployments_recorded` : a deployment is recorded as a whole exactly if the contract can be
  analyzed, and in every state of a run analyzed contracts are up to date.
* `half_recorded_unreadableWorld` : without an analysis, the contract may not even have an address.
-/

namespace ContractFuzz

open Activity

/-! ### Operations -/

variable {ω : Type} {e : Engine ω} {c : Campaign ω}

theorem untouched_startTask (h : c.ledger.Sound) (id : TaskId) (now : Instant) :
    c.ledger.Untouched ((startTask id now).perform c).2.ledger := by
  rcases ledger_startTask h id now with heq | ⟨task, -, -, heq⟩
  · exact heq ▸ .refl _
  · exact heq ▸ ⟨rfl, rfl, rfl, rfl⟩

theorem untouched_checkTasks (h : c.ledger.Sound) (now : Instant) :
    c.ledger.Untouched ((checkTasks e now).perform c).2.ledger := by
  obtain ⟨o, c', ok, checked⟩ := exists_checked e now h
  rw [ok]
  refine ⟨congrArg (·.store.functions) checked.others, checked.contracts,
    congrArg (·.nextFunction) checked.others, ?_⟩
  change c'.store.transactions.map Transaction.call = _
  rw [checked.transactions, List.map_map]
  refine List.map_congr_left fun tx _ => ?_
  dsimp only [Function.comp]
  split <;> rfl

theorem untouched_recordExecution (h : c.ledger.Sound) (hash : String) (executed : PcSet) :
    c.ledger.Untouched ((recordExecution e hash executed).perform c).2.ledger := by
  have houtcome := recordExecution_outcome (e := e) h hash executed
  generalize (recordExecution e hash executed).perform c = result at houtcome
  cases houtcome with
  | failed failure => exact .refl _
  | repeated htx recorded => exact .refl _
  | @recorded before after tx task contract split hashed first unrecorded htask hcontract =>
    have same : c.ledger.Untouched (c.ledger.withTransactions (before ++ tx.recorded
        e.config.fuzzing.critical contract task.executed executed :: after)) := .middle split rfl
    unfold Campaign.redriven
    split <;> exact ⟨same.functions, same.contracts, same.number, same.calls⟩

theorem untouched_recordWeaknesses (h : c.ledger.Sound) (hash : String) (snapshot : Snapshot) :
    c.ledger.Untouched ((recordWeaknesses e hash snapshot).perform c).2.ledger := by
  have houtcome := recordWeaknesses_outcome (e := e) h hash snapshot
  generalize (recordWeaknesses e hash snapshot).perform c = result at houtcome
  cases houtcome with
  | failed failure => exact .refl _
  | weakened split hashed first hnew => exact .middle split rfl

theorem tracked_submitInputs (sound : c.ledger.Sound) (h : c.ledger.Tracked) (id : TaskId) :
    ((submitInputs e id).perform c).2.ledger.Tracked := by
  have houtcome := submitInputs_outcome (e := e) sound id
  generalize (submitInputs e id).perform c = result at houtcome
  cases houtcome with
  | failed failure source => exact h
  | idle htask idle => exact h
  | @submitted task contract function generated source outcome world hid submitting answer =>
    obtain ⟨hof, hmethod⟩ := mem_of_mem_candidates submitting.candidate
    have hmem : function ∈ c.store.functions := (List.mem_filter.mp hof).1
    have called : ∀ tx ∈ (newBatch c.nextTransaction task.id function.id (e.services.clock c.world)
        (generated.map (·.1))).map outcome.apply, tx.function = function.id := by
      intro tx htx
      obtain ⟨number, time, seed, -, rfl⟩ := Ledger.exists_of_mem_batch htx
      rw [outcome.apply_eq]
      rfl
    refine h.append (fun tx htx => called tx htx ▸ h.numbered function hmem) ?_
    intro i k hk analyzed tx htx htask
    rw [called tx htx, Store.isConstructor_of_mem h.distinct hmem, hmethod]

theorem tracked_deployTask (sound : c.ledger.Sound) (h : c.ledger.Tracked) (id : TaskId) :
    ((deployTask e id).perform c).2.ledger.Tracked := by
  have houtcome := deployTask_outcome (e := e) sound id
  generalize (deployTask e id).perform c = result at houtcome
  cases houtcome with
  | failed failure source => exact h
  | refused deploying answer => exact h
  | @unanalyzed task contract constructor values texts source d world world' failure hid deploying
      answer unanalyzed =>
    obtain ⟨hk, htask⟩ := sound.contractOfTask_eq_ok_iff.mp deploying.hcontract
    obtain ⟨hmem, -⟩ := Store.constructorOf_eq_ok deploying.hconstructor
    refine h.append (fun tx htx => ?_) fun i k hk' analyzed tx htx heq => ?_
    · rw [List.mem_singleton.mp htx]
      exact h.numbered constructor hmem
    · rw [List.mem_singleton.mp htx] at heq
      obtain rfl := sound.contractUnique hk' hk (heq.symm.trans htask.symm)
      rw [Option.some.inj (hk'.symm.trans hk), unanalyzed] at analyzed
      cases analyzed
  | @deployed task contract constructor values texts source d graph world world' c' hid deploying
      answer hgraph recorded =>
    obtain ⟨hk, htask⟩ := sound.contractOfTask_eq_ok_iff.mp deploying.hcontract
    obtain ⟨hmem, hconstructor, -⟩ := Store.constructorOf_eq_ok deploying.hconstructor
    obtain ⟨hkid, hktask⟩ := Ledger.enriched_same contract e.config d graph
    subst recorded
    have call : (Transaction.deployment ⟨c.nextTransaction⟩ task.id constructor.id texts
        (e.services.clock world 0) d.hash).call =
          ((contract.enriched e.config d graph).task, constructor.id, some d.hash) := by
      rw [hktask, htask]
      rfl
    have tracked := h.deploy sound (hkid ▸ hk) hktask (contract.carries_enriched e.config d graph)
      hmem hconstructor call (c.nextTransaction + 1)
    rw [Campaign.ledger_publish]
    exact tracked.untouched ⟨rfl, rfl, rfl, rfl⟩

namespace Ledger.Tracked

theorem handle (sound : c.ledger.Sound) (h : c.ledger.Tracked) (l : Listener) (task : TaskId) :
    ((ContractFuzz.handle e l task).perform c).2.ledger.Tracked := by
  cases l with
  | deployer => exact tracked_deployTask sound h task
  | fuzzer => exact tracked_submitInputs sound h task
  | reporter => exact (ledger_reportTask (e := e) (c := c) task).symm ▸ h

theorem deliver (sound : c.ledger.Sound) (h : c.ledger.Tracked) (l : Listener) :
    ((ContractFuzz.deliver e l).run c).2.ledger.Tracked := by
  rcases ledger_deliver (e := e) (c := c) l with ⟨task, -, heq⟩ | heq
  · have hsame := c.ledger_setTopic_receive l 0
    exact heq ▸ handle (hsame ▸ sound) (hsame ▸ h) l task
  · exact heq ▸ h

/-- Every operation keeps deployments tracked. -/
theorem perform (sound : c.ledger.Sound) (h : c.ledger.Tracked) (op : Operation ω)
    (fresh : op.Fresh c) : (op.perform e c).ledger.Tracked := by
  cases op with
  | register task contract =>
    rcases ledger_registerTask (c := c) task contract with heq | ⟨definition, -, heq⟩
    · exact heq ▸ h
    · exact heq ▸ h.register sound fresh.1
  | start task now => exact h.untouched (untouched_startTask sound task now)
  | check now => exact h.untouched (untouched_checkTasks sound now)
  | deliver l => exact h.deliver sound l
  | recordExecution hash executed =>
    exact h.untouched (untouched_recordExecution sound hash executed)
  | recordWeaknesses hash snapshot =>
    exact h.untouched (untouched_recordWeaknesses sound hash snapshot)
  | outside world => exact h

end Ledger.Tracked

namespace Campaign

variable {world : ω} {deployer fuzzer : Source}

/-- In every later state, deployments are tracked. -/
theorem Later.tracked (h : Later e (initial world deployer fuzzer) c) : c.ledger.Tracked := by
  induction h with
  | now => exact ledger_initial world deployer fuzzer ▸ Ledger.tracked_empty
  | step later op fresh ih => exact ih.perform later.sound op fresh

end Campaign

open Campaign

/-- Of a deployment that the node accepted, the transaction is stored in any case, but the contract
learns of it exactly if it can be analyzed. So in every state of a run, the contract of a task is up
to date if it is analyzed. -/
theorem deployments_recorded (e : Engine ω) :
    (∀ {c c' : Campaign ω} {task : Task} {contract : Contract} {constructor : ContractFunction}
        {values : List Value} {texts : List String} {source : Source} {d : Deployment} {world : ω}
        {r : Except Failure Unit}, c.Filed →
      Deploying e c task contract constructor values texts source →
      e.services.deploy contract values c.world = (.ok d, world) →
      (deployTask e task.id).perform c = (r, c') →
      DeploymentRecord e task.id contract constructor.id d world r c') ∧
    ∀ {world : ω} {deployer fuzzer : Source} {c : Campaign ω},
      Later e (initial world deployer fuzzer) c → ∀ id k, c.store.contractOfTask id = .ok k →
        k.isAnalyzed = true → k.UpToDate c.store := by
  refine ⟨fun filed deploying answer handled =>
    deploymentRecord_deployTask filed deploying answer handled, fun later id k hk analyzed => ?_⟩
  obtain ⟨⟨i, hi⟩, -⟩ := Store.contractOfTask_eq_ok hk
  exact later.tracked.upToDate hi analyzed

/-- A task is registered and started in some world. -/
def startedIn (world : World) : Campaign World :=
  (Operation.start ⟨0⟩ .epoch).perform switchEngine
    ((Operation.register switchTask switchContract).perform switchEngine
      (initial world (.ofSeed 0) (.ofSeed 0)))

theorem later_startedIn (world : World) :
    Later switchEngine (initial world (.ofSeed 0) (.ofSeed 0)) (startedIn world) :=
  (Later.now.step (.register switchTask switchContract) ⟨rfl, rfl⟩).step (.start ⟨0⟩ .epoch) trivial

/-- The event of the task is handled. -/
def deployedIn (world : World) : Campaign World :=
  (Operation.deliver .deployer).perform switchEngine (startedIn world)

theorem later_deployedIn (world : World) :
    Later switchEngine (initial world (.ofSeed 0) (.ofSeed 0)) (deployedIn world) :=
  (later_startedIn world).step (.deliver .deployer) trivial

/-- An event that is handled without failure has led to a deployment. -/
theorem exists_deploying_of_ok (h : c.Filed) {id : TaskId}
    (ok : ((deployTask e id).perform c).1 = .ok ()) :
    ∃ task contract constructor values texts source d world, task.id = id ∧
      Deploying e c task contract constructor values texts source ∧
      e.services.deploy contract values c.world = (.ok d, world) := by
  have houtcome := deployTask_outcome_of_named (e := e) h.taskNamed h.contractNamed id
  generalize (deployTask e id).perform c = result at houtcome ok
  cases houtcome with
  | failed failure source => cases ok
  | refused deploying answer => cases ok
  | unanalyzed failure hid deploying answer unanalyzed => cases ok
  | deployed hid deploying answer hgraph recorded =>
    exact ⟨_, _, _, _, _, _, _, _, hid, deploying, answer⟩

/-- Where the contract has two blocks, its deployment is recorded as a whole. -/
theorem deployments_recorded_switchWorld :
    (∃ (contract : Contract) (constructor : FunctionId) (d : Deployment) (world : World)
        (c' : Campaign World),
      (deployTask switchEngine ⟨0⟩).perform (startedIn switchWorld) = (.ok (), c') ∧
        DeploymentRecord switchEngine ⟨0⟩ contract constructor d world (.ok ()) c' ∧
        c'.store.Carries contract.id d) ∧
    ∃ k, (deployedIn switchWorld).store.contractOfTask ⟨0⟩ = .ok k ∧
      (deployedIn switchWorld).store.deploymentHashes ⟨0⟩ = [some "h0"] ∧
      k.UpToDate (deployedIn switchWorld).store := by
  obtain ⟨handled, reached⟩ := deployments_recorded switchEngine
  constructor
  · have filed := filed_of_sound (later_startedIn switchWorld).sound
    have ok : ((deployTask switchEngine ⟨0⟩).perform (startedIn switchWorld)).1 = .ok () := by
      decide +kernel
    obtain ⟨task, contract, constructor, values, texts, source, d, world, hid, deploying, answer⟩ :=
      exists_deploying_of_ok filed ok
    rcases hresult : (deployTask switchEngine ⟨0⟩).perform (startedIn switchWorld) with ⟨r, c'⟩
    rw [hresult] at ok
    have hr : r = .ok () := ok
    subst hr
    have record := handled filed deploying answer (hid.symm ▸ hresult)
    rw [hid] at record
    exact ⟨contract, constructor.id, d, world, c', rfl, record,
      record.carried.mpr (.inl (record.succeeded.mp rfl))⟩
  · have analyzed : ((deployedIn switchWorld).store.contractOfTask ⟨0⟩).toOption.any
        (·.isAnalyzed) = true := by decide +kernel
    cases hk : (deployedIn switchWorld).store.contractOfTask ⟨0⟩ with
    | error failure => rw [hk] at analyzed; cases analyzed
    | ok k =>
      rw [hk] at analyzed
      exact ⟨k, rfl, by decide +kernel,
        reached (later_deployedIn switchWorld) ⟨0⟩ k hk analyzed⟩

/-- The world in which the decompiler fails. -/
def unreadableWorld : World :=
  { switchWorld with blocks := .error "no bytecode" }

/-- There a deployment is recorded by half: its transaction is done and has a hash, but the contract
has neither address nor hash. -/
theorem half_recorded_unreadableWorld :
    Later switchEngine (initial unreadableWorld (.ofSeed 0) (.ofSeed 0))
        (deployedIn unreadableWorld) ∧
      (deployedIn unreadableWorld).store.transactions.map (fun tx => (tx.status, tx.hash)) =
        [(.done, some "h0")] ∧
      (deployedIn unreadableWorld).store.deploymentHashes ⟨0⟩ = [some "h0"] ∧
      ∃ k, (deployedIn unreadableWorld).store.contractOfTask ⟨0⟩ = .ok k ∧ k.address = none ∧
        k.deployment = none ∧ ¬ k.UpToDate (deployedIn unreadableWorld).store := by
  have hashes : (deployedIn unreadableWorld).store.deploymentHashes ⟨0⟩ = [some "h0"] := by
    decide +kernel
  have fields : ((deployedIn unreadableWorld).store.contractOfTask ⟨0⟩).toOption.map
      (fun k => (k.task, k.address, k.deployment)) = some (⟨0⟩, none, none) := by decide +kernel
  refine ⟨later_deployedIn unreadableWorld, by decide +kernel, hashes, ?_⟩
  cases hk : (deployedIn unreadableWorld).store.contractOfTask ⟨0⟩ with
  | error failure => rw [hk] at fields; cases fields
  | ok k =>
    rw [hk] at fields
    obtain ⟨htask, hrest⟩ := Prod.mk.inj (Option.some.inj fields)
    obtain ⟨haddress, hdeployment⟩ := Prod.mk.inj hrest
    refine ⟨k, rfl, haddress, hdeployment, fun upToDate => ?_⟩
    obtain ⟨haddress', -⟩ := upToDate (some "h0") (by rw [htask, hashes]; rfl)
    rw [haddress] at haddress'
    cases haddress'

end ContractFuzz
