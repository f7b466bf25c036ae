import ContractFuzz.Proofs.Campaign.Ledger
import Mathlib.Logic.Relation
/-!
# Sound ledgers

Records refer to each other as they should: tasks and contracts are kept under their own ids, every
task has one contract and every contract a task, and transactions have distinct ids and tasks that
are stored. Inputs are only requested, and outcomes only waited for, once the contract of the task
is analyzed. All moves keep it so.

## Main definitions

* `Ledger.Analyzed` : the contract of a task is analyzed.
* `Ledger.Sound` : how records refer to each other.
* `Ledger.Moves` : any number of moves.

## Main results

* `Ledger.Sound.contractOfTask_eq_ok_iff` : the contract of a task is the stored one that tests it.
* `Ledger.Move.sound` : moves keep a ledger sound.
-/

namespace ContractFuzz.Ledger

/-- The contract of a task is analyzed. -/
def Analyzed (g : Ledger) (task : TaskId) : Prop :=
  ∃ i k, g.store.contracts.get? i = some k ∧ k.task = task ∧ k.isAnalyzed = true

/-- How the records of a ledger refer to each other. -/
structure Sound (g : Ledger) : Prop where
  taskNamed : ∀ {id t}, g.store.tasks.get? id = some t → t.id = id
  contractNamed : ∀ {i k}, g.store.contracts.get? i = some k → k.id = i
  taskOfContract : ∀ {i k}, g.store.contracts.get? i = some k →
    ∃ t, g.store.tasks.get? k.task = some t
  contractOfTask : ∀ {id t}, g.store.tasks.get? id = some t →
    ∃ i k, g.store.contracts.get? i = some k ∧ k.task = id
  contractUnique : ∀ {i j k k'}, g.store.contracts.get? i = some k →
    g.store.contracts.get? j = some k' → k.task = k'.task → i = j
  distinct : (g.store.transactions.map (·.id)).Nodup
  numbered : ∀ tx ∈ g.store.transactions, tx.id.number < g.nextTransaction
  taskOfTransaction : ∀ tx ∈ g.store.transactions, ∃ t, g.store.tasks.get? tx.task = some t
  requested : ∀ task ∈ g.published .fuzzer, g.Analyzed task
  awaited : ∀ tx ∈ g.store.transactions, tx.status ≠ .done → g.Analyzed tx.task

theorem sound_empty : Sound empty where
  taskNamed h := by cases h
  contractNamed h := by cases h
  taskOfContract h := by cases h
  contractOfTask h := by cases h
  contractUnique h := by cases h
  distinct := .nil
  numbered _ h := by cases h
  taskOfTransaction _ h := by cases h
  requested _ h := by cases h
  awaited _ h := by cases h

namespace Sound

variable {g : Ledger}

/-- The contract that is found for a task is the one that is stored for it. -/
theorem contractOfTask_eq_ok_iff (h : g.Sound) {task : TaskId} {k : Contract} :
    g.store.contractOfTask task = .ok k ↔
      g.store.contracts.get? k.id = some k ∧ k.task = task := by
  constructor
  · intro hk
    obtain ⟨⟨i, hi⟩, htask⟩ := Store.contractOfTask_eq_ok hk
    exact ⟨h.contractNamed hi ▸ hi, htask⟩
  · rintro ⟨hk, rfl⟩
    obtain ⟨found, hfound⟩ := Store.exists_contractOfTask hk
    obtain ⟨⟨i, hi⟩, htask⟩ := Store.contractOfTask_eq_ok hfound
    obtain rfl := h.contractUnique hi hk htask
    obtain rfl := Option.some.inj (hi.symm.trans hk)
    exact hfound

/-- The contract that is found for a task is analyzed if its contract is. -/
theorem analyzed_iff (h : g.Sound) {task : TaskId} {k : Contract}
    (hk : g.store.contractOfTask task = .ok k) : g.Analyzed task ↔ k.isAnalyzed = true := by
  obtain ⟨hstored, rfl⟩ := h.contractOfTask_eq_ok_iff.mp hk
  constructor
  · rintro ⟨i, k', hk', htask, analyzed⟩
    rw [h.contractUnique hk' hstored htask, hstored] at hk'
    exact Option.some.inj hk' ▸ analyzed
  · exact fun analyzed => ⟨k.id, k, hstored, rfl, analyzed⟩

/-- Every stored task has a contract. -/
theorem exists_contractOfTask (h : g.Sound) {id : TaskId} {t : Task}
    (ht : g.store.getTask id = .ok t) : ∃ k, g.store.contractOfTask id = .ok k := by
  obtain ⟨i, k, hk, rfl⟩ := h.contractOfTask (Store.getTask_eq_ok_iff.mp ht)
  exact Store.exists_contractOfTask hk

/-- Every transaction has a task and a contract. -/
theorem exists_task_contract (h : g.Sound) {tx : Transaction} (htx : tx ∈ g.store.transactions) :
    ∃ t k, g.store.getTask tx.task = .ok t ∧ g.store.contractOfTask tx.task = .ok k := by
  obtain ⟨t, ht⟩ := h.taskOfTransaction tx htx
  have htask := Store.getTask_eq_ok_iff.mpr ht
  obtain ⟨k, hk⟩ := h.exists_contractOfTask htask
  exact ⟨t, k, htask, hk⟩

theorem id_eq_of_getTask (h : g.Sound) {id : TaskId} {t : Task}
    (ht : g.store.getTask id = .ok t) : t.id = id :=
  h.taskNamed (Store.getTask_eq_ok_iff.mp ht)

/-- Transactions of the same id are the same. -/
theorem id_ne_of_mem_after (h : g.Sound) {before after : List Transaction} {tx : Transaction}
    (split : g.store.transactions = before ++ tx :: after) : ∀ tx' ∈ after, tx'.id ≠ tx.id :=
  ContractFuzz.id_ne_of_mem_after (split ▸ h.distinct)

/-- Any event may be published, but requests only for an analyzed contract. -/
theorem publish (h : g.Sound) {l : Listener} {task : TaskId}
    (analyzed : l = .fuzzer → g.Analyzed task) : (g.publish l task).Sound :=
  { h with
    requested := fun id hid => by
      rcases mem_published_publish.mp hid with ⟨rfl, rfl⟩ | hid
      · exact analyzed rfl
      · exact h.requested id hid }

/-! ### Replacing records -/

/-- A task that is stored stays so when any task is stored. -/
theorem exists_get?_createTask {id : TaskId} (new : Task)
    (h : ∃ t, g.store.tasks.get? id = some t) :
    ∃ t, (g.store.createTask new).tasks.get? id = some t := by
  obtain ⟨t, ht⟩ := h
  by_cases hid : id = new.id
  · exact ⟨new, SortedMap.get?_insert_eq_some_iff.mpr (.inl ⟨hid, rfl⟩)⟩
  · exact ⟨t, SortedMap.get?_insert_eq_some_iff.mpr (.inr ⟨hid, ht⟩)⟩

/-- A stored task may be replaced by another version of it. -/
theorem insertTask (h : g.Sound) (new : Task) {old : Task}
    (hold : g.store.getTask new.id = .ok old) :
    Sound { g with store := g.store.createTask new } :=
  { h with
    taskNamed := fun ht => by
      rcases SortedMap.get?_insert_eq_some_iff.mp ht with ⟨rfl, rfl⟩ | ⟨-, ht⟩
      · rfl
      · exact h.taskNamed ht
    taskOfContract := fun hk => exists_get?_createTask new (h.taskOfContract hk)
    contractOfTask := fun ht => by
      rcases SortedMap.get?_insert_eq_some_iff.mp ht with ⟨rfl, -⟩ | ⟨-, ht⟩
      · exact h.contractOfTask (Store.getTask_eq_ok_iff.mp hold)
      · exact h.contractOfTask ht
    taskOfTransaction := fun tx htx => exists_get?_createTask new (h.taskOfTransaction tx htx) }

/-- A stored contract may be replaced by another version of it, which keeps its analysis. -/
theorem insertContract (h : g.Sound) {old new : Contract}
    (hold : g.store.getContract new.id = .ok old) (htask : new.task = old.task)
    (hanalyzed : old.isAnalyzed = true → new.isAnalyzed = true) :
    Sound { g with store := g.store.createContract new } := by
  have hold := Store.getContract_eq_ok_iff.mp hold
  -- Every contract stands where one of the same task stood before.
  have earlier : ∀ {i k}, (g.store.contracts.insert new.id new).get? i = some k →
      k.id = i ∧ ∃ k', g.store.contracts.get? i = some k' ∧ k'.task = k.task := by
    intro i k hk
    rcases SortedMap.get?_insert_eq_some_iff.mp hk with ⟨rfl, rfl⟩ | ⟨-, hk⟩
    · exact ⟨rfl, old, hold, htask.symm⟩
    · exact ⟨h.contractNamed hk, k, hk, rfl⟩
  have kept : ∀ {task}, g.Analyzed task →
      Analyzed { g with store := g.store.createContract new } task := by
    rintro _ ⟨i, k, hk, rfl, analyzed⟩
    by_cases hi : i = new.id
    · obtain rfl := Option.some.inj ((hi ▸ hk).symm.trans hold)
      exact ⟨new.id, new, SortedMap.get?_insert_self _ _ _, htask, hanalyzed analyzed⟩
    · exact ⟨i, k, (SortedMap.get?_insert_of_ne hi).trans hk, rfl, analyzed⟩
  exact {
    taskNamed := h.taskNamed
    contractNamed := fun hk => (earlier hk).1
    taskOfContract := fun hk => by
      obtain ⟨-, k', hk', heq⟩ := earlier hk
      exact heq ▸ h.taskOfContract hk'
    contractOfTask := fun {id t} ht => by
      obtain ⟨i, k, hk, rfl⟩ := h.contractOfTask ht
      change ∃ i k', (g.store.contracts.insert new.id new).get? i = some k' ∧ k'.task = k.task
      by_cases hi : i = new.id
      · obtain rfl := Option.some.inj ((hi ▸ hk).symm.trans hold)
        exact ⟨new.id, new, SortedMap.get?_insert_self _ _ _, htask⟩
      · exact ⟨i, k, by rw [SortedMap.get?_insert_of_ne hi, hk], rfl⟩
    contractUnique := fun hk hk' heq => by
      obtain ⟨-, l, hl, hltask⟩ := earlier hk
      obtain ⟨-, l', hl', hltask'⟩ := earlier hk'
      exact h.contractUnique hl hl' (hltask.trans (heq.trans hltask'.symm))
    distinct := h.distinct
    numbered := h.numbered
    taskOfTransaction := h.taskOfTransaction
    requested := fun task htask => kept (h.requested task htask)
    awaited := fun tx htx hstatus => kept (h.awaited tx htx hstatus) }

/-- Transactions may be replaced by other versions of them. Those that are done stay done. -/
theorem withTransactions (h : g.Sound) (txs : List Transaction)
    (same : txs.map (fun tx => (tx.id, tx.task)) =
      g.store.transactions.map fun tx => (tx.id, tx.task))
    (hstatus : ∀ tx ∈ txs, tx.status ≠ .done →
      ∃ tx' ∈ g.store.transactions, tx'.status ≠ .done ∧ tx'.task = tx.task) :
    (g.withTransactions txs).Sound := by
  have hids : txs.map (·.id) = g.store.transactions.map (·.id) := by
    have hfst := congrArg (List.map Prod.fst) same
    rwa [List.map_map, List.map_map] at hfst
  have earlier : ∀ tx ∈ txs, ∃ tx' ∈ g.store.transactions, tx'.id = tx.id ∧ tx'.task = tx.task := by
    intro tx htx
    have hmem : (tx.id, tx.task) ∈ g.store.transactions.map fun tx => (tx.id, tx.task) :=
      same ▸ List.mem_map_of_mem (f := fun tx => (tx.id, tx.task)) htx
    obtain ⟨tx', htx', heq⟩ := List.mem_map.mp hmem
    exact ⟨tx', htx', congrArg Prod.fst heq, congrArg Prod.snd heq⟩
  exact { h with
    distinct := (congrArg List.Nodup hids).mpr h.distinct
    numbered := fun tx htx => by
      obtain ⟨tx', htx', hid, -⟩ := earlier tx htx
      exact hid ▸ h.numbered tx' htx'
    taskOfTransaction := fun tx htx => by
      obtain ⟨tx', htx', -, htask⟩ := earlier tx htx
      exact htask ▸ h.taskOfTransaction tx' htx'
    awaited := fun tx htx hopen => by
      obtain ⟨tx', htx', hopen', htask⟩ := hstatus tx htx hopen
      exact htask ▸ h.awaited tx' htx' hopen' }

/-- One transaction may be replaced by another version of it. -/
theorem replaceTransaction (h : g.Sound) {before after : List Transaction} {tx : Transaction}
    (split : g.store.transactions = before ++ tx :: after) {new : Transaction}
    (hid : new.id = tx.id) (htask : new.task = tx.task)
    (hstatus : new.status ≠ .done → tx.status ≠ .done) :
    (g.withTransactions (before ++ new :: after)).Sound := by
  refine h.withTransactions _ (by simp [split, hid, htask]) ?_
  rw [split]
  refine forall_mem_middle_iff.mpr ⟨fun hopen => ?_, fun tx' htx' hopen => ?_⟩
  · exact exists_mem_middle_iff.mpr (.inl ⟨hstatus hopen, htask.symm⟩)
  · exact exists_mem_middle_iff.mpr (.inr ⟨tx', htx', hopen, rfl⟩)

/-! ### Adding records -/

/-- Transactions of a stored task may be added, with the numbers that follow, and if its contract is
analyzed their outcomes may be waited for. -/
theorem appendTransactions (h : g.Sound) {txs : List Transaction} {task : Task}
    (htask : g.store.getTask task.id = .ok task) (tasks : ∀ tx ∈ txs, tx.task = task.id)
    (hstatus : ∀ tx ∈ txs, tx.status ≠ .done → g.Analyzed task.id)
    (ids : txs.map (·.id.number) = List.range' g.nextTransaction txs.length) :
    Sound { g.withTransactions (g.store.transactions ++ txs) with
      nextTransaction := g.nextTransaction + txs.length } := by
  exact { h with
    distinct := RecordId.nodup_append h.distinct h.numbered ids
    numbered := RecordId.below_append h.numbered ids
    taskOfTransaction := fun tx htx => by
      rcases List.mem_append.mp htx with htx | htx
      · exact h.taskOfTransaction tx htx
      · exact ⟨task, tasks tx htx ▸ Store.getTask_eq_ok_iff.mp htask⟩
    awaited := fun tx htx hopen => by
      rcases List.mem_append.mp htx with htx | htx
      · exact h.awaited tx htx hopen
      · exact tasks tx htx ▸ hstatus tx htx hopen }

/-- A task and its contract may be registered under new ids. -/
theorem register (h : g.Sound) {task : Task} {contract : Contract} {definition : AbiDefinition}
    (newTask : g.store.tasks.get? task.id = none)
    (newContract : g.store.contracts.get? contract.id = none) :
    (g.register task contract definition).Sound := by
  have keptContract : ∀ {i k}, g.store.contracts.get? i = some k →
      (g.register task contract definition).store.contracts.get? i = some k := by
    intro i k hk
    refine SortedMap.get?_insert_eq_some_iff.mpr (.inr ⟨?_, hk⟩)
    rintro rfl
    rw [newContract] at hk
    cases hk
  have keptAnalyzed : ∀ {id}, g.Analyzed id → (g.register task contract definition).Analyzed id :=
    fun ⟨i, k, hk, htask, analyzed⟩ => ⟨i, k, keptContract hk, htask, analyzed⟩
  -- No contract was there for the new task.
  have apart : ∀ {i k}, g.store.contracts.get? i = some k → k.task ≠ task.id := by
    intro i k hk heq
    obtain ⟨t, ht⟩ := h.taskOfContract hk
    rw [heq, newTask] at ht
    cases ht
  exact {
    taskNamed := fun ht => by
      rcases SortedMap.get?_insert_eq_some_iff.mp ht with ⟨rfl, rfl⟩ | ⟨-, ht⟩
      · rfl
      · exact h.taskNamed ht
    contractNamed := fun hk => by
      rcases SortedMap.get?_insert_eq_some_iff.mp hk with ⟨rfl, rfl⟩ | ⟨-, hk⟩
      · rfl
      · exact h.contractNamed hk
    taskOfContract := fun hk => by
      rcases SortedMap.get?_insert_eq_some_iff.mp hk with ⟨-, rfl⟩ | ⟨-, hk⟩
      · exact ⟨task, SortedMap.get?_insert_self _ _ _⟩
      · exact exists_get?_createTask task (h.taskOfContract hk)
    contractOfTask := fun ht => by
      rcases SortedMap.get?_insert_eq_some_iff.mp ht with ⟨rfl, -⟩ | ⟨-, ht⟩
      · exact ⟨contract.id, _, SortedMap.get?_insert_self _ _ _, rfl⟩
      · obtain ⟨i, k, hk, htask⟩ := h.contractOfTask ht
        exact ⟨i, k, keptContract hk, htask⟩
    contractUnique := fun hk hk' heq => by
      rcases SortedMap.get?_insert_eq_some_iff.mp hk with ⟨rfl, rfl⟩ | ⟨-, hk⟩
      · rcases SortedMap.get?_insert_eq_some_iff.mp hk' with ⟨rfl, rfl⟩ | ⟨-, hk'⟩
        · rfl
        · exact absurd heq.symm (apart hk')
      · rcases SortedMap.get?_insert_eq_some_iff.mp hk' with ⟨rfl, rfl⟩ | ⟨-, hk'⟩
        · exact absurd heq (apart hk)
        · exact h.contractUnique hk hk' heq
    distinct := h.distinct
    numbered := h.numbered
    taskOfTransaction := fun tx htx => exists_get?_createTask task (h.taskOfTransaction tx htx)
    requested := fun id hid => keptAnalyzed (h.requested id hid)
    awaited := fun tx htx hopen => keptAnalyzed (h.awaited tx htx hopen) }

end Sound

/-! ### Moves -/

variable {config : Config} {Accepted : Task → Contract → Prop} {g g' : Ledger}

/-- An analysis does not change which contract it is. -/
theorem attachAnalysis_same (k : Contract) (graph : ControlFlowGraph) (distances : DistanceMap) :
    (k.attachAnalysis graph distances).2.id = k.id ∧
      (k.attachAnalysis graph distances).2.task = k.task := by
  unfold Contract.attachAnalysis
  split <;> exact ⟨rfl, rfl⟩

theorem enriched_same (k : Contract) (config : Config) (d : Deployment)
    (graph : ControlFlowGraph) :
    (k.enriched config d graph).id = k.id ∧ (k.enriched config d graph).task = k.task :=
  attachAnalysis_same (k.deployed d) graph _

theorem isAnalyzed_enriched (k : Contract) (config : Config) (d : Deployment)
    (graph : ControlFlowGraph) : (k.enriched config d graph).isAnalyzed = true := by
  unfold Contract.enriched Contract.attachAnalysis
  split
  · next analyzed => exact analyzed
  · rfl

/-- The node's answer does not change which transaction it is. -/
theorem apply_same (o : BatchOutcome) (tx : Transaction) :
    (o.apply tx).id = tx.id ∧ (o.apply tx).task = tx.task := by
  rw [o.apply_eq]
  exact ⟨rfl, rfl⟩

section Batch

variable (first : Nat) (task : TaskId) (function : FunctionId) (clock : Nat → Instant)
  (seeds : List Seed)

theorem length_newBatch : (newBatch first task function clock seeds).length = seeds.length :=
  List.length_mapIdx

variable {first task function clock seeds} in
theorem task_of_mem_newBatch {tx : Transaction}
    (h : tx ∈ newBatch first task function clock seeds) : tx.task = task := by
  obtain ⟨number, time, seed, -, rfl⟩ := exists_of_mem_newBatch h
  rfl

theorem numbers_newBatch :
    (newBatch first task function clock seeds).map (·.id.number) =
      List.range' first seeds.length := by
  refine List.ext_getElem (by simp [newBatch]) fun i h₁ h₂ => ?_
  simp [newBatch, Transaction.new]

/-- The node's answer does not change the numbers. -/
theorem numbers_map_apply (o : BatchOutcome) :
    ((newBatch first task function clock seeds).map o.apply).map (·.id.number) =
      List.range' first seeds.length := by
  have hids : (fun tx : Transaction => tx.id.number) ∘ o.apply = fun tx => tx.id.number :=
    funext fun tx => congrArg RecordId.number (apply_same o tx).1
  rw [List.map_map, hids, numbers_newBatch]

/-- The node's answer leaves every transaction with the time of its own look at the clock. -/
theorem timestamps_map_apply (o : BatchOutcome) :
    ((newBatch first task function clock seeds).map o.apply).map (·.timestamp) =
      (List.range seeds.length).map clock := by
  have same : Transaction.timestamp ∘ o.apply = Transaction.timestamp :=
    funext fun tx => by rw [Function.comp_apply, o.apply_eq]
  rw [List.map_map, same]
  refine List.ext_getElem (by simp [newBatch]) fun i h₁ h₂ => ?_
  simp [newBatch, Transaction.new]

end Batch

theorem Move.sound (h : g.Sound) (move : Move config Accepted g g') : g'.Sound := by
  cases move with
  | register new accepted hdefinition => exact h.register new.newTask new.newContract
  | start now htask created =>
    exact (h.insertTask (Task.started _ now) htask).publish fun hl => by cases hl
  | finish htask running expired =>
    exact (h.insertTask (Task.finished _) htask).publish fun hl => by cases hl
  | @request task contract hcontract analyzed =>
    obtain ⟨hk, htask⟩ := h.contractOfTask_eq_ok_iff.mp hcontract
    exact h.publish fun _ => ⟨contract.id, contract, hk, htask, analyzed⟩
  | expire task cutoff =>
    refine h.withTransactions _ ?_ fun tx htx hopen => ?_
    · rw [List.map_map]
      refine List.map_congr_left fun tx _ => ?_
      dsimp only [Function.comp]
      split <;> rfl
    · obtain ⟨tx', htx', rfl⟩ := List.mem_map.mp htx
      split at hopen
      · exact absurd rfl hopen
      · next hfresh => exact ⟨tx', htx', hopen, by rw [if_neg hfresh]⟩
  | deploy now hash started htask hcontract hconstructor hdefinition drawn =>
    refine h.appendTransactions htask (fun tx htx => ?_) (fun tx htx hopen => ?_) rfl
    · rw [List.mem_singleton.mp htx]
      rfl
    · rw [List.mem_singleton.mp htx] at hopen
      exact absurd rfl hopen
  | @enrich contract d graph tx hcontract hgraph last htask hashed =>
    obtain ⟨hid, hsame⟩ := enriched_same contract config d graph
    exact h.insertContract (hid ▸ hcontract) hsame fun _ =>
      isAnalyzed_enriched contract config d graph
  | @submit task contract definition function method source generated clock outcome requested
      htask running hcontract hdefinition candidate hmethod drawn =>
    have hlength : generated.length = ((newBatch g.nextTransaction task.id function.id clock
        (generated.map (·.1))).map outcome.apply).length := by
      rw [List.length_map, length_newBatch, List.length_map]
    rw [hlength]
    refine h.appendTransactions htask (fun tx htx => ?_) (fun _ _ _ => h.requested _ requested) ?_
    · obtain ⟨tx', htx', rfl⟩ := List.mem_map.mp htx
      exact (apply_same outcome tx').2.trans (task_of_mem_newBatch htx')
    · rw [← hlength, numbers_map_apply, List.length_map]
  | @record before after tx hash task contract executed split hashed first unrecorded htask
      hcontract =>
    have hid : task.id = tx.task := h.id_eq_of_getTask htask
    have hmerged : (task.mergeExecuted executed).id = tx.task := hid
    have htransactions : (g.withTransactions (before ++
        tx.recorded config.fuzzing.critical contract task.executed executed :: after)).Sound :=
      h.replaceTransaction split rfl rfl fun hopen => absurd rfl hopen
    have hboth := htransactions.insertTask (task.mergeExecuted executed) (hid ▸ htask)
    rw [Store.createTask, hmerged] at hboth
    exact hboth
  | weaken new split hashed first => exact h.replaceTransaction split rfl rfl fun hopen => hopen

/-- Any number of moves, one after the other. -/
abbrev Moves (config : Config) (Accepted : Task → Contract → Prop) : Ledger → Ledger → Prop :=
  Relation.ReflTransGen (Move config Accepted)

theorem Moves.sound (h : g.Sound) (moves : Moves config Accepted g g') : g'.Sound := by
  induction moves with
  | refl => exact h
  | tail _ move ih => exact move.sound ih

end ContractFuzz.Ledger
