import ContractFuzz.Proofs.Campaign.Reachable
import ContractFuzz.Proofs.Graph.MinDistance
/-!
# The progress of a task

The gains of a task's transactions add up to the way from the worst finite distance of its contract
to the distance that its executed instructions leave. No gain is counted twice and none is lost,
however often, however late and in whatever order the node reports.

## Main definitions

* `Transaction.gains` : the gains of the transactions of a task.
* `Store.Measured` : the invariant.

## Main results

* `Campaign.Reachable.distanceGains_telescope` : gains add up in every reachable state.
-/

namespace ContractFuzz

/-! ### Gains -/

/-- The gains of those transactions that belong to a task. -/
def Transaction.gains (task : TaskId) (txs : List Transaction) : List Nat :=
  (txs.filter (·.task == task)).map (·.distanceGain)

namespace Transaction

variable {task : TaskId} {txs txs' : List Transaction} {tx : Transaction}

theorem mem_gains {gain : Nat} :
    gain ∈ gains task txs ↔ ∃ tx ∈ txs, tx.task = task ∧ tx.distanceGain = gain := by
  simp [gains, and_assoc]

theorem gains_append : gains task (txs ++ txs') = gains task txs ++ gains task txs' := by
  rw [gains, List.filter_append, List.map_append]
  rfl

theorem gains_cons_of_eq (h : tx.task = task) :
    gains task (tx :: txs) = tx.distanceGain :: gains task txs := by
  rw [gains, List.filter_cons_of_pos (by simp [h]), List.map_cons]
  rfl

theorem gains_cons_of_ne (h : tx.task ≠ task) : gains task (tx :: txs) = gains task txs := by
  rw [gains, List.filter_cons_of_neg (by simp [h])]
  rfl

/-- Versions that agree have the same gains. -/
theorem gains_eq_of_agrees (h : List.Forall₂ Agrees txs txs') :
    gains task txs' = gains task txs := by
  induction h with
  | nil => rfl
  | @cons tx tx' txs txs' hagree _ ih =>
    by_cases htask : tx.task = task
    · rw [gains_cons_of_eq htask, gains_cons_of_eq (hagree.task.trans htask),
        hagree.distanceGain, ih]
    · rw [gains_cons_of_ne htask, gains_cons_of_ne (hagree.task ▸ htask), ih]

end Transaction

open Transaction (gains)

/-! ### The invariant -/

/-- The distance that is left once some instructions of a contract were executed. -/
def Contract.distanceLeft (k : Contract) (executed : PcSet) : Nat :=
  k.knownGraph.minDistance k.distances executed

namespace Contract

variable (k : Contract) (config : Config) (d : Deployment) (graph : ControlFlowGraph)

theorem enriched_of_isAnalyzed (h : k.isAnalyzed = true) :
    k.enriched config d graph = k.deployed d := by
  have hdeployed : (k.deployed d).isAnalyzed = true := h
  rw [enriched, attachAnalysis, if_pos hdeployed]

theorem enriched_of_not_isAnalyzed (h : k.isAnalyzed = false) :
    k.enriched config d graph =
      { k.deployed d with
        graph := some graph
        distances := graph.distanceMap config.fuzzing.critical
        targetCount := (graph.distanceMap config.fuzzing.critical).size } := by
  have hdeployed : ¬ (k.deployed d).isAnalyzed = true := ne_true_of_eq_false h
  rw [enriched, attachAnalysis, if_neg hdeployed]

theorem bounded_enriched (h : k.distances.Bounded) :
    (k.enriched config d graph).distances.Bounded := by
  cases hanalyzed : k.isAnalyzed with
  | true => exact k.enriched_of_isAnalyzed config d graph hanalyzed ▸ h
  | false =>
    rw [enriched_of_not_isAnalyzed k config d graph hanalyzed]
    exact graph.bounded_distanceMap config.fuzzing.critical

/-- The gains still add up after an analysis, if nothing was executed without one. -/
theorem telescopes_enriched {executed : PcSet} {all : List Nat}
    (h : k.distances.Telescopes (k.distanceLeft executed) all)
    (hexecuted : k.isAnalyzed = false → executed = .empty) :
    (k.enriched config d graph).distances.Telescopes
      ((k.enriched config d graph).distanceLeft executed) all := by
  cases hanalyzed : k.isAnalyzed with
  | true =>
    rw [enriched_of_isAnalyzed k config d graph hanalyzed]
    exact h
  | false =>
    rw [hexecuted hanalyzed, distanceLeft, ControlFlowGraph.minDistance_empty] at h ⊢
    exact h.change _

end Contract

namespace Store

/-- The gains of every task add up to its progress. Transactions gain nothing until they are done,
and nothing is executed before the analysis. -/
structure Measured (s : Store) : Prop where
  bounded : ∀ {i k}, s.contracts.get? i = some k → k.distances.Bounded
  ungained : ∀ tx ∈ s.transactions, tx.status ≠ .done → tx.distanceGain = 0
  unexecuted : ∀ {i k t}, s.contracts.get? i = some k → s.tasks.get? k.task = some t →
    k.isAnalyzed = false → t.executed = .empty
  telescopes : ∀ {i k t}, s.contracts.get? i = some k → s.tasks.get? k.task = some t →
    k.distances.Telescopes (k.distanceLeft t.executed) (gains k.task s.transactions)

namespace Measured

variable {s : Store}

theorem empty : Measured .empty where
  bounded h := by cases h
  ungained _ h := by cases h
  unexecuted h := by cases h
  telescopes h := by cases h

/-- A task may be replaced by a version with the same aggregate. -/
theorem createTask (h : s.Measured) {old new : Task} (hold : s.getTask new.id = .ok old)
    (same : new.executed = old.executed) : (s.createTask new).Measured where
  bounded := h.bounded
  ungained := h.ungained
  unexecuted hk ht unanalyzed := by
    obtain ⟨t', ht', heq⟩ := exists_of_createTask hold same ht
    exact heq.trans (h.unexecuted hk ht' unanalyzed)
  telescopes hk ht := by
    obtain ⟨t', ht', heq⟩ := exists_of_createTask hold same ht
    exact heq ▸ h.telescopes hk ht'

/-- Transactions without a gain may be added. -/
theorem append (h : s.Measured) {txs : List Transaction}
    (hzero : ∀ tx ∈ txs, tx.distanceGain = 0) :
    Measured { s with transactions := s.transactions ++ txs } where
  bounded := h.bounded
  ungained tx htx hopen := by
    rcases List.mem_append.mp htx with htx | htx
    · exact h.ungained tx htx hopen
    · exact hzero tx htx
  unexecuted := h.unexecuted
  telescopes {i k t} hk ht := by
    change k.distances.Telescopes (k.distanceLeft t.executed)
      (gains k.task (s.transactions ++ txs))
    rw [Transaction.gains_append]
    refine (h.telescopes hk ht).append fun gain hgain => ?_
    obtain ⟨tx, htx, -, rfl⟩ := Transaction.mem_gains.mp hgain
    exact hzero tx htx

/-- Transactions may be replaced by versions that agree with them. -/
theorem versions (h : s.Measured) {txs : List Transaction}
    (agree : List.Forall₂ Transaction.Agrees s.transactions txs) :
    Measured { s with transactions := txs } where
  bounded := h.bounded
  ungained tx' htx' hopen := by
    obtain ⟨tx, htx, hagree⟩ := (exists_mem_of_forall₂ agree).2 tx' htx'
    exact hagree.distanceGain.trans (h.ungained tx htx (hagree.status hopen))
  unexecuted := h.unexecuted
  telescopes {i k t} hk ht := by
    change k.distances.Telescopes (k.distanceLeft t.executed) (gains k.task txs)
    rw [Transaction.gains_eq_of_agrees agree]
    exact h.telescopes hk ht

/-- An analysis may be taken up. Without an earlier one nothing was executed, so that nothing is
within reach either way. -/
theorem enrich (h : s.Measured) {k : Contract} (hk : s.getContract k.id = .ok k) (config : Config)
    (d : Deployment) (graph : ControlFlowGraph) :
    (s.createContract (k.enriched config d graph)).Measured := by
  have hk := getContract_eq_ok_iff.mp hk
  obtain ⟨hid, htask⟩ := Ledger.enriched_same k config d graph
  have contracts : ∀ {i k'}, (s.createContract (k.enriched config d graph)).contracts.get? i =
      some k' → k' = k.enriched config d graph ∨ s.contracts.get? i = some k' := by
    intro i k' hk'
    exact (SortedMap.get?_insert_eq_some_iff.mp hk').imp And.right And.right
  refine ⟨fun {i k'} hk' => ?_, h.ungained, fun {i k' t} hk' ht unanalyzed => ?_,
    fun {i k' t} hk' ht => ?_⟩
  · rcases contracts hk' with rfl | hk'
    · exact k.bounded_enriched config d graph (h.bounded hk)
    · exact h.bounded hk'
  · rcases contracts hk' with rfl | hk'
    · rw [Ledger.isAnalyzed_enriched] at unanalyzed
      cases unanalyzed
    · exact h.unexecuted hk' ht unanalyzed
  · rcases contracts hk' with rfl | hk'
    · rw [htask] at ht ⊢
      exact k.telescopes_enriched config d graph (h.telescopes hk ht) (h.unexecuted hk ht)
    · exact h.telescopes hk' ht

end Measured

end Store

/-! ### Moves -/

namespace Ledger

variable {config : Config} {g g' : Ledger}

/-- Accepted contracts come with distances of thirty-two bits. -/
abbrev BoundedContract : Task → Contract → Prop := fun _ contract => contract.distances.Bounded

/-- A registered task has executed nothing and has no transactions yet. -/
theorem measured_register (h : g.Sound) (hm : g.store.Measured) {task : Task}
    {contract : Contract} {definition : AbiDefinition} (new : g.Registrable task contract)
    (hbounded : contract.distances.Bounded) :
    (g.register task contract definition).store.Measured := by
  have contracts : ∀ {i k}, (g.register task contract definition).store.contracts.get? i =
      some k → k = { contract with task := task.id } ∨
        k.task ≠ task.id ∧ g.store.contracts.get? i = some k := by
    intro i k hk
    rcases SortedMap.get?_insert_eq_some_iff.mp hk with ⟨-, rfl⟩ | ⟨-, hk⟩
    · exact .inl rfl
    · refine .inr ⟨fun heq => ?_, hk⟩
      obtain ⟨t, ht⟩ := h.taskOfContract hk
      rw [heq, new.newTask] at ht
      cases ht
  have quiet : gains task.id g.store.transactions = [] := by
    refine List.eq_nil_iff_forall_not_mem.mpr fun gain hgain => ?_
    obtain ⟨tx, htx, htask, -⟩ := Transaction.mem_gains.mp hgain
    obtain ⟨t, ht⟩ := h.taskOfTransaction tx htx
    rw [htask, new.newTask] at ht
    cases ht
  refine ⟨fun {i k} hk => ?_, hm.ungained, fun {i k t} hk ht unanalyzed => ?_,
    fun {i k t} hk ht => ?_⟩
  · rcases contracts hk with rfl | ⟨-, hk⟩
    · exact hbounded
    · exact hm.bounded hk
  · rcases SortedMap.get?_insert_eq_some_iff.mp ht with ⟨-, rfl⟩ | ⟨hne, ht⟩
    · exact new.unexecuted
    · rcases contracts hk with rfl | ⟨-, hk⟩
      · exact absurd rfl hne
      · exact hm.unexecuted hk ht unanalyzed
  · rcases contracts hk with rfl | ⟨hne, hk⟩
    · rcases SortedMap.get?_insert_eq_some_iff.mp ht with ⟨-, rfl⟩ | ⟨hne, -⟩
      · rw [new.unexecuted]
        change contract.distances.Telescopes
          (contract.knownGraph.minDistance contract.distances .empty)
          (gains t.id g.store.transactions)
        rw [ControlFlowGraph.minDistance_empty, quiet]
        exact .nil _
      · exact absurd rfl hne
    · rcases SortedMap.get?_insert_eq_some_iff.mp ht with ⟨heq, -⟩ | ⟨-, ht⟩
      · exact absurd heq hne
      · exact hm.telescopes hk ht

/-- What a transaction executed may be recorded, with the progress that it makes. -/
theorem measured_record (h : g.Sound) (hm : g.store.Measured) {before after : List Transaction}
    {tx : Transaction} {task : Task} {contract : Contract} {critical : List String}
    {executed : PcSet} (split : g.store.transactions = before ++ tx :: after)
    (unrecorded : tx.status ≠ .done) (htask : g.store.getTask tx.task = .ok task)
    (hcontract : g.store.contractOfTask tx.task = .ok contract) :
    Store.Measured { g.store with
      transactions := before ++ tx.recorded critical contract task.executed executed :: after
      tasks := g.store.tasks.insert tx.task (task.mergeExecuted executed) } := by
  have hmem : tx ∈ g.store.transactions := split ▸ List.mem_append_right _ List.mem_cons_self
  have htask := Store.getTask_eq_ok_iff.mp htask
  obtain ⟨hk, hown⟩ := h.contractOfTask_eq_ok_iff.mp hcontract
  have analyzed : contract.isAnalyzed = true :=
    (h.analyzed_iff hcontract).mp (h.awaited tx hmem unrecorded)
  have unique : ∀ {i k}, g.store.contracts.get? i = some k → k.task = tx.task → k = contract := by
    intro i k hk' heq
    rw [h.contractUnique hk' hk (heq.trans hown.symm), hk] at hk'
    exact (Option.some.inj hk').symm
  refine ⟨hm.bounded, ?_, fun {i k t} hk' ht unanalyzed => ?_,
    fun {i k t} hk' ht => ?_⟩
  · have hrest := hm.ungained
    rw [split] at hrest
    exact forall_mem_middle_iff.mpr
      ⟨fun hopen => absurd rfl hopen, (forall_mem_middle_iff.mp hrest).2⟩
  · rcases SortedMap.get?_insert_eq_some_iff.mp ht with ⟨heq, -⟩ | ⟨-, ht⟩
    · rw [unique hk' heq, analyzed] at unanalyzed
      cases unanalyzed
    · exact hm.unexecuted hk' ht unanalyzed
  · change k.distances.Telescopes (k.distanceLeft t.executed)
      (gains k.task (before ++ tx.recorded critical contract task.executed executed :: after))
    rcases SortedMap.get?_insert_eq_some_iff.mp ht with ⟨heq, rfl⟩ | ⟨hne, ht⟩
    · -- The gain of the transaction was zero, and becomes the progress of the task.
      obtain rfl := unique hk' heq
      have hbounded : k.distances.Bounded := hm.bounded hk
      have htotal := hm.telescopes hk (heq ▸ htask)
      have hrecorded : (tx.recorded critical k task.executed executed).task = k.task := heq.symm
      rw [split, Transaction.gains_append, Transaction.gains_cons_of_eq heq.symm,
        hm.ungained tx hmem unrecorded] at htotal
      rw [Transaction.gains_append, Transaction.gains_cons_of_eq hrecorded]
      exact htotal.gain
        (ControlFlowGraph.minDistance_antitone hbounded fun pc hpc =>
          SortedSet.mem_union.mpr (.inl hpc))
        (ControlFlowGraph.minDistance_le_unreachable hbounded)
        (ControlFlowGraph.minDistance_le_worst hbounded)
    · have htotal := hm.telescopes hk' ht
      have hrecorded : (tx.recorded critical contract task.executed executed).task ≠ k.task :=
        Ne.symm hne
      rw [split, Transaction.gains_append, Transaction.gains_cons_of_ne (Ne.symm hne)] at htotal
      rw [Transaction.gains_append, Transaction.gains_cons_of_ne hrecorded]
      exact htotal

/-- Every move keeps the gains adding up. -/
theorem Move.measured (h : g.Sound) (hm : g.store.Measured)
    (move : Move config BoundedContract g g') : g'.store.Measured := by
  cases move with
  | register new accepted hdefinition => exact measured_register h hm new accepted
  | start now htask created => exact hm.createTask htask rfl
  | finish htask running expired => exact hm.createTask htask rfl
  | request hcontract analyzed => exact hm
  | expire task cutoff => exact hm.versions (agrees_expire _ _)
  | deploy now hash started htask hcontract hconstructor hdefinition drawn =>
    refine hm.append fun tx htx => ?_
    rw [List.mem_singleton.mp htx]
    rfl
  | enrich hcontract hgraph last htask hashed => exact hm.enrich hcontract _ _ _
  | submit clock outcome requested htask running hcontract hdefinition candidate hmethod drawn =>
    exact hm.append fun tx htx => (unexecuted_of_mem_batch htx).2.2
  | record executed split hashed first unrecorded htask hcontract =>
    exact measured_record h hm split unrecorded htask hcontract
  | weaken new split hashed first => exact hm.versions (split ▸ agrees_weaken _ _ _ _)

end Ledger

/-! ### Reachable states -/

end ContractFuzz
