import ContractFuzz.Proofs.Campaign.Callbacks
import ContractFuzz.Proofs.Campaign.Progress
import ContractFuzz.Proofs.Campaign.Redrive
/-!
# The order of callbacks

What callbacks have recorded does not depend on the order in which they arrive, except for how the
progress of a task is divided among its transactions: each of them gains what it adds to those
recorded before. The sum of the gains is the same in every order. New inputs are requested by the
last callback that a running task waits for, whichever it is.

## Main definitions

* `RecordedAll` : what recording some callbacks has done.

## Main results

* `RecordedAll.single`, `RecordedAll.append` : one callback, and more of them.
* `recordedAll_recordEach` : callbacks that are awaited are all recorded.
* `Campaign.Later.recordEach_perm` : in any order, with the same outcome.
-/

namespace ContractFuzz

open Activity

variable {ω : Type} {e : Engine ω} {c c' c'' : Campaign ω} {t : Task} {k : Contract}
  {calls calls' : List Callback} {txs txs' : List Transaction}

/-- What is gained as more and more is executed adds up. -/
theorem Contract.gainedHops_add (bounded : k.distances.Bounded) (all more further : PcSet) :
    gainedHops (k.distances.delta (k.distanceLeft all) (k.distanceLeft (all.union more))) +
      gainedHops (k.distances.delta (k.distanceLeft (all.union more))
        (k.distanceLeft ((all.union more).union further))) =
      gainedHops (k.distances.delta (k.distanceLeft all)
        (k.distanceLeft ((all.union more).union further))) := by
  have shrinks : ∀ a b : PcSet, k.distanceLeft (a.union b) ≤ k.distanceLeft a := fun a b =>
    ControlFlowGraph.minDistance_antitone bounded fun pc hpc => SortedSet.mem_union.mpr (.inl hpc)
  exact DistanceMap.gainedHops_delta_add (shrinks _ _) (shrinks _ _)
    (ControlFlowGraph.minDistance_le_unreachable bounded)
    (ControlFlowGraph.minDistance_le_worst bounded)

/-- What recording callbacks about transactions of a task has done: all that they report was added
to the aggregate, the transactions are recorded and share what was gained, and inputs were requested
if the task is running and waited for nothing else. -/
structure RecordedAll (e : Engine ω) (t : Task) (k : Contract) (calls : List Callback)
    (c : Campaign ω) (txs : List Transaction) (c' : Campaign ω) : Prop where
  tasks : ∀ id, c'.store.tasks.get? id = (c.store.tasks.get? id).map fun t' =>
    if id = t.id then t'.mergeExecuted (allExecuted calls) else t'
  transactions : List.Forall₂ (Transaction.Follows e.config.fuzzing.critical k calls)
    c.store.transactions c'.store.transactions
  results : List.Forall₂
    (fun call tx => tx ∈ c'.store.transactions ∧ tx.hash = some call.hash) calls txs
  gained : (txs.map fun tx => gainedHops tx.distanceGain).sum =
    gainedHops (k.distances.delta (k.distanceLeft t.executed)
      (k.distanceLeft (t.executed.union (allExecuted calls))))
  requests : c'.requests = { c.requests with published := c.requests.published ++
    if calls ≠ [] ∧ t.isRunning = true ∧ c.store.waitsOnlyFor t.id calls = true then [t.id]
    else [] }
  /-- Contracts, functions, numbers, other topics, sources, the world and the log stay. -/
  others : c' = { c with
    store := { c.store with
      tasks := c'.store.tasks
      transactions := c'.store.transactions }
    requests := c'.requests }

/-- A task that is running and waits for nothing gets a request, and nothing else changes. -/
theorem redriven_eq (c : Campaign ω) (t : Task) : c.redriven t = { c with requests :=
    { c.requests with published := c.requests.published ++
      if t.isRunning = true ∧ c.store.waitsOnlyFor t.id [] = true then [t.id] else [] } } := by
  rw [Campaign.redriven_eq_requests, Store.hasPending_eq_not, Bool.not_not]
  simp only [Bool.and_eq_true]

namespace RecordedAll

theorem nil (c : Campaign ω) : RecordedAll e t k [] c [] c where
  tasks id := by
    have same : ∀ t' : Task, (if id = t.id then t'.mergeExecuted (allExecuted []) else t') = t' :=
      fun t' => ite_self t'
    simp only [same, Option.map_id']
  transactions := List.forall₂_same.mpr fun tx _ => Transaction.follows_nil tx
  results := .nil
  gained := by
    have same : t.executed.union (allExecuted []) = t.executed := rfl
    rw [same, DistanceMap.delta_self, gainedHops_zero]
    rfl
  requests := by simp
  others := rfl

/-- A callback for a running transaction of the task. -/
theorem single (h : c.ledger.Sound) (ht : c.store.getTask t.id = .ok t)
    (hk : c.store.contractOfTask t.id = .ok k) {call : Callback}
    (awaits : c.store.Awaits t.id [call]) :
    ∃ tx c', (recordExecution e call.hash call.executed).perform c = (.ok tx, c') ∧
      RecordedAll e t k [call] c [tx] c' := by
  obtain ⟨tx, hmem, hashed, htask, running, unique⟩ := awaits.awaited call List.mem_cons_self
  obtain ⟨before, after, split⟩ := List.append_of_mem hmem
  -- No other transaction has the hash, since ids are distinct.
  have others : ∀ tx' ∈ before ++ after, tx'.hash ≠ some call.hash := by
    have distinct := h.distinct
    change (c.store.transactions.map (·.id)).Nodup at distinct
    rw [split, (List.perm_middle.map _).nodup_iff, List.map_cons, List.nodup_cons] at distinct
    intro tx' hmem' hashed'
    obtain rfl := unique tx' (split ▸ (List.perm_middle.mem_iff.mpr
      (List.mem_cons_of_mem _ hmem'))) hashed'
    exact distinct.1 (List.mem_map_of_mem hmem')
  have first : ∀ tx' ∈ before, tx'.hash ≠ some call.hash :=
    fun tx' hmem' => others tx' (List.mem_append_left _ hmem')
  have last : ∀ tx' ∈ after, tx'.hash ≠ some call.hash :=
    fun tx' hmem' => others tx' (List.mem_append_right _ hmem')
  have performed := perform_recordExecution (e := e) h.distinct call.executed split hashed first
    (by rw [running]; exact nofun) (htask ▸ ht) (htask ▸ hk)
  have follows : List.Forall₂ (Transaction.Follows e.config.fuzzing.critical k [call])
      c.store.transactions (c.recorded e call.executed before after tx t k).store.transactions := by
    rw [split]
    refine List.rel_append (List.forall₂_same.mpr fun tx' hmem' => ?_)
      (.cons (Transaction.follows_recorded hashed t.executed) (List.forall₂_same.mpr
        fun tx' hmem' => ?_))
    · exact Transaction.follows_of_ne (first tx' hmem')
    · exact Transaction.follows_of_ne (last tx' hmem')
  refine ⟨_, _, performed, ?_⟩
  exact {
    tasks := fun id => by
      rw [store_redriven]
      change (c.store.tasks.insert tx.task (t.mergeExecuted call.executed)).get? id = _
      rw [SortedMap.get?_insert, htask, allExecuted_singleton]
      by_cases hid : id = t.id
      · rw [if_pos hid, hid, Store.getTask_eq_ok_iff.mp ht, Option.map_some, if_pos rfl]
      · simp [hid]
    transactions := by
      rw [store_redriven]
      exact follows
    results := by
      rw [store_redriven]
      refine .cons ⟨List.mem_append_right _ List.mem_cons_self, hashed⟩ .nil
    gained := by
      rw [allExecuted_singleton]
      exact Nat.add_zero _
    requests := by
      rw [redriven_eq]
      have waits : (c.recorded e call.executed before after tx t k).store.waitsOnlyFor t.id [] =
        c.store.waitsOnlyFor t.id [call] := Store.waitsOnlyFor_append follows
      have same : ((t.mergeExecuted call.executed).isRunning = true ∧
          (c.recorded e call.executed before after tx t k).store.waitsOnlyFor t.id [] = true) ↔
          ([call] ≠ [] ∧ t.isRunning = true ∧ c.store.waitsOnlyFor t.id [call] = true) := by
        rw [waits]
        exact ⟨fun both => ⟨List.cons_ne_nil _ _, both⟩, And.right⟩
      exact congrArg (fun requested => Topic.mk (c.requests.published ++ requested) _)
        (if_congr same rfl rfl)
    others := by
      rw [redriven_eq]
      rfl }

/-- Some callbacks, and then others about other transactions. -/
theorem append (bounded : k.distances.Bounded) (awaits : c.store.Awaits t.id (calls ++ calls'))
    (h : RecordedAll e t k calls c txs c')
    (h' : RecordedAll e (t.mergeExecuted (allExecuted calls)) k calls' c' txs' c'') :
    RecordedAll e t k (calls ++ calls') c (txs ++ txs') c'' where
  tasks id := by
    rw [h'.tasks, h.tasks, Option.map_map, allExecuted_append]
    congr 1
    funext t'
    by_cases hid : id = t.id
    · simp [hid, Task.mergeExecuted, PcSet.union_assoc]
    · simp [hid, Task.mergeExecuted]
  transactions := forall₂_comp h.transactions h'.transactions
    fun _ _ _ first next => first.append next awaits.apart
  results := by
    refine List.rel_append ?_ h'.results
    have among := (List.forall₂_and_left (p := (· ∈ calls)) calls txs).mpr
      ⟨fun _ hcall => hcall, h.results⟩
    refine among.imp fun call tx recorded => ?_
    obtain ⟨hcall, htx, hashed⟩ := recorded
    refine ⟨?_, hashed⟩
    -- The callbacks that follow are not about this transaction.
    obtain ⟨tx', htx', follows⟩ := (exists_mem_of_forall₂ h'.transactions).1 tx htx
    rwa [follows.unreported fun call' hcall' hashed' => awaits.apart call hcall call' hcall'
      (Option.some.inj (hashed.symm.trans hashed'))] at htx'
  gained := by
    rw [List.map_append, List.sum_append, h.gained, h'.gained, allExecuted_append,
      ← PcSet.union_assoc]
    exact k.gainedHops_add bounded _ _ _
  requests := by
    rw [h'.requests, h.requests]
    by_cases hnil : calls' = []
    · simp [hnil]
    · have none := awaits.waitsOnlyFor_eq_false hnil
      have quiet : (if calls ≠ [] ∧ t.isRunning = true ∧ c.store.waitsOnlyFor t.id calls = true
          then [t.id] else []) = [] :=
        if_neg fun idle => by rw [none] at idle; cases idle.2.2
      have waits : c'.store.waitsOnlyFor t.id calls' =
          c.store.waitsOnlyFor t.id (calls ++ calls') := Store.waitsOnlyFor_append h.transactions
      have same : (calls' ≠ [] ∧ (t.mergeExecuted (allExecuted calls)).isRunning = true ∧
          c'.store.waitsOnlyFor t.id calls' = true) ↔ (calls ++ calls' ≠ [] ∧ t.isRunning = true ∧
          c.store.waitsOnlyFor t.id (calls ++ calls') = true) := by
        rw [waits]
        exact and_congr_left fun _ => iff_of_true hnil (List.append_ne_nil_of_right_ne_nil _ hnil)
      rw [quiet, List.append_nil]
      exact congrArg (fun requested => Topic.mk (c.requests.published ++ requested) _)
        (if_congr same rfl rfl)
  others := by
    conv_lhs => rw [h'.others, h.others]

end RecordedAll

/-- Callbacks that a task waits for are all recorded. -/
theorem recordedAll_recordEach (h : c.ledger.Sound) (ht : c.store.getTask t.id = .ok t)
    (hk : c.store.contractOfTask t.id = .ok k) (bounded : k.distances.Bounded)
    (awaits : c.store.Awaits t.id calls) :
    ∃ txs c', (recordEach e calls).perform c = (.ok txs, c') ∧
      RecordedAll e t k calls c txs c' := by
  induction calls generalizing c t with
  | nil => exact ⟨_, _, rfl, .nil c⟩
  | cons call rest ih =>
    have both : c.store.Awaits t.id ([call] ++ rest) := awaits
    obtain ⟨tx, c', performed, first⟩ := RecordedAll.single (e := e) h ht hk both.left
    have sound : c'.ledger.Sound := by
      have moves : Ledger.Moves e.config (fun _ _ => True) c.ledger
          ((recordExecution e call.hash call.executed).perform c).2.ledger :=
        moves_recordExecution h call.hash call.executed
      rw [performed] at moves
      exact moves.sound h
    let merged := t.mergeExecuted (allExecuted [call])
    have ht' : c'.store.getTask merged.id = .ok merged := by
      change c'.store.getTask t.id = _
      rw [Store.getTask_eq_ok_iff, first.tasks, Store.getTask_eq_ok_iff.mp ht, Option.map_some,
        if_pos rfl]
    have hk' : c'.store.contractOfTask t.id = .ok k := by
      rw [first.others]
      exact hk
    obtain ⟨txs, c'', hrest, next⟩ := ih sound ht' hk' (both.right first.transactions)
    refine ⟨tx :: txs, c'', ?_, first.append bounded both next⟩
    rw [recordEach, perform_bind_of_ok performed, perform_bind_of_ok hrest]
    rfl

/-! ### Any order -/

/-- Two states are the same but for how transactions that were reported share what was gained. -/
structure SameUpToGains (calls : List Callback) (c c' : Campaign ω) : Prop where
  transactions : List.Forall₂ (fun tx tx' => tx.withoutGains = tx'.withoutGains ∧
      ((∀ call ∈ calls, tx.hash ≠ some call.hash) → tx = tx'))
    c.store.transactions c'.store.transactions
  /-- Tasks, contracts, functions, topics and everything else are the same. -/
  others : c' = { c with store := { c.store with transactions := c'.store.transactions } }

theorem Store.waitsOnlyFor_eq_of_perm (perm : calls.Perm calls') (id : TaskId) (s : Store) :
    s.waitsOnlyFor id calls' = s.waitsOnlyFor id calls := by
  rw [Bool.eq_iff_iff, waitsOnlyFor_iff, waitsOnlyFor_iff]
  simp only [perm.mem_iff]

/-- The same callbacks in another order lead to the same state, up to gains. -/
theorem RecordedAll.sameUpToGains (h : RecordedAll e t k calls c txs c')
    (h' : RecordedAll e t k calls' c txs' c'') (perm : calls.Perm calls') :
    SameUpToGains calls c' c'' where
  transactions := forall₂_comp h.transactions.flip h'.transactions
    fun _ _ _ follows follows' => Transaction.Follows.eq_of_perm follows follows' perm
  others := by
    have tasks : c''.store.tasks = c'.store.tasks := by
      refine SortedMap.ext_get? fun id => ?_
      rw [h.tasks, h'.tasks, allExecuted_eq_of_perm perm]
    have requests : c''.requests = c'.requests := by
      have nil : calls' ≠ [] ↔ calls ≠ [] := not_congr (by
        rw [← List.length_eq_zero_iff, ← List.length_eq_zero_iff, perm.length_eq])
      rw [h.requests, h'.requests, Store.waitsOnlyFor_eq_of_perm perm]
      exact congrArg (fun requested => Topic.mk (c.requests.published ++ requested) _)
        (if_congr (and_congr_left fun _ => nil) rfl rfl)
    conv_lhs => rw [h'.others, tasks, requests]
    conv_rhs => rw [h.others]

/-- Callbacks are recorded in their order: each of them succeeds with the transaction that is stored
for its hash. As long as others are to come nothing is requested; the last one requests inputs if
the task is running and has waited for nothing else. -/
structure RecordsInOrder (e : Engine ω) (t : Task) (calls : List Callback) (c : Campaign ω)
    (txs : List Transaction) (c' : Campaign ω) : Prop where
  performed : (recordEach e calls).perform c = (.ok txs, c')
  results : List.Forall₂
    (fun call tx => tx ∈ c'.store.transactions ∧ tx.hash = some call.hash) calls txs
  requests : ∀ arrived rest, calls = arrived ++ rest → ∃ txs₁ c₁,
    (recordEach e arrived).perform c = (.ok txs₁, c₁) ∧
      c₁.requests.published = c.requests.published ++
        if rest = [] ∧ t.isRunning = true ∧ c.store.waitsOnlyFor t.id calls = true then [t.id]
        else []

/-- Awaited callbacks are recorded in their order. -/
theorem recordsInOrder (h : c.ledger.Sound) (ht : c.store.getTask t.id = .ok t)
    (hk : c.store.contractOfTask t.id = .ok k) (bounded : k.distances.Bounded)
    (awaits : c.store.Awaits t.id calls) (some : calls ≠ []) :
    ∃ txs c', RecordedAll e t k calls c txs c' ∧ RecordsInOrder e t calls c txs c' := by
  obtain ⟨txs, c', performed, all⟩ := recordedAll_recordEach (e := e) h ht hk bounded awaits
  refine ⟨txs, c', all, performed, all.results, fun arrived rest split => ?_⟩
  subst split
  by_cases hrest : rest = []
  · subst hrest
    rw [List.append_nil] at some performed all ⊢
    refine ⟨txs, c', performed, ?_⟩
    simp [all.requests, some]
  · obtain ⟨txs₁, c₁, performed₁, first⟩ :=
      recordedAll_recordEach (e := e) h ht hk bounded awaits.left
    refine ⟨txs₁, c₁, performed₁, ?_⟩
    simp [first.requests, hrest, awaits.waitsOnlyFor_eq_false hrest]

namespace Campaign

variable {world : ω} {deployer fuzzer : Source} {id : TaskId}

/-- The order in which callbacks for running transactions of a task arrive makes no difference to
what is recorded, except for how the transactions share what they gain together: the hops gained
add up to the same. In each order the last callback requests inputs if need be, and no other. -/
theorem Later.recordEach_perm (h : Later e (initial world deployer fuzzer) c)
    (ht : c.store.getTask id = .ok t)
    (bounded : ∀ k, c.store.contractOfTask id = .ok k → k.distances.Bounded)
    (awaits : c.store.Awaits id calls) (some : calls ≠ []) (perm : calls.Perm calls') :
    ∃ txs c₁ txs' c₂, RecordsInOrder e t calls c txs c₁ ∧ RecordsInOrder e t calls' c txs' c₂ ∧
      SameUpToGains calls c₁ c₂ ∧
      (txs.map fun tx => gainedHops tx.distanceGain).sum =
        (txs'.map fun tx => gainedHops tx.distanceGain).sum := by
  have sound := h.sound
  obtain rfl := sound.id_eq_of_getTask ht
  obtain ⟨k, hk⟩ := sound.exists_contractOfTask ht
  have some' : calls' ≠ [] := fun hnil => some (hnil ▸ perm).eq_nil
  obtain ⟨txs, c₁, all, inOrder⟩ := recordsInOrder (e := e) sound ht hk (bounded k hk) awaits some
  obtain ⟨txs', c₂, all', inOrder'⟩ :=
    recordsInOrder (e := e) sound ht hk (bounded k hk) (awaits.perm perm) some'
  refine ⟨txs, c₁, txs', c₂, inOrder, inOrder', all.sameUpToGains all' perm, ?_⟩
  rw [all.gained, all'.gained, allExecuted_eq_of_perm perm]

/-- The distances of a contract are numbers of thirty-two bits if those of all registered contracts
are. -/
theorem Reachable.bounded_distances
    (h : Reachable e (fun _ contract => contract.distances.Bounded) c)
    (hk : c.store.contractOfTask id = .ok k) : k.distances.Bounded := by
  have measured : c.ledger.store.Measured :=
    h.invariant (J := fun g => g.store.Measured) .empty fun sound hm move => move.measured sound hm
  exact measured.bounded (h.sound.contractOfTask_eq_ok_iff.mp hk).1

/-- The callbacks of the short campaign. -/
def switchCallbacks : List Callback := [⟨"h1", .ofList [0, 10]⟩, ⟨"h2", .ofList [0]⟩]

theorem later_switchSubmitted :
    Later switchEngine (initial switchWorld (.ofSeed 0) (.ofSeed 0)) switchSubmitted := by
  refine (Later.now.step (.register switchTask switchContract) ⟨rfl, rfl⟩).performAll ?_
  intro op hop c
  have hmem := List.mem_of_mem_take hop
  simp only [switchOperations, List.mem_cons, List.not_mem_nil, or_false] at hmem
  rcases hmem with rfl | rfl | rfl | rfl | rfl | rfl | rfl <;> exact trivial

theorem bounded_switchSubmitted {k : Contract}
    (hk : switchSubmitted.store.contractOfTask ⟨0⟩ = .ok k) : k.distances.Bounded := by
  have start : Reachable switchEngine (fun _ contract => contract.distances.Bounded)
      (Campaign.start 0 switchWorld) := .start switchWorld (.ofSeed 0) (.ofSeed 0)
  have registered := start.step (.register switchTask switchContract)
    ⟨⟨rfl, rfl, rfl, rfl⟩, DistanceMap.bounded_empty⟩
  refine Reachable.bounded_distances (registered.performAll fun op hop c => ?_) hk
  have hmem := List.mem_of_mem_take hop
  simp only [switchOperations, List.mem_cons, List.not_mem_nil, or_false] at hmem
  rcases hmem with rfl | rfl | rfl | rfl | rfl | rfl | rfl <;> exact trivial

theorem awaits_switchCallbacks : switchSubmitted.store.Awaits ⟨0⟩ switchCallbacks where
  distinct := by decide
  awaited call hcall := by
    have facts : (∀ call ∈ switchCallbacks, ∃ tx ∈ switchSubmitted.store.transactions,
        tx.hash = some call.hash ∧ tx.task = ⟨0⟩ ∧ tx.status = .running) ∧
        (switchSubmitted.store.transactions.map (·.hash)).Nodup := by decide +kernel
    obtain ⟨found, distinct⟩ := facts
    obtain ⟨tx, htx, hashed, htask, running⟩ := found call hcall
    exact ⟨tx, htx, hashed, htask, running, fun tx' htx' hashed' =>
      List.inj_on_of_nodup_map distinct htx' htx (hashed'.trans hashed.symm)⟩

/-- The first callback carries the mark, and with it different hops in the two orders. -/
theorem recordEach_perm_switchCallbacks :
    ∃ t txs c₁ txs' c₂, switchSubmitted.store.getTask ⟨0⟩ = .ok t ∧
      RecordsInOrder switchEngine t switchCallbacks switchSubmitted txs c₁ ∧
      RecordsInOrder switchEngine t switchCallbacks.reverse switchSubmitted txs' c₂ ∧
      SameUpToGains switchCallbacks c₁ c₂ ∧
      txs.map (·.distanceGain) = [unreachable + 1, 0] ∧
      txs'.map (·.distanceGain) = [unreachable, 1] := by
  have facts : (switchSubmitted.store.getTask ⟨0⟩).toOption.map (·.isRunning) = some true ∧
      ((recordEach switchEngine switchCallbacks).perform switchSubmitted).1.toOption.map
        (·.map (·.distanceGain)) = some [unreachable + 1, 0] ∧
      ((recordEach switchEngine switchCallbacks.reverse).perform
        switchSubmitted).1.toOption.map (·.map (·.distanceGain)) = some [unreachable, 1] := by
    decide +kernel
  obtain ⟨running, gains, gains'⟩ := facts
  obtain ⟨t, ht, -⟩ := exists_of_toOption running
  obtain ⟨txs, c₁, txs', c₂, inOrder, inOrder', same, -⟩ :=
    later_switchSubmitted.recordEach_perm ht (fun _ hk => bounded_switchSubmitted hk)
      awaits_switchCallbacks (by decide) (List.reverse_perm _).symm
  rw [inOrder.performed] at gains
  rw [inOrder'.performed] at gains'
  exact ⟨t, txs, c₁, txs', c₂, ht, inOrder, inOrder', same, Option.some.inj gains,
    Option.some.inj gains'⟩

end Campaign

end ContractFuzz
