import ContractFuzz.Proofs.Campaign.CallbackOrder
/-!
# Calls of the recorder

The recorder is called about executions, about transactions that have waited too long, and about
weaknesses. Calls about weaknesses may come at any place among the others, with the same outcome.
Whatever the order, each of them answers with what was not known before.

## Main definitions

* `RecorderCall`, `performCalls` : calls, one after the other.
* `Campaign.weaken` : further weaknesses of a transaction.
* `revealed` : the answers to the calls about the weaknesses of a transaction.
* `Unveils` : sets of weaknesses that become known one after the other.

## Main results

* `foldl_eq_of_perm` : steps that commute with all others may be taken at any time.
* `RecorderCall.perform_weaken` : weaknesses make no difference to any call.
* `unveils_performCalls` : what calls about weaknesses are answered, and what is stored then.
* `Campaign.Later.performCalls_perm` : the order of calls about weaknesses does not matter.
-/

namespace ContractFuzz

open Activity

/-! ### Steps that may be taken at any time -/

section Fold

variable {σ κ : Type} {step : σ → κ → σ} {I : σ → Prop} {free : κ → Bool} {l l' : List κ}

variable (kept : ∀ s k, I s → I (step s k))
  (comm : ∀ s a b, I s → free a = true → step (step s a) b = step (step s b) a)

include kept comm

/-- A free step may as well be taken after some others. -/
private theorem foldl_step_comm {s : σ} (hs : I s) {a : κ} (ha : free a = true) :
    l.foldl step (step s a) = step (l.foldl step s) a := by
  induction l generalizing s with
  | nil => rfl
  | cons b l ih => rw [List.foldl_cons, List.foldl_cons, comm s a b hs ha, ih (kept s b hs)]

/-- The free steps may be taken in the end. -/
private theorem foldl_eq_foldl_free {s : σ} (hs : I s) : l.foldl step s =
    (l.filter free).foldl step ((l.filter fun k => !free k).foldl step s) := by
  induction l generalizing s with
  | nil => rfl
  | cons a l ih =>
    rw [List.foldl_cons, ih (kept s a hs)]
    cases ha : free a with
    | true => simp [ha, foldl_step_comm kept comm hs ha]
    | false => simp [ha]

/-- Free steps may be taken in any order. -/
private theorem foldl_free_eq_of_perm {s : σ} (hs : I s) (hfree : ∀ k ∈ l, free k = true)
    (perm : l.Perm l') : l.foldl step s = l'.foldl step s := by
  induction perm generalizing s with
  | nil => rfl
  | cons a _ ih => exact ih (kept s a hs) fun k hk => hfree k (List.mem_cons_of_mem _ hk)
  | swap a b l =>
    rw [List.foldl_cons, List.foldl_cons, comm s b a hs (hfree b List.mem_cons_self)]
    rfl
  | trans perm _ ih ih' =>
    exact (ih hs hfree).trans (ih' hs fun k hk => hfree k (perm.mem_iff.mpr hk))

/-- Steps of which some are free lead to the same state as long as the others come in the same
order. -/
theorem foldl_eq_of_perm {s : σ} (hs : I s) (perm : l.Perm l')
    (inOrder : l.filter (fun k => !free k) = l'.filter fun k => !free k) :
    l.foldl step s = l'.foldl step s := by
  have hkept : I ((l'.filter fun k => !free k).foldl step s) :=
    List.foldlRecOn _ step hs fun s hs k _ => kept s k hs
  rw [foldl_eq_foldl_free kept comm hs (l := l), foldl_eq_foldl_free kept comm hs (l := l'),
    inOrder]
  exact foldl_free_eq_of_perm kept comm hkept (fun k hk => (List.mem_filter.mp hk).2)
    (perm.filter free)

end Fold

variable {ω : Type} {e : Engine ω} {c c' : Campaign ω}

/-! ### Calls -/

/-- What the recorder is called for. -/
inductive RecorderCall where
  /-- The node reports the execution of a transaction. -/
  | execution (hash : String) (executed : PcSet)
  /-- Transactions of a task that were created until `cutoff` are given up. -/
  | expiry (task : TaskId) (cutoff : Instant)
  /-- The node reports events during a transaction. -/
  | weaknesses (hash : String) (snapshot : Snapshot)

namespace RecorderCall

/-- Whether a call is about weaknesses. -/
def isWeaknesses : RecorderCall → Bool
  | weaknesses _ _ => true
  | _ => false

/-- The state after a call. -/
def perform (e : Engine ω) : RecorderCall → Campaign ω → Campaign ω
  | execution hash executed, c => ((recordExecution e hash executed).perform c).2
  | expiry task cutoff, c => ((expireStale task cutoff).perform c).2
  | weaknesses hash snapshot, c => ((recordWeaknesses e hash snapshot).perform c).2

end RecorderCall

/-- The state after several calls, one after the other. -/
def performCalls (e : Engine ω) (calls : List RecorderCall) (c : Campaign ω) : Campaign ω :=
  calls.foldl (fun c call => call.perform e c) c

/-- The transaction that a hash stands for. -/
def Campaign.targetOf (hash : String) (c : Campaign ω) : Option TransactionId :=
  (c.store.transactions.find? (·.hash == some hash)).map (·.id)

/-- The answer to a call, if it is about the weaknesses of a transaction. -/
def RecorderCall.answers (e : Engine ω) (id : TransactionId) :
    RecorderCall → Campaign ω → List (Except Failure (SortedSet String))
  | weaknesses hash snapshot, c =>
    if c.targetOf hash = some id then [((recordWeaknesses e hash snapshot).perform c).1] else []
  | _, _ => []

/-- The answers to those calls that are about the weaknesses of a transaction. -/
def revealed (e : Engine ω) (id : TransactionId) :
    List RecorderCall → Campaign ω → List (Except Failure (SortedSet String))
  | [], _ => []
  | call :: calls, c => call.answers e id c ++ revealed e id calls (call.perform e c)

/-! ### Further weaknesses -/

/-- A transaction with further weaknesses, if it is the target. -/
def Transaction.weakenedIf (target : Option TransactionId) (found : SortedSet String)
    (tx : Transaction) : Transaction :=
  { tx with weaknesses := if some tx.id = target then tx.weaknesses.union found
      else tx.weaknesses }

namespace Campaign

/-- The campaigns with further weaknesses of a transaction. -/
def weaken (c : Campaign ω) (target : Option TransactionId) (found : SortedSet String) :
    Campaign ω :=
  { c with store := { c.store with
      transactions := c.store.transactions.map (·.weakenedIf target found) } }

variable (target : Option TransactionId) (found : SortedSet String)

theorem ids_weaken : (c.weaken target found).store.transactions.map (·.id) =
    c.store.transactions.map (·.id) :=
  List.map_map

theorem transactionWithHash_weaken (hash : String) :
    (c.weaken target found).store.transactionWithHash hash =
      (c.store.transactionWithHash hash).map (·.weakenedIf target found) := by
  have hfind : (c.weaken target found).store.transactions.find? (·.hash == some hash) =
      (c.store.transactions.find? (·.hash == some hash)).map (·.weakenedIf target found) :=
    List.find?_map
  rw [Store.transactionWithHash, Store.transactionWithHash, hfind]
  cases c.store.transactions.find? (·.hash == some hash) <;> rfl

theorem hasPending_weaken (task : TaskId) :
    (c.weaken target found).store.hasPending task = c.store.hasPending task := by
  have hof : (c.weaken target found).store.transactionsOf task =
      (c.store.transactionsOf task).map (·.weakenedIf target found) :=
    List.filter_map
  rw [Store.hasPending, Store.hasPending, hof, List.any_map]
  rfl

/-- Two transactions may get further weaknesses in any order. -/
theorem weaken_comm (target' : Option TransactionId) (found' : SortedSet String) :
    (c.weaken target found).weaken target' found' =
      (c.weaken target' found').weaken target found := by
  have hcomm : ∀ tx : Transaction, (tx.weakenedIf target found).weakenedIf target' found' =
      (tx.weakenedIf target' found').weakenedIf target found := by
    intro tx
    have hunion : (tx.weaknesses.union found).union found' =
        (tx.weaknesses.union found').union found :=
      SortedSet.ext_mem fun w => by simp only [SortedSet.mem_union, or_right_comm]
    rcases eq_or_ne (some tx.id) target with rfl | h <;>
      rcases eq_or_ne (some tx.id) target' with rfl | h' <;>
      simp [Transaction.weakenedIf, *]
  simp only [weaken, List.map_map, Function.comp_def, hcomm]

/-- Whatever is given up, the further weaknesses are the same. -/
theorem expired_weaken (task : TaskId) (cutoff : Instant) :
    (c.weaken target found).expired task cutoff = (c.expired task cutoff).weaken target found := by
  have hcomm : ∀ tx : Transaction,
      (if (tx.weakenedIf target found).task == task &&
          (tx.weakenedIf target found).isStale cutoff then (tx.weakenedIf target found).expired
        else tx.weakenedIf target found) =
      (if tx.task == task && tx.isStale cutoff then tx.expired else tx).weakenedIf target found :=
    fun tx => (apply_ite (Transaction.weakenedIf target found)
      ((tx.task == task && tx.isStale cutoff) = true) tx.expired tx).symm
  simp only [weaken, expired, List.map_map, Function.comp_def, hcomm]

/-- Requests do not depend on weaknesses. -/
theorem redriven_weaken (task : Task) :
    (c.weaken target found).redriven task = (c.redriven task).weaken target found := by
  rw [redriven_eq_requests, redriven_eq_requests, hasPending_weaken]
  rfl

end Campaign

/-! ### What calls do -/

/-- Among transactions with distinct ids, further weaknesses reach only the one they are meant
for. -/
theorem map_weakenedIf_middle {before after : List Transaction} {tx : Transaction}
    (distinct : ((before ++ tx :: after).map (·.id)).Nodup) (found : SortedSet String) :
    (before ++ tx :: after).map (·.weakenedIf (some tx.id) found) =
      before ++ tx.weakened found :: after := by
  have hother : ∀ tx' ∈ before ++ after, tx'.weakenedIf (some tx.id) found = tx' := by
    intro tx' hmem
    rw [(List.perm_middle.map _).nodup_iff, List.map_cons, List.nodup_cons] at distinct
    have hne : some tx'.id ≠ some tx.id := fun heq =>
      distinct.1 (Option.some.inj heq ▸ List.mem_map_of_mem hmem)
    rw [Transaction.weakenedIf, if_neg hne]
  have hbefore := List.map_congr_left fun tx' h => hother tx' (List.mem_append_left after h)
  have hafter := List.map_congr_left fun tx' h => hother tx' (List.mem_append_right before h)
  rw [List.map_append, List.map_cons, hbefore, hafter, List.map_id'', List.map_id'',
    Transaction.weakenedIf, if_pos rfl]
  · rfl
  all_goals exact fun _ => rfl

theorem Campaign.targetOf_eq (c : Campaign ω) (hash : String) :
    c.targetOf hash = (c.store.transactionWithHash hash).toOption.map (·.id) := by
  rw [targetOf, Store.transactionWithHash]
  cases c.store.transactions.find? (·.hash == some hash) <;> rfl

theorem Campaign.weaken_none (c : Campaign ω) (found : SortedSet String) :
    c.weaken none found = c := by
  have hsame : ∀ tx : Transaction, tx.weakenedIf none found = tx := fun tx =>
    congrArg (fun w => { tx with weaknesses := w }) (if_neg (Option.some_ne_none _))
  simp only [weaken, hsame, List.map_id']

/-- It makes no difference whether weaknesses are added that a transaction has. -/
theorem Transaction.weakened_diff (tx : Transaction) (found : SortedSet String) :
    tx.weakened (found.diff tx.weaknesses) = tx.weakened found := by
  refine congrArg (fun w => { tx with weaknesses := w }) (SortedSet.ext_mem fun w => ?_)
  simp only [SortedSet.mem_union, SortedSet.mem_diff]
  tauto

/-- A call about weaknesses adds what a snapshot reveals to the transaction of its hash. The answer
is what that one did not have. -/
theorem perform_recordWeaknesses_eq (distinct : (c.store.transactions.map (·.id)).Nodup)
    (hash : String) (snapshot : Snapshot) :
    (recordWeaknesses e hash snapshot).perform c =
      ((c.store.transactionWithHash hash).map fun tx =>
          (detectWeaknesses e.config.oracles snapshot).diff tx.weaknesses,
        c.weaken (c.targetOf hash) (detectWeaknesses e.config.oracles snapshot)) := by
  rw [Campaign.targetOf_eq]
  cases htx : c.store.transactionWithHash hash with
  | error failure =>
    rw [perform_recordWeaknesses_of_error snapshot htx]
    exact congrArg _ (c.weaken_none _).symm
  | ok tx =>
    obtain ⟨hashed, before, after, split, first⟩ := Store.exists_of_transactionWithHash htx
    rw [perform_recordWeaknesses distinct snapshot split hashed first rfl,
      Transaction.weakened_diff, ← map_weakenedIf_middle (split ▸ distinct), ← split]
    rfl

/-- What is recorded of an execution does not depend on weaknesses. -/
theorem perform_recordExecution_weaken (h : c.ledger.Sound) (hash : String) (executed : PcSet)
    (target : Option TransactionId) (found : SortedSet String) :
    ((recordExecution e hash executed).perform (c.weaken target found)).2 =
      ((recordExecution e hash executed).perform c).2.weaken target found := by
  have hweak := c.transactionWithHash_weaken target found hash
  cases htx : c.store.transactionWithHash hash with
  | error failure =>
    rw [htx] at hweak
    rw [perform_recordExecution_of_error executed htx,
      perform_recordExecution_of_error executed hweak]
  | ok tx =>
    rw [htx] at hweak
    by_cases hdone : tx.status = .done
    · rw [perform_recordExecution_of_done executed htx hdone,
        perform_recordExecution_of_done executed hweak hdone]
    · obtain ⟨hashed, before, after, split, first⟩ := Store.exists_of_transactionWithHash htx
      obtain ⟨t, k, htask, hk⟩ :=
        h.exists_task_contract (Store.mem_of_transactionWithHash htx).2
      have split' : (c.weaken target found).store.transactions =
          before.map (·.weakenedIf target found) ++
            tx.weakenedIf target found :: after.map (·.weakenedIf target found) := by
        rw [Campaign.weaken, split, List.map_append, List.map_cons]
      have first' : ∀ tx' ∈ before.map (·.weakenedIf target found), tx'.hash ≠ some hash :=
        List.forall_mem_map.mpr first
      have distinct' := (c.ids_weaken target found).symm ▸ h.distinct
      rw [perform_recordExecution h.distinct executed split hashed first hdone htask hk,
        perform_recordExecution distinct' executed split' hashed first' hdone htask hk,
        ← Campaign.redriven_weaken]
      refine congrArg (Campaign.redriven · _) ?_
      simp only [Campaign.recorded, Campaign.weaken, List.map_append, List.map_cons]
      rfl

namespace RecorderCall

theorem ledger_sound_perform (h : c.ledger.Sound) (call : RecorderCall) :
    (call.perform e c).ledger.Sound := by
  have moves : Ledger.Moves e.config (fun _ _ => True) c.ledger (call.perform e c).ledger := by
    cases call with
    | execution hash executed => exact moves_recordExecution h hash executed
    | weaknesses hash snapshot => exact moves_recordWeaknesses h hash snapshot
    | expiry task cutoff =>
      rw [perform, perform_expireStale h.distinct]
      exact .single (.expire task cutoff)
  exact moves.sound h

/-- Transactions keep their ids and hashes, and stay where they are. -/
theorem keys_perform (h : c.ledger.Sound) (call : RecorderCall) :
    (call.perform e c).store.transactions.map (fun tx => (tx.id, tx.hash)) =
      c.store.transactions.map fun tx => (tx.id, tx.hash) := by
  cases call with
  | execution hash executed =>
    have houtcome := recordExecution_outcome (e := e) h hash executed
    rw [perform]
    generalize (recordExecution e hash executed).perform c = result at houtcome
    cases houtcome with
    | failed failure => rfl
    | repeated htx recorded => rfl
    | recorded split hashed first unrecorded htask hcontract =>
      rw [store_redriven, split, Campaign.recorded, List.map_append, List.map_append]
      rfl
  | expiry task cutoff =>
    rw [perform, perform_expireStale h.distinct, Campaign.expired, List.map_map]
    refine List.map_congr_left fun tx _ => ?_
    rw [Function.comp_apply]
    split <;> rfl
  | weaknesses hash snapshot =>
    rw [perform, perform_recordWeaknesses_eq h.distinct]
    exact List.map_map

/-- So a hash stands for the same transaction at all times. -/
theorem targetOf_perform (h : c.ledger.Sound) (call : RecorderCall) (hash : String) :
    (call.perform e c).targetOf hash = c.targetOf hash := by
  have hkeys : ∀ c : Campaign ω, c.targetOf hash =
      ((c.store.transactions.map fun tx => (tx.id, tx.hash)).find? (·.2 == some hash)).map (·.1) :=
    fun c => by rw [List.find?_map, Option.map_map]; rfl
  rw [hkeys, hkeys, keys_perform h]

/-- No call depends on weaknesses, and none takes them away. -/
theorem perform_weaken (h : c.ledger.Sound) (call : RecorderCall) (target : Option TransactionId)
    (found : SortedSet String) :
    call.perform e (c.weaken target found) = (call.perform e c).weaken target found := by
  have distinct' := (c.ids_weaken target found).symm ▸ h.distinct
  cases call with
  | execution hash executed => exact perform_recordExecution_weaken h hash executed target found
  | expiry task cutoff =>
    rw [perform, perform, perform_expireStale h.distinct, perform_expireStale distinct']
    exact c.expired_weaken target found task cutoff
  | weaknesses hash snapshot =>
    have htarget : (c.weaken target found).targetOf hash = c.targetOf hash := by
      rw [Campaign.targetOf_eq, Campaign.targetOf_eq, Campaign.transactionWithHash_weaken]
      cases c.store.transactionWithHash hash <;> rfl
    rw [perform, perform, perform_recordWeaknesses_eq h.distinct,
      perform_recordWeaknesses_eq distinct', htarget]
    exact c.weaken_comm target found _ _

/-- A call about weaknesses may as well come after the next one. -/
theorem perform_comm (h : c.ledger.Sound) {call : RecorderCall} (free : call.isWeaknesses = true)
    (next : RecorderCall) :
    next.perform e (call.perform e c) = call.perform e (next.perform e c) := by
  cases call with
  | execution hash executed => cases free
  | expiry task cutoff => cases free
  | weaknesses hash snapshot =>
    have hcall : ∀ {c : Campaign ω}, c.ledger.Sound → (weaknesses hash snapshot).perform e c =
        c.weaken (c.targetOf hash) (detectWeaknesses e.config.oracles snapshot) := fun h => by
      rw [perform, perform_recordWeaknesses_eq h.distinct]
    rw [hcall h, hcall (next.ledger_sound_perform h), next.targetOf_perform h,
      next.perform_weaken h]

end RecorderCall

theorem ledger_sound_performCalls (h : c.ledger.Sound) (calls : List RecorderCall) :
    (performCalls e calls c).ledger.Sound :=
  List.foldlRecOn (motive := fun c : Campaign ω => c.ledger.Sound) calls _ h
    fun _ h call _ => call.ledger_sound_perform h

/-- Calls about weaknesses may be made at any time. -/
theorem performCalls_eq_of_perm (h : c.ledger.Sound) {calls calls' : List RecorderCall}
    (perm : calls.Perm calls')
    (inOrder : calls.filter (fun call => !call.isWeaknesses) =
      calls'.filter fun call => !call.isWeaknesses) :
    performCalls e calls c = performCalls e calls' c :=
  foldl_eq_of_perm (I := fun c : Campaign ω => c.ledger.Sound)
    (fun _ call h => call.ledger_sound_perform h) (fun _ _ next h free =>
      RecorderCall.perform_comm h free next) h perm inOrder

/-! ### What is revealed -/

/-- Sets of weaknesses that become known one after the other, each of them with none that was known
before. -/
structure Unveils (known : SortedSet String) (sets : List (SortedSet String))
    (stored : SortedSet String) : Prop where
  /-- No weakness is in two of the sets. -/
  apart : sets.Pairwise fun s t => ∀ w ∈ s, ¬ w ∈ t
  /-- None of them was known. -/
  fresh : ∀ s ∈ sets, ∀ w ∈ s, ¬ w ∈ known
  /-- All of them are stored in the end, beside what was known. -/
  mem_stored : ∀ w, w ∈ stored ↔ w ∈ known ∨ ∃ s ∈ sets, w ∈ s

namespace Unveils

variable {known known' stored : SortedSet String} {sets sets' : List (SortedSet String)}

theorem nil (known : SortedSet String) : Unveils known [] known :=
  ⟨.nil, fun _ h => absurd h List.not_mem_nil, fun _ => by simp⟩

/-- What is found, without what was known. -/
theorem single (known found : SortedSet String) :
    Unveils known [found.diff known] (known.union found) where
  apart := List.pairwise_singleton _ _
  fresh s hs w hw := by
    rw [List.mem_singleton.mp hs] at hw
    exact (SortedSet.mem_diff.mp hw).2
  mem_stored w := by
    simp only [SortedSet.mem_union, List.mem_singleton, exists_eq_left, SortedSet.mem_diff]
    tauto

theorem append (h : Unveils known sets known') (h' : Unveils known' sets' stored) :
    Unveils known (sets ++ sets') stored where
  apart := by
    refine List.pairwise_append.mpr ⟨h.apart, h'.apart, fun s hs t ht w hw hwt => ?_⟩
    exact h'.fresh t ht w hwt ((h.mem_stored w).mpr (.inr ⟨s, hs, hw⟩))
  fresh s hs w hw := by
    rcases List.mem_append.mp hs with hs | hs
    · exact h.fresh s hs w hw
    · exact fun hknown => h'.fresh s hs w hw ((h.mem_stored w).mpr (.inl hknown))
  mem_stored w := by
    simp only [h'.mem_stored, h.mem_stored, List.mem_append, or_and_right, exists_or, or_assoc]

end Unveils

namespace RecorderCall

/-- A call that is not about weaknesses leaves them as they are. -/
theorem exists_weaknesses_eq (h : c.ledger.Sound) (call : RecorderCall)
    (other : call.isWeaknesses = false) {tx : Transaction} (htx : tx ∈ c.store.transactions) :
    ∃ tx' ∈ (call.perform e c).store.transactions,
      tx'.id = tx.id ∧ tx'.weaknesses = tx.weaknesses := by
  cases call with
  | execution hash executed =>
    have houtcome := recordExecution_outcome (e := e) h hash executed
    rw [perform]
    generalize (recordExecution e hash executed).perform c = result at houtcome
    cases houtcome with
    | failed failure => exact ⟨tx, htx, rfl, rfl⟩
    | repeated htx' recorded => exact ⟨tx, htx, rfl, rfl⟩
    | recorded split hashed first unrecorded htask hcontract =>
      rw [split] at htx
      rw [store_redriven]
      refine exists_mem_middle_iff.mpr ?_
      rcases exists_mem_middle_iff.mp ⟨tx, htx, rfl⟩ with rfl | ⟨_, hmem, rfl⟩
      · exact .inl ⟨rfl, rfl⟩
      · exact .inr ⟨tx, hmem, rfl, rfl⟩
  | expiry task cutoff =>
    rw [perform, perform_expireStale h.distinct]
    refine ⟨_, List.mem_map_of_mem htx, ?_⟩
    split <;> exact ⟨rfl, rfl⟩
  | weaknesses hash snapshot => cases other

/-- A call about the weaknesses of a transaction is answered with those that were not known. -/
theorem answers_weaknesses (h : c.ledger.Sound) {hash : String} (snapshot : Snapshot)
    {tx : Transaction} (htx : tx ∈ c.store.transactions)
    (target : c.targetOf hash = some tx.id) :
    (weaknesses hash snapshot).answers e tx.id c =
      [.ok ((detectWeaknesses e.config.oracles snapshot).diff tx.weaknesses)] := by
  rw [answers, if_pos target, perform_recordWeaknesses_eq h.distinct]
  rw [Campaign.targetOf_eq] at target
  obtain ⟨found, hfound, hid⟩ := exists_of_toOption target
  have hmem := (Store.mem_of_transactionWithHash hfound).2
  obtain rfl := List.inj_on_of_nodup_map h.distinct hmem htx hid
  rw [hfound]
  rfl

/-- What is answered about the weaknesses of a transaction is what becomes known of them. -/
theorem exists_unveils (h : c.ledger.Sound) (call : RecorderCall) {tx : Transaction}
    (htx : tx ∈ c.store.transactions) :
    ∃ sets, call.answers e tx.id c = sets.map .ok ∧ ∃ tx' ∈ (call.perform e c).store.transactions,
      tx'.id = tx.id ∧ Unveils tx.weaknesses sets tx'.weaknesses := by
  cases call with
  | execution hash executed =>
    obtain ⟨tx', htx', hid, hsame⟩ := exists_weaknesses_eq (e := e) h
      (execution hash executed) rfl htx
    exact ⟨[], rfl, tx', htx', hid, hsame ▸ .nil _⟩
  | expiry task cutoff =>
    obtain ⟨tx', htx', hid, hsame⟩ := exists_weaknesses_eq (e := e) h
      (expiry task cutoff) rfl htx
    exact ⟨[], rfl, tx', htx', hid, hsame ▸ .nil _⟩
  | weaknesses hash snapshot =>
    let found := detectWeaknesses e.config.oracles snapshot
    have hmem : tx.weakenedIf (c.targetOf hash) found ∈
        ((weaknesses hash snapshot).perform e c).store.transactions := by
      rw [perform, perform_recordWeaknesses_eq h.distinct]
      exact List.mem_map_of_mem htx
    by_cases target : c.targetOf hash = some tx.id
    · refine ⟨[found.diff tx.weaknesses], answers_weaknesses h snapshot htx target, _, hmem, rfl,
        ?_⟩
      rw [Transaction.weakenedIf, if_pos target.symm]
      exact .single _ _
    · refine ⟨[], if_neg target, _, hmem, rfl, ?_⟩
      rw [Transaction.weakenedIf, if_neg (Ne.symm target)]
      exact .nil _

end RecorderCall

/-- So it is with any number of calls. -/
theorem unveils_performCalls (h : c.ledger.Sound) (calls : List RecorderCall) {tx : Transaction}
    (htx : tx ∈ c.store.transactions) :
    ∃ sets, revealed e tx.id calls c = sets.map .ok ∧
      ∃ tx' ∈ (performCalls e calls c).store.transactions,
        tx'.id = tx.id ∧ Unveils tx.weaknesses sets tx'.weaknesses := by
  induction calls generalizing c tx with
  | nil => exact ⟨[], rfl, tx, htx, rfl, .nil _⟩
  | cons call calls ih =>
    obtain ⟨sets, hfirst, tx', htx', hid, first⟩ := call.exists_unveils (e := e) h htx
    obtain ⟨sets', hrest, tx'', htx'', hid', rest⟩ := ih (call.ledger_sound_perform h) htx'
    refine ⟨sets ++ sets', ?_, tx'', htx'', hid'.trans hid, first.append rest⟩
    rw [revealed, hfirst, List.map_append, ← hrest, hid]

/-- Calls about weaknesses may be made at any time, before or after the others: the state in the end
is the same. In every order they are answered with different weaknesses that were not known before,
and these are stored with those that were. -/
theorem Campaign.Later.performCalls_perm {world : ω} {deployer fuzzer : Source}
    (h : Later e (initial world deployer fuzzer) c) {calls calls' : List RecorderCall}
    (perm : calls.Perm calls')
    (inOrder : calls.filter (fun call => !call.isWeaknesses) =
      calls'.filter fun call => !call.isWeaknesses) :
    performCalls e calls c = performCalls e calls' c ∧
    ∀ tx ∈ c.store.transactions, ∃ sets sets', revealed e tx.id calls c = sets.map .ok ∧
      revealed e tx.id calls' c = sets'.map .ok ∧
      ∃ tx' ∈ (performCalls e calls c).store.transactions, tx'.id = tx.id ∧
        Unveils tx.weaknesses sets tx'.weaknesses ∧
        Unveils tx.weaknesses sets' tx'.weaknesses := by
  have sound := h.sound
  have hsame := performCalls_eq_of_perm (e := e) sound perm inOrder
  refine ⟨hsame, fun tx htx => ?_⟩
  obtain ⟨sets, hsets, tx₁, htx₁, hid₁, unveils⟩ := unveils_performCalls (e := e) sound calls htx
  obtain ⟨sets', hsets', tx₂, htx₂, hid₂, unveils'⟩ :=
    unveils_performCalls (e := e) sound calls' htx
  -- In the one state that both lead to, the transaction is stored once.
  have distinct := (ledger_sound_performCalls (e := e) sound calls).distinct
  obtain rfl := List.inj_on_of_nodup_map distinct htx₁ (hsame ▸ htx₂) (hid₁.trans hid₂.symm)
  exact ⟨sets, sets', hsets, hsets', tx₁, htx₁, hid₁, unveils, unveils'⟩

namespace Campaign

/-- What reveals that a transaction depends on the time, and maybe on the number of its block. -/
def timedSnapshot (numbered : Bool) : Snapshot :=
  { Snapshot.empty with
    storageChanged := true
    timestamp := true
    blockNumber := numbered }

/-- Calls about the transactions of a batch. Two of them are about the weaknesses of one
transaction. -/
def switchCalls : List RecorderCall :=
  [.execution "h1" (.ofList [0, 10]), .weaknesses "h1" (timedSnapshot false),
    .expiry ⟨0⟩ .latest, .weaknesses "h1" (timedSnapshot true),
    .weaknesses "h2" (timedSnapshot false)]

/-- The same calls, with those about weaknesses before the others and the last of them first. -/
def hastyCalls : List RecorderCall :=
  (switchCalls.filter (·.isWeaknesses)).reverse ++ switchCalls.filter fun call => !call.isWeaknesses

theorem performCalls_perm_switchCalls :
    performCalls switchEngine switchCalls switchSubmitted =
      performCalls switchEngine hastyCalls switchSubmitted ∧
    ∃ tx ∈ switchSubmitted.store.transactions, tx.id = ⟨1⟩ ∧
      ∃ sets sets' : List (SortedSet String),
        sets.map (·.toList) = [["timestamp_dependency"], ["number_dependency"]] ∧
        sets'.map (·.toList) = [["number_dependency", "timestamp_dependency"], []] ∧
        ∃ tx' ∈ (performCalls switchEngine switchCalls switchSubmitted).store.transactions,
          tx'.id = tx.id ∧ Unveils tx.weaknesses sets tx'.weaknesses ∧
            Unveils tx.weaknesses sets' tx'.weaknesses := by
  have perm : switchCalls.Perm hastyCalls :=
    (((List.reverse_perm _).append_right _).trans (List.filter_append_perm _ _)).symm
  obtain ⟨hsame, hall⟩ := later_switchSubmitted.performCalls_perm perm rfl
  have facts : (∃ tx ∈ switchSubmitted.store.transactions, tx.id = ⟨1⟩) ∧
      (revealed switchEngine ⟨1⟩ switchCalls switchSubmitted).map
        (fun answer => (answer.toOption.map (·.toList)).getD []) =
          [["timestamp_dependency"], ["number_dependency"]] ∧
      (revealed switchEngine ⟨1⟩ hastyCalls switchSubmitted).map
        (fun answer => (answer.toOption.map (·.toList)).getD []) =
          [["number_dependency", "timestamp_dependency"], []] := by
    decide +kernel
  obtain ⟨⟨tx, htx, hid⟩, hanswers, hanswers'⟩ := facts
  obtain ⟨sets, sets', hsets, hsets', hstored⟩ := hall tx htx
  rw [← hid, hsets, List.map_map] at hanswers
  rw [← hid, hsets', List.map_map] at hanswers'
  exact ⟨hsame, tx, htx, hid, sets, sets', hanswers, hanswers', hstored⟩

end Campaign

end ContractFuzz
