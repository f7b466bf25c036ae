import ContractFuzz.Proofs.Campaign.Reachable
import ContractFuzz.Proofs.Campaign.Versions
/-!
# The life cycle of transactions

Whatever is done to campaigns, transactions only ever move on to later versions, and none of them
disappears.

## Main definitions

* `Ledger.Change` : a move, or the registration of any task under new ids.
* `Campaign.Later` : the states that operations lead to from a given one.

## Main results

* `Ledger.Changes.persists` : what transactions have at all times, they have after every change.
* `Ledger.Change.evolve` : every change leads to later versions.
* `Campaign.Later.transactions_evolve` : so does every run.
-/

namespace ContractFuzz

namespace Ledger

variable {config : Config} {Accepted : Task → Contract → Prop} {g g' : Ledger}

/-- All transactions are regular. -/
def Regular (g : Ledger) : Prop := ∀ tx ∈ g.store.transactions, tx.Regular

/-- A property that transactions have at all times is kept by every move. -/
theorem Move.persists {P : Transaction → Prop} (hP : Transaction.Persistent P)
    (h : ∀ tx ∈ g.store.transactions, P tx) (move : Move config Accepted g g') :
    ∀ tx ∈ g'.store.transactions, P tx := by
  cases move with
  | register new accepted hdefinition => exact h
  | start now htask created => exact h
  | finish htask running expired => exact h
  | request hcontract analyzed => exact h
  | enrich hcontract hgraph last htask hashed => exact h
  | expire task cutoff =>
    intro tx' htx'
    obtain ⟨tx, htx, rfl⟩ := List.mem_map.mp htx'
    split
    · next stale =>
      have running := Transaction.running_of_isStale (Bool.and_eq_true_iff.mp stale).2
      exact hP.expired (h tx htx) running
    · exact h tx htx
  | deploy now hash started htask hcontract hconstructor hdefinition drawn =>
    intro tx htx
    rcases List.mem_append.mp htx with htx | htx
    · exact h tx htx
    · rw [List.mem_singleton.mp htx]
      exact hP.deployed _ _ _ _ _ _
  | submit clock outcome requested htask running hcontract hdefinition candidate hmethod drawn =>
    intro tx htx
    rcases List.mem_append.mp htx with htx | htx
    · exact h tx htx
    · obtain ⟨number, time, seed, -, rfl⟩ := exists_of_mem_batch htx
      exact hP.answered _ _ _ _ _ _
  | record executed split hashed first unrecorded htask hcontract =>
    rw [split] at h
    obtain ⟨htx, hothers⟩ := forall_mem_middle_iff.mp h
    exact forall_mem_middle_iff.mpr
      ⟨hP.recorded _ _ _ executed htx (hashed ▸ rfl) unrecorded, hothers⟩
  | weaken new split hashed first =>
    rw [split] at h
    obtain ⟨htx, hothers⟩ := forall_mem_middle_iff.mp h
    exact forall_mem_middle_iff.mpr ⟨hP.weakened new htx, hothers⟩

/-- Every move leads to later versions of the transactions, and maybe to further ones. -/
theorem Move.evolve (h : g.Regular) (move : Move config Accepted g g') :
    Transaction.Evolve g.store.transactions g'.store.transactions := by
  cases move with
  | register new accepted hdefinition => exact .refl _
  | start now htask created => exact .refl _
  | finish htask running expired => exact .refl _
  | request hcontract analyzed => exact .refl _
  | enrich hcontract hgraph last htask hashed => exact .refl _
  | expire task cutoff =>
    refine .of_versions (List.forall₂_map_right_iff.mpr (List.forall₂_same.mpr fun tx _ => ?_))
    split
    · next stale =>
      exact Transaction.becomes_expired
        (Transaction.running_of_isStale (Bool.and_eq_true_iff.mp stale).2)
    · exact .refl tx
  | deploy now hash started htask hcontract hconstructor hdefinition drawn =>
    refine .append fun tx htx => ?_
    rw [List.mem_singleton.mp htx]
    exact (Transaction.First.deployed _ _ _ _ _ _).hasOrigin
  | submit clock outcome requested htask running hcontract hdefinition candidate hmethod drawn =>
    refine .append fun tx htx => ?_
    obtain ⟨number, time, seed, -, rfl⟩ := exists_of_mem_batch htx
    exact (Transaction.First.created _ _ _ _ _).hasOrigin.becomes
      (Transaction.becomes_apply outcome (Transaction.regular_new _ _ _ _ _) rfl)
  | @record before after tx hash task contract executed split hashed first unrecorded htask
      hcontract =>
    have running : tx.status = .running :=
      (h tx (split ▸ List.mem_append_right _ List.mem_cons_self)).running hashed unrecorded
    rw [split]
    exact .middle (Transaction.becomes_recorded running _ _ _ _)
  | weaken new split hashed first =>
    rw [split]
    exact .middle (Transaction.becomes_weakened _ new)

/-! ### Registration of any task -/

/-- What happens to ledgers when tasks may be registered in any state, as long as their ids and
those of their contracts are new. -/
inductive Change (config : Config) : Ledger → Ledger → Prop
  | move {g g' : Ledger} (move : Move config (fun _ _ => True) g g') : Change config g g'
  | enroll {g : Ledger} {task : Task} {contract : Contract} {definition : AbiDefinition}
      (newTask : g.store.tasks.get? task.id = none)
      (newContract : g.store.contracts.get? contract.id = none) :
      Change config g (g.register task contract definition)

/-- Any number of changes, one after the other. -/
abbrev Changes (config : Config) : Ledger → Ledger → Prop :=
  Relation.ReflTransGen (Change config)

theorem Moves.changes (moves : Moves config (fun _ _ => True) g g') : Changes config g g' :=
  Relation.ReflTransGen.mono (fun _ _ move => Change.move move) _ _ moves

theorem Change.sound (h : g.Sound) (change : Change config g g') : g'.Sound := by
  cases change with
  | move move => exact move.sound h
  | enroll newTask newContract => exact h.register newTask newContract

theorem Change.persists {P : Transaction → Prop} (hP : Transaction.Persistent P)
    (h : ∀ tx ∈ g.store.transactions, P tx) (change : Change config g g') :
    ∀ tx ∈ g'.store.transactions, P tx := by
  cases change with
  | move move => exact move.persists hP h
  | enroll newTask newContract => exact h

theorem Change.evolve (h : g.Regular) (change : Change config g g') :
    Transaction.Evolve g.store.transactions g'.store.transactions := by
  cases change with
  | move move => exact move.evolve h
  | enroll newTask newContract => exact .refl _

theorem Changes.sound (h : g.Sound) (changes : Changes config g g') : g'.Sound := by
  induction changes with
  | refl => exact h
  | tail _ change ih => exact change.sound ih

theorem Changes.persists {P : Transaction → Prop} (hP : Transaction.Persistent P)
    (h : ∀ tx ∈ g.store.transactions, P tx) (changes : Changes config g g') :
    ∀ tx ∈ g'.store.transactions, P tx := by
  induction changes with
  | refl => exact h
  | tail _ change ih => exact change.persists hP ih

theorem Changes.regular (h : g.Regular) (changes : Changes config g g') : g'.Regular :=
  changes.persists Transaction.persistent_regular h

theorem Changes.evolve (h : g.Regular) (changes : Changes config g g') :
    Transaction.Evolve g.store.transactions g'.store.transactions := by
  induction changes with
  | refl => exact .refl _
  | tail before change ih => exact ih.trans (change.evolve (Changes.regular h before))

end Ledger

variable {ω : Type}

/-- Tasks and contracts are registered under new ids. All other operations are allowed at any
time. -/
def Operation.Fresh (c : Campaign ω) : Operation ω → Prop
  | register task contract => c.store.tasks.get? task.id = none ∧
      c.store.contracts.get? contract.id = none
  | _ => True

/-- The states that operations lead to from a given one. -/
inductive Campaign.Later (e : Engine ω) (c : Campaign ω) : Campaign ω → Prop
  | now : Later e c c
  | step {c' : Campaign ω} (later : Later e c c') (op : Operation ω) (fresh : op.Fresh c') :
      Later e c (op.perform e c')

variable {e : Engine ω} {c c' : Campaign ω}

/-- Every operation is made of changes. -/
theorem Operation.changes_perform (h : c.ledger.Sound) (op : Operation ω) (fresh : op.Fresh c) :
    Ledger.Changes e.config c.ledger (op.perform e c).ledger := by
  cases op with
  | register task contract =>
    rcases ledger_registerTask (c := c) task contract with heq | ⟨definition, -, heq⟩
    · exact heq ▸ .refl
    · exact heq ▸ .single (.enroll fresh.1 fresh.2)
  | _ => exact Ledger.Moves.changes (Operation.moves_perform h _ trivial)

namespace Campaign

theorem Later.changes (h : c.ledger.Sound) (later : Later e c c') :
    Ledger.Changes e.config c.ledger c'.ledger := by
  induction later with
  | now => exact .refl
  | step _ op fresh ih => exact ih.trans (op.changes_perform (Ledger.Changes.sound h ih) fresh)

/-- Some operations, and then the others. -/
theorem performAll_drop_take (n : Nat) (ops : List (Operation ω)) (c : Campaign ω) :
    Operation.performAll e (ops.drop n) (Operation.performAll e (ops.take n) c) =
      Operation.performAll e ops c := by
  rw [Operation.performAll, Operation.performAll, ← List.foldl_append, List.take_append_drop,
    Operation.performAll]

/-- What is later than a later state is later. -/
theorem Later.trans {c'' : Campaign ω} (h : Later e c c') (h' : Later e c' c'') :
    Later e c c'' := by
  induction h' with
  | now => exact h
  | step _ op fresh ih => exact ih.step op fresh

/-- Operations that are always allowed lead to later states. -/
theorem Later.performAll {ops : List (Operation ω)} (fresh : ∀ op ∈ ops, ∀ c, op.Fresh c)
    (later : Later e c c') : Later e c (Operation.performAll e ops c') := by
  induction ops generalizing c' with
  | nil => exact later
  | cons op ops ih =>
    exact ih (fun op' hop => fresh op' (List.mem_cons_of_mem _ hop))
      (later.step op (fresh op List.mem_cons_self c'))

/-- The state before any operation. -/
def initial (world : ω) (deployer fuzzer : Source) : Campaign ω :=
  { Campaign.start 0 world with
    deployerSource := deployer
    fuzzerSource := fuzzer }

theorem ledger_initial (world : ω) (deployer fuzzer : Source) :
    (initial world deployer fuzzer).ledger = .empty :=
  Ledger.ext rfl (funext fun l => by cases l <;> rfl) rfl rfl

theorem sound_initial (world : ω) (deployer fuzzer : Source) :
    (initial world deployer fuzzer).ledger.Sound :=
  ledger_initial world deployer fuzzer ▸ Ledger.sound_empty

/-- The records of every later state are sound. -/
theorem Later.sound {world : ω} {deployer fuzzer : Source}
    (h : Later e (initial world deployer fuzzer) c) : c.ledger.Sound :=
  (h.changes (sound_initial world deployer fuzzer)).sound (sound_initial world deployer fuzzer)

/-- At all times, exactly the transactions that run or are done have a hash, and only those that
are done have achieved anything. From every state to all later ones, the transactions only move on
to later versions of themselves. All of them are created first, or done if they are deployments. -/
theorem Later.transactions_evolve {world : ω} {deployer fuzzer : Source}
    (h : Later e (initial world deployer fuzzer) c) :
    (c.store.transactions.map (·.id)).Nodup ∧
    (∀ tx ∈ c.store.transactions, tx.Regular ∧ tx.HasOrigin) ∧
    ∀ c', Later e c c' → Transaction.Evolve c.store.transactions c'.store.transactions := by
  have sound : (initial world deployer fuzzer).ledger.Sound :=
    ledger_initial world deployer fuzzer ▸ Ledger.sound_empty
  have regular : (initial world deployer fuzzer).ledger.Regular :=
    fun _ hmem => absurd hmem List.not_mem_nil
  have changes := h.changes sound
  have sound' := Ledger.Changes.sound sound changes
  have regular' := Ledger.Changes.regular regular changes
  refine ⟨sound'.distinct, fun tx htx => ⟨regular' tx htx, ?_⟩, fun c' later => ?_⟩
  · exact (Ledger.Changes.evolve regular changes).hasOrigin
      (fun _ hmem => absurd hmem List.not_mem_nil) tx htx
  · exact Ledger.Changes.evolve regular' (later.changes sound')

/-- The short campaign once its contract is deployed and a batch is submitted. -/
def switchSubmitted : Campaign World :=
  Operation.performAll switchEngine (switchOperations.take 3)
    ((Operation.register switchTask switchContract).perform switchEngine
      (Campaign.start 0 switchWorld))

theorem transactions_evolve_switchCampaign :
    (∀ tx ∈ switchSubmitted.store.transactions, tx.Regular ∧ tx.HasOrigin) ∧
      Transaction.Evolve switchSubmitted.store.transactions switchCampaign.store.transactions ∧
      switchSubmitted.store.transactions.map (fun tx => (tx.status, tx.hash, tx.executed.toList)) =
        [(.done, some "h0", []), (.running, some "h1", []), (.running, some "h2", [])] ∧
      switchCampaign.store.transactions.map (fun tx => (tx.status, tx.hash, tx.executed.toList)) =
        [(.done, some "h0", []), (.done, some "h1", [0, 10]), (.done, some "h2", [0])] := by
  have fresh : ∀ op ∈ switchOperations, ∀ c, op.Fresh c := by
    intro op hop c
    simp only [switchOperations, List.mem_cons, List.not_mem_nil, or_false] at hop
    rcases hop with rfl | rfl | rfl | rfl | rfl | rfl | rfl <;> exact trivial
  have submitted : Later switchEngine (initial switchWorld (.ofSeed 0) (.ofSeed 0))
      switchSubmitted :=
    (Later.now.step (.register switchTask switchContract) ⟨rfl, rfl⟩).performAll
      fun op hop => fresh op (List.mem_of_mem_take hop)
  have later : Later switchEngine switchSubmitted
      (Operation.performAll switchEngine (switchOperations.drop 3) switchSubmitted) :=
    Later.now.performAll fun op hop => fresh op (List.mem_of_mem_drop hop)
  rw [switchSubmitted, performAll_drop_take] at later
  obtain ⟨-, regular, evolve⟩ := submitted.transactions_evolve
  exact ⟨regular, evolve switchCampaign later, by decide +kernel, by decide +kernel⟩

end Campaign

end ContractFuzz
