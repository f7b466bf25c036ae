import ContractFuzz.Proofs.Campaign.Ledger
import Mathlib.Logic.Relation
/-!
# Versions of transactions

A transaction is created; then it runs under a hash until it is done, or it could not be sent. A
deployment is done from the start. Later versions of a transaction never go back on this, and once
it is done only weaknesses are added to it.

## Main definitions

* `TransactionStatus.Next`, `TransactionStatus.Leads` : the way of a status.
* `Transaction.Regular` : what a hash and an outcome say about the status.
* `Transaction.Becomes` : a later version of a transaction.
* `Transaction.Persistent` : a property that transactions have at all times.
* `Transaction.First`, `Transaction.HasOrigin` : what a transaction is like at first.
* `Transaction.Evolve` : what a table of transactions is like later.

## Main results

* `Transaction.Becomes.trans`, `Transaction.Evolve.trans` : later than later is later.
* `Transaction.becomes_recorded` and others : what happens to transactions leads to later versions.
-/

namespace ContractFuzz

namespace TransactionStatus

/-- The steps that a status can take. -/
inductive Next : TransactionStatus → TransactionStatus → Prop
  | sent : Next created running
  | refused : Next created sendError
  | finished : Next running done

/-- The statuses to which steps can lead. -/
abbrev Leads : TransactionStatus → TransactionStatus → Prop := Relation.ReflTransGen Next

/-- Nothing comes after the end. -/
theorem Leads.eq_of_done {status : TransactionStatus} (h : done.Leads status) : status = done := by
  rcases h.cases_head with heq | ⟨next, step, -⟩
  · exact heq.symm
  · cases step

end TransactionStatus

namespace Transaction

/-- A transaction has a hash when it was sent, and has achieved nothing before it is done. -/
structure Regular (tx : Transaction) : Prop where
  hashed : tx.hash.isSome = true ↔ tx.status = .running ∨ tx.status = .done
  quiet : tx.status ≠ .done →
    tx.executed = .empty ∧ tx.hits = 0 ∧ tx.coverageGain = 0 ∧ tx.distanceGain = 0

/-- A later version of a transaction. -/
structure Becomes (old new : Transaction) : Prop where
  id : new.id = old.id
  task : new.task = old.task
  function : new.function = old.function
  inputs : new.inputs = old.inputs
  timestamp : new.timestamp = old.timestamp
  status : old.status.Leads new.status
  hash : ∀ hash, old.hash = some hash → new.hash = some hash
  settled : old.status = .done → new.executed = old.executed ∧ new.hits = old.hits ∧
    new.coverageGain = old.coverageGain ∧ new.distanceGain = old.distanceGain
  weaknesses : ∀ w ∈ old.weaknesses, w ∈ new.weaknesses

variable {a b c tx : Transaction}

namespace Becomes

theorem refl (tx : Transaction) : tx.Becomes tx :=
  ⟨rfl, rfl, rfl, rfl, rfl, .refl, fun _ h => h, fun _ => ⟨rfl, rfl, rfl, rfl⟩, fun _ h => h⟩

/-- What is done stays done. -/
theorem done (h : a.Becomes b) (hdone : a.status = .done) : b.status = .done :=
  TransactionStatus.Leads.eq_of_done (hdone ▸ h.status)

theorem trans (hab : a.Becomes b) (hbc : b.Becomes c) : a.Becomes c where
  id := hbc.id.trans hab.id
  task := hbc.task.trans hab.task
  function := hbc.function.trans hab.function
  inputs := hbc.inputs.trans hab.inputs
  timestamp := hbc.timestamp.trans hab.timestamp
  status := hab.status.trans hbc.status
  hash hash h := hbc.hash hash (hab.hash hash h)
  settled hdone := by
    obtain ⟨hexecuted, hhits, hcoverage, hdistance⟩ := hab.settled hdone
    obtain ⟨hexecuted', hhits', hcoverage', hdistance'⟩ := hbc.settled (hab.done hdone)
    exact ⟨hexecuted'.trans hexecuted, hhits'.trans hhits, hcoverage'.trans hcoverage,
      hdistance'.trans hdistance⟩
  weaknesses w hw := hbc.weaknesses w (hab.weaknesses w hw)

end Becomes

/-! ### What happens to a transaction -/

theorem Regular.running (h : tx.Regular) {hash : String} (hashed : tx.hash = some hash)
    (hopen : tx.status ≠ .done) : tx.status = .running :=
  (h.hashed.mp (hashed ▸ rfl)).resolve_right hopen

theorem regular_new (id : TransactionId) (task : TaskId) (function : FunctionId)
    (inputs : List String) (now : Instant) : (new id task function inputs now).Regular :=
  ⟨⟨fun h => (by cases h), fun h => by rcases h with h | h <;> cases h⟩,
    fun _ => ⟨rfl, rfl, rfl, rfl⟩⟩

/-- Whatever has a hash and is done may have achieved anything. -/
theorem regular_of_done (hashed : tx.hash.isSome = true) (hdone : tx.status = .done) :
    tx.Regular :=
  ⟨⟨fun _ => .inr hdone, fun _ => hashed⟩, fun hopen => absurd hdone hopen⟩

theorem running_of_isStale {cutoff : Instant} (h : tx.isStale cutoff = true) :
    tx.status = .running :=
  beq_iff_eq.mp (Bool.and_eq_true_iff.mp h).1

theorem becomes_expired (h : tx.status = .running) : tx.Becomes tx.expired where
  id := rfl
  task := rfl
  function := rfl
  inputs := rfl
  timestamp := rfl
  status := .single (h ▸ .finished)
  hash _ hash := hash
  settled _ := ⟨rfl, rfl, rfl, rfl⟩
  weaknesses _ hw := hw

theorem becomes_recorded (h : tx.status = .running) (critical : List String) (contract : Contract)
    (before executed : PcSet) : tx.Becomes (tx.recorded critical contract before executed) where
  id := rfl
  task := rfl
  function := rfl
  inputs := rfl
  timestamp := rfl
  status := .single (h ▸ .finished)
  hash _ hash := hash
  settled hdone := by rw [h] at hdone; cases hdone
  weaknesses _ hw := hw

theorem becomes_weakened (tx : Transaction) (new : SortedSet String) :
    tx.Becomes (tx.weakened new) :=
  { Becomes.refl tx with
    weaknesses := fun _ hw => SortedSet.mem_union.mpr (.inl hw) }

theorem Regular.weakened (h : tx.Regular) (new : SortedSet String) : (tx.weakened new).Regular :=
  ⟨h.hashed, h.quiet⟩

theorem Regular.hash_of_created (h : tx.Regular) (created : tx.status = .created) :
    tx.hash = none := by
  rw [← Option.not_isSome_iff_eq_none, h.hashed, created]
  rintro (h | h) <;> cases h

/-- The node's answer lets a created transaction run, or tells that it could not be sent. -/
theorem becomes_apply (o : BatchOutcome) (h : tx.Regular) (created : tx.status = .created) :
    tx.Becomes (o.apply tx) := by
  unfold BatchOutcome.apply
  split
  · exact { Becomes.refl tx with
      status := .single (created ▸ .sent)
      hash := fun hash hhash => by rw [h.hash_of_created created] at hhash; cases hhash }
  · exact { Becomes.refl tx with status := .single (created ▸ .refused) }

theorem regular_apply (o : BatchOutcome) (h : tx.Regular) (created : tx.status = .created) :
    (o.apply tx).Regular := by
  have quiet := h.quiet (by rw [created]; decide)
  unfold BatchOutcome.apply
  split
  · exact ⟨⟨fun _ => .inl rfl, fun _ => rfl⟩, fun _ => quiet⟩
  · exact ⟨by simp [h.hash_of_created created], fun _ => quiet⟩

/-- A property that every transaction has at first, and keeps whatever happens to it. -/
structure Persistent (P : Transaction → Prop) : Prop where
  deployed : ∀ id task constructor texts now hash, P (deployment id task constructor texts now hash)
  answered : ∀ (o : BatchOutcome) id task function inputs now,
    P (o.apply (new id task function inputs now))
  expired : ∀ {tx}, P tx → tx.status = .running → P tx.expired
  recorded : ∀ {tx} critical contract before executed, P tx → tx.hash.isSome = true →
    tx.status ≠ .done → P (tx.recorded critical contract before executed)
  weakened : ∀ {tx} new, P tx → P (tx.weakened new)

theorem persistent_regular : Persistent Regular where
  deployed _ _ _ _ _ _ := regular_of_done rfl rfl
  answered o id task function inputs now :=
    regular_apply o (regular_new id task function inputs now) rfl
  expired h running := regular_of_done (h.hashed.mpr (.inl running)) rfl
  recorded _ _ _ _ _ hashed _ := regular_of_done hashed rfl
  weakened new h := h.weakened new

/-! ### Tables of transactions -/

/-- What a transaction is like when it is stored first: created, or done if it is a deployment. -/
inductive First : Transaction → Prop
  | created (id : TransactionId) (task : TaskId) (function : FunctionId) (inputs : List String)
      (now : Instant) : First (new id task function inputs now)
  | deployed (id : TransactionId) (task : TaskId) (constructor : FunctionId)
      (texts : List String) (now : Instant) (hash : String) :
      First (deployment id task constructor texts now hash)

/-- A later version of what was stored first. -/
def HasOrigin (tx : Transaction) : Prop := ∃ first, First first ∧ first.Becomes tx

theorem First.hasOrigin (h : First tx) : tx.HasOrigin := ⟨tx, h, .refl tx⟩

theorem HasOrigin.becomes (h : a.HasOrigin) (hab : a.Becomes b) : b.HasOrigin := by
  obtain ⟨first, hfirst, hlater⟩ := h
  exact ⟨first, hfirst, hlater.trans hab⟩

/-- The transactions of a table in later versions, and after them further ones. -/
def Evolve (old new : List Transaction) : Prop :=
  ∃ versions added, new = versions ++ added ∧ List.Forall₂ Becomes old versions ∧
    ∀ tx ∈ added, tx.HasOrigin

namespace Evolve

variable {txs txs' txs'' : List Transaction}

theorem of_versions (h : List.Forall₂ Becomes txs txs') : Evolve txs txs' :=
  ⟨txs', [], (List.append_nil txs').symm, h, fun _ hmem => absurd hmem List.not_mem_nil⟩

theorem refl (txs : List Transaction) : Evolve txs txs :=
  of_versions (List.forall₂_same.mpr fun tx _ => .refl tx)

theorem append {added : List Transaction} (h : ∀ tx ∈ added, tx.HasOrigin) :
    Evolve txs (txs ++ added) :=
  ⟨txs, added, rfl, List.forall₂_same.mpr fun tx _ => .refl tx, h⟩

theorem trans (h : Evolve txs txs') (h' : Evolve txs' txs'') : Evolve txs txs'' := by
  obtain ⟨versions, added, rfl, hversions, hadded⟩ := h
  obtain ⟨versions', added', rfl, hversions', hadded'⟩ := h'
  have hkept := List.forall₂_take versions.length hversions'
  have hlater := List.forall₂_drop versions.length hversions'
  rw [List.take_left] at hkept
  rw [List.drop_left] at hlater
  refine ⟨versions'.take versions.length, versions'.drop versions.length ++ added', ?_,
    forall₂_comp hversions hkept fun _ _ _ => .trans, fun tx htx => ?_⟩
  · rw [← List.append_assoc, List.take_append_drop]
  · rcases List.mem_append.mp htx with htx | htx
    · obtain ⟨tx', htx', hbecomes⟩ := (exists_mem_of_forall₂ hlater).2 tx htx
      exact (hadded tx' htx').becomes hbecomes
    · exact hadded' tx htx

/-- Every transaction is there later. -/
theorem exists_mem (h : Evolve txs txs') (htx : tx ∈ txs) : ∃ tx' ∈ txs', tx.Becomes tx' := by
  obtain ⟨versions, added, rfl, hversions, -⟩ := h
  obtain ⟨tx', htx', hbecomes⟩ := (exists_mem_of_forall₂ hversions).1 tx htx
  exact ⟨tx', List.mem_append_left _ htx', hbecomes⟩

/-- What had an origin has one later, and so do further transactions. -/
theorem hasOrigin (h : Evolve txs txs') (origin : ∀ tx ∈ txs, tx.HasOrigin) :
    ∀ tx ∈ txs', tx.HasOrigin := by
  obtain ⟨versions, added, rfl, hversions, hadded⟩ := h
  intro tx' htx'
  rcases List.mem_append.mp htx' with htx' | htx'
  · obtain ⟨tx, htx, hbecomes⟩ := (exists_mem_of_forall₂ hversions).2 tx' htx'
    exact (origin tx htx).becomes hbecomes
  · exact hadded tx' htx'

/-- One transaction in a later version. -/
theorem middle {before after : List Transaction} (h : a.Becomes b) :
    Evolve (before ++ a :: after) (before ++ b :: after) :=
  of_versions (List.rel_append (List.forall₂_same.mpr fun tx _ => .refl tx)
    (.cons h (List.forall₂_same.mpr fun tx _ => .refl tx)))

end Evolve

end Transaction

end ContractFuzz
