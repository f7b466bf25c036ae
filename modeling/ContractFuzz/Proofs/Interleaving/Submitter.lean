import ContractFuzz.Proofs.Interleaving.Safety
/-!
# Submissions side by side with recorders

The submission of a batch is safe, whatever is done between its steps: its transactions are stored
before the node answers, and then overwritten by copies that were made before. Nobody else touches
them in between, since they have no hashes yet and nobody waits for them.

## Main results

* `safe_submitBatch`, `safe_submitInputs`.
-/

namespace ContractFuzz

open Campaign Activity Discipline

variable {ω : Type} {e : Engine ω} {c : Campaign ω}

/-! ### The transactions of a batch -/

section Batch

variable {first : Nat} {task : TaskId} {function : FunctionId} {clock : Nat → Instant}
  {seeds : List Seed} {tx : Transaction}

/-- The transactions of a batch were not submitted yet. -/
theorem created_of_mem_newBatch (h : tx ∈ newBatch first task function clock seeds) :
    Transaction.First tx ∧ tx.Regular ∧ tx.status = .created ∧ tx.executed = .empty := by
  obtain ⟨number, time, seed, -, rfl⟩ := Ledger.exists_of_mem_newBatch h
  exact ⟨.created _ _ _ _ _, Transaction.regular_new _ _ _ _ _, rfl, rfl⟩

end Batch

namespace Campaign

/-- A batch may be stored under numbers that were handed out for it and are not in use. -/
theorem Orderly.append (h : c.Orderly) {first : Nat} {task : TaskId} {function : FunctionId}
    {clock : Nat → Instant} {seeds : List Seed}
    (unused : ∀ tx ∈ c.store.transactions, tx.id.number < first)
    (handedOut : first + seeds.length ≤ c.nextTransaction) :
    Orderly { c with
      store := c.store.createTransactions (newBatch first task function clock seeds) } where
  distinct := RecordId.nodup_append h.distinct unused (Ledger.numbers_newBatch _ _ _ _ _)
  numbered tx htx := by
    rcases List.mem_append.mp htx with htx | htx
    · exact h.numbered tx htx
    · have hnumber := RecordId.number_of_mem (Ledger.numbers_newBatch _ _ _ _ _) htx
      exact Nat.lt_of_lt_of_le hnumber.2 handedOut
  regular tx htx := by
    rcases List.mem_append.mp htx with htx | htx
    · exact h.regular tx htx
    · exact (created_of_mem_newBatch htx).2.1

/-- A batch may be stored in a submission. -/
theorem InSubmission.append (first : Nat) (task : TaskId) (function : FunctionId)
    (clock : Nat → Instant) (seeds : List Seed) : c.InSubmission { c with
      store := c.store.createTransactions (newBatch first task function clock seeds) } where
  tasks := rfl
  transactions := .append fun _ htx => (created_of_mem_newBatch htx).1.hasOrigin
  submitted _ htx _ := List.mem_append_left _ htx
  executedFor := Store.executedFor_append fun _ htx => (created_of_mem_newBatch htx).2.2.2

end Campaign

/-! ### Submissions -/

/-- Records of the log may be written at any time. -/
private theorem safe_forM_warn_bind {α : Type} {i : Worker} {k : Unit → Activity ω α}
    {R : Except Failure α → Bool → Campaign ω → Prop} {held : Bool} (warnings : List Warning)
    (fail : ∀ e c', Finds i held c c' → R (.error e) held c')
    (h : Activity.Safe i R (k ()) held c) :
    Activity.Safe i R (warnings.forM warn >>= k) held c := by
  induction warnings with
  | nil => exact h
  | cons w rest ih =>
    rw [List.forM, bind_assoc]
    exact Activity.Safe.quiet_bind (isQuiet_warn w) fail fun _ => ih

theorem safe_submitBatch (contract : Contract) (task : TaskId) (function : ContractFunction)
    (clock : Nat → Instant) (generated : List (Seed × List Value)) :
    (submitBatch e contract task function clock generated).Safe .submitter Unheld false c := by
  refine Activity.Safe.step_bind (f := fun c => (.ok c.nextTransaction,
    { c with nextTransaction := c.nextTransaction + generated.length })) rfl
    (fun _ _ _ h => by cases h) (fun _ _ h => by cases h) fun first c₁ _ orderly hfirst => ?_
  obtain rfl := Except.ok.inj hfirst
  refine ⟨⟨rfl, .refl _, fun _ htx _ => htx, fun _ => rfl⟩, ⟨orderly.distinct,
    fun tx htx => Nat.lt_add_right _ (orderly.numbered tx htx), orderly.regular⟩, ?_⟩
  -- No transaction was added since the numbers were handed out.
  refine Activity.Safe.change_bind fun c₂ found₂ orderly₂ => ?_
  have unused : ∀ tx ∈ c₂.store.transactions, tx.id.number < c₁.nextTransaction := by
    intro tx htx
    have hid : tx.id ∈ c₁.store.transactions.map (·.id) :=
      KeptForSubmitter.ids found₂ ▸ List.mem_map_of_mem htx
    obtain ⟨tx', htx', heq⟩ := List.mem_map.mp hid
    exact heq ▸ orderly.numbered tx' htx'
  have handedOut : c₁.nextTransaction + (generated.map (·.1)).length ≤ c₂.nextTransaction :=
    Nat.le_of_eq (by rw [KeptForSubmitter.number found₂, List.length_map])
  refine ⟨InSubmission.append _ _ _ _ _, orderly₂.append unused handedOut, ?_⟩
  refine Activity.Safe.quiet_bind (isQuiet_atomically fun world => e.services.submit contract
    function.name _ world) (fun _ _ _ => rfl) fun outcome => ?_
  refine safe_forM_warn_bind _ (fun _ _ _ => rfl) ?_
  rw [← bind_pure (update _)]
  -- All transactions of the batch are still there as they were stored.
  refine Activity.Safe.update_bind (fun _ _ _ => rfl) fun s c₃ found₃ orderly₃ hs => ?_
  obtain ⟨txs, rfl, versions⟩ := orderly₃.updateTransactions
    (fun tx => (Ledger.apply_same outcome tx).1) (fun tx htx => KeptForSubmitter.created found₃ tx
      (List.mem_append_right _ htx) (created_of_mem_newBatch htx).2.2.1) hs
  have revised : List.Forall₂ (Transaction.Revised (·.status = .created))
      c₃.store.transactions txs := by
    refine versions.imp fun old new hboth => hboth.imp id ?_
    rintro ⟨hold, rfl⟩
    obtain ⟨-, regular, created, -⟩ := created_of_mem_newBatch hold
    exact ⟨created, Transaction.becomes_apply outcome regular created,
      Transaction.regular_apply outcome regular created⟩
  have same : List.Forall₂
      (fun old new : Transaction => new.task = old.task ∧ new.executed = old.executed)
      c₃.store.transactions txs := by
    refine versions.imp fun old new hboth => ?_
    rcases hboth with rfl | ⟨-, rfl⟩
    · exact ⟨rfl, rfl⟩
    · rw [outcome.apply_eq]
      exact ⟨rfl, rfl⟩
  exact ⟨InSubmission.revise revised (Store.executedFor_eq_of_forall₂ same),
    orderly₃.revise revised, Activity.Safe.pure fun _ _ _ => rfl⟩

/-- What comes before the batch is generated only looks at the records. -/
theorem safe_submitInputs (id : TaskId) : (submitInputs e id).Safe .submitter Unheld false c := by
  have fail : ∀ {α : Type} failure (c' : Campaign ω), Finds .submitter false c c' →
    Unheld (σ := Campaign ω) (Except.error failure : Except Failure α) false c' := fun _ _ _ => rfl
  refine Activity.Safe.quiet_bind (isQuiet_query _) fail fun task => ?_
  split
  · refine Activity.Safe.quiet_bind (isQuiet_query _) fail fun contract => ?_
    refine Activity.Safe.ofExcept_bind fail fun definition => ?_
    refine Activity.Safe.quiet_bind (isQuiet_view _) fail fun functions => ?_
    refine Activity.Safe.quiet_bind (isQuiet_drawAsFuzzer _) fail fun function => ?_
    refine Activity.Safe.ofExcept_bind fail fun method => ?_
    refine Activity.Safe.quiet_bind (isQuiet_clock e) fail fun clock => ?_
    refine Activity.Safe.quiet_bind (isQuiet_drawAsFuzzer _) fail fun generated => ?_
    exact safe_submitBatch contract task.id function clock generated
  · exact Activity.Safe.pure fun _ _ _ => rfl

end ContractFuzz
