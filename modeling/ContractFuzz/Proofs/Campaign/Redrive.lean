import ContractFuzz.Proofs.Campaign.CheckExact
/-!
# Lost callbacks do not stall tasks

A submission leaves no transaction open that it did not submit: whatever the node answers, each is
running or was not accepted. So once all running transactions of a task have waited too long, the
next look at the running tasks finds nothing left to wait for, and requests inputs for it.

## Main definitions

* `Ledger.Submitted` : no transaction is left that was created and not submitted.

## Main results

* `Campaign.Later.submitted` : so it is in every state of a run.
* `Campaign.Later.redriven_of_stale` : a task whose callbacks are lost gets new inputs.
-/

namespace ContractFuzz

/-- Every transaction was submitted, with whatever success. -/
def Ledger.Submitted (g : Ledger) : Prop := ∀ tx ∈ g.store.transactions, tx.status ≠ .created

namespace Transaction

/-- Whatever the node answers, a transaction is not as it was created. -/
theorem apply_submitted (o : BatchOutcome) (tx : Transaction) : (o.apply tx).status ≠ .created := by
  unfold BatchOutcome.apply
  split <;> exact nofun

theorem persistent_submitted : Persistent fun tx => tx.status ≠ .created where
  deployed _ _ _ _ _ _ := nofun
  answered o _ _ _ _ _ := apply_submitted o _
  expired _ _ := nofun
  recorded _ _ _ _ _ _ _ := nofun
  weakened _ h := h

end Transaction

variable {ω : Type} {e : Engine ω} {now : Instant} {c c' : Campaign ω} {o : CheckOutcome}

/-- A task that is being tested gets a request if all of its running transactions have waited too
long. -/
theorem Checked.mem_redriven (h : Checked e now c o c')
    (submitted : ∀ tx ∈ c.store.transactions, tx.status ≠ .created) {id : TaskId}
    (underWay : c.store.UnderWay now id)
    (stale : ∀ tx ∈ c.store.transactions, tx.task = id → tx.status = .running →
      tx.timestamp ≤ now.cutoff e.config.timeout) : id ∈ o.redriven := by
  refine (h.redriven id).mpr ⟨underWay, fun tx htx htask => ?_⟩
  rw [h.transactions] at htx
  obtain ⟨tx, hmem, rfl⟩ := List.mem_map.mp htx
  by_cases hid : tx.id ∈ o.timedOut
  · rw [if_pos hid]
    exact ⟨nofun, nofun⟩
  · rw [if_neg hid] at htask ⊢
    refine ⟨submitted tx hmem, fun running => hid ((h.timedOut tx.id).mpr ?_)⟩
    exact ⟨tx, hmem, rfl, htask ▸ underWay, running, stale tx hmem htask running⟩

namespace Campaign

variable {world : ω} {deployer fuzzer : Source}

/-- In every later state all transactions were submitted. -/
theorem Later.submitted (h : Later e (initial world deployer fuzzer) c) : c.ledger.Submitted :=
  (h.changes (sound_initial world deployer fuzzer)).persists Transaction.persistent_submitted
    fun _ hmem => absurd hmem List.not_mem_nil

/-- Whatever has happened before, no transaction waits to be submitted; and once all transactions
that a task under way still waits for have waited too long, a look at the running tasks succeeds and
requests inputs for it, once. -/
theorem Later.redriven_of_stale (h : Later e (initial world deployer fuzzer) c) :
    (∀ tx ∈ c.store.transactions, tx.status ≠ .created) ∧
      ∀ id now, c.store.UnderWay now id →
        (∀ tx ∈ c.store.transactions, tx.task = id → tx.status = .running →
          tx.timestamp ≤ now.cutoff e.config.timeout) →
        ∃ o c', (checkTasks e now).perform c = (.ok o, c') ∧ id ∈ o.redriven ∧ o.redriven.Nodup ∧
          c'.requests.published = c.requests.published ++ o.redriven := by
  refine ⟨h.submitted, fun id now underWay stale => ?_⟩
  obtain ⟨o, c', ok, checked⟩ := exists_checked e now h.sound
  refine ⟨o, c', ok, checked.mem_redriven h.submitted underWay stale, ?_,
    congrArg Topic.published checked.requests⟩
  exact checked.redrivenAscending.imp fun hlt heq => by simp [heq] at hlt

/-- A node that accepts every second call. -/
def reluctantWorld : World :=
  { switchWorld with plan := [⟨none, some "underpriced"⟩, .accepted] }

/-- One callback arrives, the one after it does not. -/
def reluctantOperations : List (Operation World) :=
  [.start ⟨0⟩ .epoch, .deliver .deployer, .deliver .fuzzer, .recordExecution "h1" (.ofList [0]),
    .deliver .fuzzer]

/-- The state in which the second batch waits. -/
def reluctantCampaign : Campaign World :=
  Operation.performAll switchEngine reluctantOperations
    ((Operation.register switchTask switchContract).perform switchEngine
      (initial reluctantWorld (.ofSeed 0) (.ofSeed 0)))

theorem later_reluctantCampaign :
    Later switchEngine (initial reluctantWorld (.ofSeed 0) (.ofSeed 0)) reluctantCampaign := by
  refine (Later.now.step (.register switchTask switchContract) ⟨rfl, rfl⟩).performAll ?_
  intro op hop c
  simp only [reluctantOperations, List.mem_cons, List.not_mem_nil, or_false] at hop
  rcases hop with rfl | rfl | rfl | rfl | rfl <;> exact trivial

/-- Half a minute later the task gets its third request. -/
theorem redriven_of_stale_reluctantCampaign :
    reluctantCampaign.store.transactions.map (·.status) =
        [.done, .sendError, .done, .sendError, .running] ∧
      reluctantCampaign.requests.published = [⟨0⟩, ⟨0⟩] ∧
      ∃ o c', (checkTasks switchEngine (Instant.epoch.deadline (.ofSeconds 30))).perform
          reluctantCampaign = (.ok o, c') ∧ ⟨0⟩ ∈ o.redriven ∧ o.redriven.Nodup ∧
        c'.requests.published = [⟨0⟩, ⟨0⟩] ++ o.redriven := by
  let now := Instant.epoch.deadline (.ofSeconds 30)
  have facts : (reluctantCampaign.store.transactions.map (·.status) =
        [.done, .sendError, .done, .sendError, .running] ∧
      reluctantCampaign.requests.published = [⟨0⟩, ⟨0⟩]) ∧
      ⟨0⟩ ∈ (reluctantCampaign.store.runningTasks.filter
        (reluctantCampaign.store.isTested now)).map (·.id) ∧
      ∀ tx ∈ reluctantCampaign.store.transactions, tx.task = ⟨0⟩ → tx.status = .running →
        tx.timestamp ≤ now.cutoff switchEngine.config.timeout := by decide +kernel
  obtain ⟨⟨statuses, published⟩, tested, stale⟩ := facts
  obtain ⟨-, redriven⟩ := later_reluctantCampaign.redriven_of_stale
  refine ⟨statuses, published, ?_⟩
  have filed := filed_of_sound later_reluctantCampaign.sound
  have hstale := redriven ⟨0⟩ now ((mem_tested_iff filed).mp tested) stale
  rwa [published] at hstale

end Campaign

end ContractFuzz
