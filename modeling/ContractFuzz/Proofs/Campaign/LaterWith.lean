import ContractFuzz.Proofs.Campaign.LifeCycle
/-!
# Runs in which only some tasks are registered

Some of what holds in every run depends on the tasks and contracts that are registered: that they
come without an analysis, say. Here are the runs that register accepted ones only, and the induction
over them: what holds of no records, and is kept when an accepted task is registered and by all that
happens otherwise, holds at all times.

## Main definitions

* `Campaign.LaterWith` : the states that operations lead to, when all tasks that they register are
  accepted.

## Main results

* `Campaign.LaterWith.invariant` : what registrations and all other moves keep holds in every state.
-/

namespace ContractFuzz

variable {ω : Type}

/-- Tasks that an operation registers are accepted, with their contracts. -/
def Operation.Registers (Accepted : Task → Contract → Prop) : Operation ω → Prop
  | register task contract => Accepted task contract
  | _ => True

namespace Campaign

/-- The states that operations lead to from a given one, when only accepted tasks are registered,
under new ids. -/
inductive LaterWith (e : Engine ω) (Accepted : Task → Contract → Prop) (c : Campaign ω) :
    Campaign ω → Prop
  | now : LaterWith e Accepted c c
  | step {c' : Campaign ω} (later : LaterWith e Accepted c c') (op : Operation ω)
      (fresh : op.Fresh c') (accepted : op.Registers Accepted) :
      LaterWith e Accepted c (op.perform e c')

variable {e : Engine ω} {Accepted : Task → Contract → Prop} {c c' : Campaign ω}

theorem LaterWith.later (h : LaterWith e Accepted c c') : Later e c c' := by
  induction h with
  | now => exact .now
  | step _ op fresh accepted ih => exact ih.step op fresh

/-- Every run registers tasks of some kind. -/
theorem Later.laterWith (h : Later e c c') : LaterWith e (fun _ _ => True) c c' := by
  induction h with
  | now => exact .now
  | step _ op fresh ih => exact ih.step op fresh (by cases op <;> exact trivial)

/-- Operations that are always allowed, and register nothing, lead to later states. -/
theorem LaterWith.performAll {ops : List (Operation ω)} (fresh : ∀ op ∈ ops, ∀ c, op.Fresh c)
    (accepted : ∀ op ∈ ops, op.Registers Accepted) (later : LaterWith e Accepted c c') :
    LaterWith e Accepted c (Operation.performAll e ops c') := by
  induction ops generalizing c' with
  | nil => exact later
  | cons op ops ih =>
    exact ih (fun op' hop => fresh op' (List.mem_cons_of_mem _ hop))
      (fun op' hop => accepted op' (List.mem_cons_of_mem _ hop))
      (later.step op (fresh op List.mem_cons_self c') (accepted op List.mem_cons_self))

theorem LaterWith.sound (sound : c.ledger.Sound) (h : LaterWith e Accepted c c') :
    c'.ledger.Sound :=
  Ledger.Changes.sound sound (h.later.changes sound)

/-- What is true of the records at first, and kept by registrations of accepted tasks and by every
other move of a sound ledger, is true in every later state. -/
theorem LaterWith.invariant {J : Ledger → Prop} (h : LaterWith e Accepted c c')
    (sound : c.ledger.Sound) (start : J c.ledger)
    (register : ∀ {g : Ledger} {task : Task} {contract : Contract} {definition : AbiDefinition},
      g.Sound → J g → Accepted task contract → g.store.tasks.get? task.id = none →
      g.store.contracts.get? contract.id = none → contract.definition = .ok definition →
      J (g.register task contract definition))
    (move : ∀ {g g' : Ledger}, g.Sound → J g → Ledger.Move e.config (fun _ _ => False) g g' →
      J g') : J c'.ledger := by
  have moves : ∀ {g g' : Ledger}, g.Sound → J g → Ledger.Moves e.config (fun _ _ => False) g g' →
      J g' := by
    intro g g' sound hg hmoves
    induction hmoves with
    | refl => exact hg
    | tail before hmove ih => exact move (Ledger.Moves.sound sound before) ih hmove
  induction h with
  | now => exact start
  | @step c' later op fresh accepted ih =>
    have sound' := later.sound sound
    -- Only a registration is not made of moves that are allowed when no task is accepted.
    cases op with
    | register task contract =>
      rcases ledger_registerTask (c := c') task contract with heq | ⟨definition, hdefinition, heq⟩
      · exact heq ▸ ih
      · exact heq ▸ register sound' ih accepted fresh.1 fresh.2 hdefinition
    | _ => exact moves sound' ih (Operation.moves_perform sound' _ trivial)

theorem laterWith_switchCampaign (accepted : Accepted switchTask switchContract) :
    LaterWith switchEngine Accepted (initial switchWorld (.ofSeed 0) (.ofSeed 0))
      switchCampaign := by
  have registered : LaterWith switchEngine Accepted (initial switchWorld (.ofSeed 0) (.ofSeed 0))
      ((Operation.register switchTask switchContract).perform switchEngine
        (Campaign.start 0 switchWorld)) :=
    LaterWith.now.step (.register switchTask switchContract) ⟨rfl, rfl⟩ accepted
  have registersNothing : ∀ op ∈ switchOperations,
      op.Registers Accepted ∧ ∀ c, op.Fresh c := by
    intro op hop
    simp only [switchOperations, List.mem_cons, List.not_mem_nil, or_false] at hop
    rcases hop with rfl | rfl | rfl | rfl | rfl | rfl | rfl <;> exact ⟨trivial, fun _ => trivial⟩
  exact registered.performAll (fun op hop => (registersNothing op hop).2)
    fun op hop => (registersNothing op hop).1

end Campaign

end ContractFuzz
