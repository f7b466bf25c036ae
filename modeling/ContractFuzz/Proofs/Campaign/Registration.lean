import ContractFuzz.Proofs.Abi.Overloads
import ContractFuzz.Proofs.Campaign.FittingHistory
import ContractFuzz.Proofs.Campaign.LatestDeployment
/-!
# Registered functions

The functions of a contract are recorded once, when it is registered, and their parameters are
looked up in its interface definition whenever they are called. Both agree for every definition: a
function that was recorded is found, at any later time, with as many parameters as were recorded.
For a contract whose definition cannot be read nothing is recorded.

## Main definitions

* `Ledger.Owned` : every function belongs to a stored contract.
* `Ledger.Enrolled` : a contract is stored, and its functions are given records.
* `Campaign.Resolves` : recorded functions are found, with the parameters of their contract.

## Main results

* `AbiDefinition.exists_inputsOf` : a recorded function has as many parameters as its record says.
* `Ledger.Move.owned`, `Ledger.Move.enrolled` : every move keeps functions and contracts together.
* `Campaign.Later.registerTask_outcome` : what a registration leads to, then and later.
-/

namespace ContractFuzz

/-! ### Records and definitions -/

namespace AbiDefinition

variable {d : AbiDefinition} {contract : ContractId} {first : Nat} {f : ContractFunction}

theorem contract_of_mem_functions (h : f ∈ d.functions contract first) : f.contract = contract := by
  rcases List.mem_cons.mp h with rfl | h
  · rfl
  · obtain ⟨i, hi, rfl⟩ := List.mem_mapIdx.mp h
    rfl

/-- The records that follow the constructor's are those of the methods, in their order. -/
theorem forall₂_methodRecord (d : AbiDefinition) (contract : ContractId) (first : Nat) :
    ∃ records, d.functions contract first = d.constructorRecord contract ⟨first⟩ :: records ∧
      List.Forall₂ (fun f m => f = methodRecord contract m f.id) records d.methods.values := by
  refine ⟨_, rfl, List.forall₂_iff_get.mpr ⟨List.length_mapIdx, fun i hi hi' => ?_⟩⟩
  simp [methodRecord]

/-- Any contract with that interface definition has, for each function that is recorded from the
definition, as many parameters as the record says. -/
theorem exists_inputsOf {k : Contract} (hdefinition : k.definition = .ok d)
    (h : f ∈ d.functions contract first) :
    ∃ inputs, k.inputsOf f = .ok inputs ∧ inputs.length = f.arity := by
  rcases List.mem_cons.mp h with rfl | h
  · exact ⟨d.constructorInputs, bind_eq_ok_iff.mpr ⟨d, hdefinition, rfl⟩, rfl⟩
  · obtain ⟨i, hi, rfl⟩ := List.mem_mapIdx.mp h
    -- What is recorded is the name under which the definition knows the method.
    have hmethod := method_of_mem_values hdefinition (List.getElem_mem hi)
    exact ⟨_, Contract.inputsOf_of_method hdefinition hmethod rfl, rfl⟩

end AbiDefinition

/-- The constructor of a contract is looked for among its functions. -/
theorem Store.constructorOf_eq {s : Store} {id : ContractId} :
    s.constructorOf id = orMissing (.constructorOf id)
      ((s.functionsOf id).find? (·.isConstructor)) := by
  simp only [constructorOf, functionsOf, List.find?_filter, Bool.decide_and, Bool.decide_eq_true]

/-! ### Functions and their contracts -/

namespace Ledger

variable {config : Config} {g g' : Ledger}

/-- Every function belongs to a stored contract. -/
def Owned (g : Ledger) : Prop :=
  ∀ f ∈ g.store.functions, ∃ k, g.store.contracts.get? f.contract = some k

/-- The contract of that id is stored with a task and an interface definition, and its functions are
given records. -/
structure Enrolled (g : Ledger) (id : ContractId) (task : TaskId) (abi : String)
    (records : List ContractFunction) : Prop where
  stored : ∃ k, g.store.contracts.get? id = some k ∧ k.task = task ∧ k.abi = abi
  listed : g.store.functionsOf id = records

/-- The functions of a new contract are added to its own alone. -/
theorem functionsOf_register {task : Task} {contract : Contract} {definition : AbiDefinition}
    (id : ContractId) : (g.register task contract definition).store.functionsOf id =
      g.store.functionsOf id ++
        if contract.id = id then definition.functions contract.id g.nextFunction else [] := by
  refine (List.filter_append _ _).trans (congrArg (g.store.functionsOf id ++ ·) ?_)
  split
  · next heq =>
    refine List.filter_eq_self.mpr fun f hf => beq_iff_eq.mpr ?_
    exact (AbiDefinition.contract_of_mem_functions hf).trans heq
  · next hne =>
    refine List.filter_eq_nil_iff.mpr fun f hf heq => hne ?_
    exact (AbiDefinition.contract_of_mem_functions hf).symm.trans (beq_iff_eq.mp heq)

/-- Functions that belonged to a stored contract still do. -/
theorem Owned.keeps (h : g.Owned) (keeps : g.store.Keeps g'.store) :
    ∀ f ∈ g.store.functions, ∃ k, g'.store.contracts.get? f.contract = some k := by
  intro f hf
  obtain ⟨k, hk⟩ := h f hf
  obtain ⟨k', hk', -⟩ := keeps.contracts hk
  exact ⟨k', hk'⟩

theorem Owned.register (h : g.Owned) {task : Task} {contract : Contract}
    {definition : AbiDefinition} (newContract : g.store.contracts.get? contract.id = none) :
    (g.register task contract definition).Owned := by
  intro f hf
  rcases List.mem_append.mp hf with hf | hf
  · exact h.keeps (keeps_register newContract) f hf
  · rw [AbiDefinition.contract_of_mem_functions hf]
    exact ⟨_, SortedMap.get?_insert_self _ _ _⟩

theorem Move.owned (h : g.Owned) (move : Move config (fun _ _ => False) g g') : g'.Owned := by
  obtain ⟨hfunctions, keeps⟩ := move.keeps
  exact fun f hf => h.keeps keeps f (hfunctions ▸ hf)

/-- A contract that was not stored has no functions before it is registered, and then those that its
definition declares. -/
theorem enrolled_register (h : g.Owned) {task : Task} {contract : Contract}
    {definition : AbiDefinition} (newContract : g.store.contracts.get? contract.id = none) :
    (g.register task contract definition).Enrolled contract.id task.id contract.abi
      (definition.functions contract.id g.nextFunction) := by
  refine ⟨⟨_, SortedMap.get?_insert_self _ _ _, rfl, rfl⟩, ?_⟩
  have none : g.store.functionsOf contract.id = [] := by
    refine List.filter_eq_nil_iff.mpr fun f hf heq => ?_
    obtain ⟨k, hk⟩ := h f hf
    rw [beq_iff_eq.mp heq, newContract] at hk
    cases hk
  rw [functionsOf_register, none, if_pos rfl, List.nil_append]

section Enrolled

variable {id : ContractId} {task : TaskId} {abi : String} {records : List ContractFunction}

/-- A contract stays enrolled when all contracts are kept and it gets no further functions. -/
theorem Enrolled.keeps (h : g.Enrolled id task abi records) (keeps : g.store.Keeps g'.store)
    (same : g'.store.functionsOf id = g.store.functionsOf id) :
    g'.Enrolled id task abi records := by
  obtain ⟨k, hk, htask, habi⟩ := h.stored
  obtain ⟨k', hk', htask', habi'⟩ := keeps.contracts hk
  exact ⟨⟨k', hk', htask'.trans htask, habi'.trans habi⟩, same.trans h.listed⟩

/-- Registering another contract changes nothing of it. -/
theorem Enrolled.register (h : g.Enrolled id task abi records) {other : Task}
    {contract : Contract} {definition : AbiDefinition}
    (newContract : g.store.contracts.get? contract.id = none) :
    (g.register other contract definition).Enrolled id task abi records := by
  have hne : contract.id ≠ id := by
    rintro rfl
    obtain ⟨k, hk, -⟩ := h.stored
    rw [newContract] at hk
    cases hk
  refine h.keeps (keeps_register newContract) ?_
  rw [functionsOf_register, if_neg hne, List.append_nil]

theorem Move.enrolled (h : g.Enrolled id task abi records)
    (move : Move config (fun _ _ => False) g g') : g'.Enrolled id task abi records := by
  obtain ⟨hfunctions, keeps⟩ := move.keeps
  exact h.keeps keeps (congrArg (List.filter _) hfunctions)

end Enrolled

end Ledger

/-! ### Runs -/

namespace Campaign

variable {ω : Type} {e : Engine ω} {c c' : Campaign ω} {world : ω} {deployer fuzzer : Source}

/-- The contract of that id is stored with a task and an interface definition. Its constructor and
its functions are given records, and each of these is found with the contract and as many parameters
as it says. -/
structure Resolves (c : Campaign ω) (id : ContractId) (task : TaskId) (abi : String)
    (constructor : ContractFunction) (records : List ContractFunction) : Prop where
  contract_eq : ∃ k, c.store.getContract id = .ok k ∧ k.task = task ∧ k.abi = abi
  constructor_eq : c.store.constructorOf id = .ok constructor
  functions_eq : c.store.functionsOf id = constructor :: records
  resolved : ∀ f ∈ constructor :: records, ∃ k inputs,
    c.store.resolve f.id = .ok ⟨f.id, k, inputs⟩ ∧ k.id = id ∧ inputs.length = f.arity

/-- In every state of a run, every function belongs to a stored contract. -/
theorem Later.owned (h : Later e (initial world deployer fuzzer) c) : c.ledger.Owned := by
  refine h.laterWith.invariant (J := Ledger.Owned) (sound_initial world deployer fuzzer) ?_ ?_ ?_
  · intro f hf
    rw [ledger_initial] at hf
    cases hf
  · exact fun _ owned _ _ newContract _ => owned.register newContract
  · exact fun _ owned move => move.owned owned

/-- A contract and its functions stay as they were registered. -/
theorem Later.enrolled {id : ContractId} {task : TaskId} {abi : String}
    {records : List ContractFunction} (h : Later e c c') (sound : c.ledger.Sound)
    (enrolled : c.ledger.Enrolled id task abi records) :
    c'.ledger.Enrolled id task abi records :=
  h.laterWith.invariant sound enrolled
    (fun _ enrolled _ _ newContract _ => enrolled.register newContract)
    fun _ enrolled move => move.enrolled enrolled

/-- Records that were made from an interface definition can be found. -/
theorem resolves_of_enrolled (sound : c.ledger.Sound) (fitting : c.ledger.Fitting)
    {id : ContractId} {task : TaskId} {abi : String} {definition : AbiDefinition} {first : Nat}
    {records : List ContractFunction} (hdefinition : AbiDefinition.parse abi = .ok definition)
    (hrecords : definition.functions id first = definition.constructorRecord id ⟨first⟩ :: records)
    (enrolled : c.ledger.Enrolled id task abi (definition.functions id first)) :
    c.Resolves id task abi (definition.constructorRecord id ⟨first⟩) records := by
  obtain ⟨k, hk, htask, habi⟩ := enrolled.stored
  have hlisted : c.store.functionsOf id = _ := enrolled.listed
  refine ⟨⟨k, Store.getContract_eq_ok_iff.mpr hk, htask, habi⟩, ?_, hlisted.trans hrecords, ?_⟩
  · rw [Store.constructorOf_eq, hlisted]
    rfl
  · rw [← hrecords]
    intro f hf
    have hcontract : f.contract = id := AbiDefinition.contract_of_mem_functions hf
    have hmem : f ∈ c.store.functions := List.mem_of_mem_filter (hlisted ▸ hf)
    have hparsed : k.definition = .ok definition := by rw [Contract.definition, habi, hdefinition]
    obtain ⟨inputs, hinputs, harity⟩ := AbiDefinition.exists_inputsOf hparsed hf
    exact ⟨k, inputs, Store.resolve_of_mem fitting.distinct hmem (hcontract ▸ hk) hinputs,
      sound.contractNamed hk, harity⟩

/-- A registration under new ids fails and changes nothing, just if the interface definition cannot
be read. Else the store has gained the task, the contract bound to the task, a constructor and one
function for each method of the definition, and nothing else. Then and at all later times these are
the functions of the contract, and each is found with the contract and as many parameters as its
record says. -/
theorem Later.registerTask_outcome (h : Later e (initial world deployer fuzzer) c) (task : Task)
    (contract : Contract) (newTask : c.store.tasks.get? task.id = none)
    (newContract : c.store.contracts.get? contract.id = none) :
    (∃ failure, AbiDefinition.parse contract.abi = .error failure ∧
      (registerTask task contract).perform c = (.error failure, c)) ∨
    ∃ definition constructor records c', AbiDefinition.parse contract.abi = .ok definition ∧
      (registerTask task contract).perform c = (.ok task.id, c') ∧
      c'.store = ⟨c.store.tasks.insert task.id task,
        c.store.contracts.insert contract.id { contract with task := task.id },
        c.store.functions ++ constructor :: records, c.store.transactions⟩ ∧
      (∃ id, constructor = definition.constructorRecord contract.id id) ∧
      List.Forall₂ (fun f m => f = AbiDefinition.methodRecord contract.id m f.id) records
        definition.methods.values ∧
      (c'.store.functions.map (·.id)).Nodup ∧
      c'.store.contractOfTask task.id = .ok { contract with task := task.id } ∧
      ∀ c'', Later e c' c'' →
        c''.Resolves contract.id task.id contract.abi constructor records := by
  cases hdefinition : AbiDefinition.parse contract.abi with
  | error failure => exact .inl ⟨failure, rfl, perform_registerTask_of_error hdefinition⟩
  | ok definition =>
    obtain ⟨records, hrecords, hmethods⟩ :=
      definition.forall₂_methodRecord contract.id c.nextFunction
    have hperform : (registerTask task contract).perform c = _ :=
      perform_registerTask_of_ok hdefinition
    generalize hc' : { c with
      store := (c.ledger.register task contract definition).store
      nextFunction := c.nextFunction + (definition.methods.size + 1) } = c' at hperform
    have hledger : c'.ledger = c.ledger.register task contract definition := by
      rw [← hc']
      rfl
    -- The state after the registration belongs to the run, as do all later ones.
    have later : Later e (initial world deployer fuzzer) c' := by
      have hstep := h.step (.register task contract) ⟨newTask, newContract⟩
      rwa [Operation.perform, hperform] at hstep
    have enrolled : c'.ledger.Enrolled contract.id task.id contract.abi
        (definition.functions contract.id c.nextFunction) :=
      hledger ▸ Ledger.enrolled_register h.owned newContract
    have hstore : c'.store = (c.ledger.register task contract definition).store :=
      congrArg (·.store) hledger
    have hcontract : c'.store.contractOfTask task.id = .ok { contract with task := task.id } := by
      refine later.sound.contractOfTask_eq_ok_iff.mpr ⟨?_, rfl⟩
      exact hledger ▸ SortedMap.get?_insert_self _ _ _
    refine .inr ⟨definition, definition.constructorRecord contract.id ⟨c.nextFunction⟩, records, c',
      rfl, hperform, ?_, ⟨_, rfl⟩, hmethods, later.fitting.distinct, hcontract,
      fun c'' onward => ?_⟩
    · rw [hstore, ← hrecords]
      rfl
    · have later' := later.trans onward
      exact resolves_of_enrolled later'.sound later'.fitting hdefinition hrecords
        (onward.enrolled later.sound enrolled)

/-- A task that is registered after the others. -/
def overloadedTask : Task := { switchTask with id := ⟨1⟩ }

/-- A contract with two functions of the same name, and one that is called like a constructor. -/
def overloadedContract : Contract := .new ⟨1⟩ ⟨1⟩ "Overloaded"
  "[[\"function\",\"constructor\",[[\"on\",\"bool\"]]],
    [\"function\",\"set\"],[\"function\",\"set\",[[\"to\",\"uint8\"]]]]"

/-- While another task runs, a contract is registered with as many parameters as each of its
functions takes, and with none for its constructor, which is not declared. -/
theorem registerTask_outcome_overloadedContract :
    ((registerTask overloadedTask overloadedContract).perform (startedIn switchWorld)).1 =
      .ok ⟨1⟩ ∧
    (((registerTask overloadedTask overloadedContract).perform
      (startedIn switchWorld)).2.store.functionsOf ⟨1⟩).map
        (fun f => (f.name, f.arity, f.isConstructor)) =
      [("constructor", 0, true), ("constructor", 1, false), ("set", 0, false),
        ("set0", 1, false)] ∧
    ∃ constructor records, ∀ c, Later switchEngine
      ((registerTask overloadedTask overloadedContract).perform (startedIn switchWorld)).2 c →
        c.Resolves ⟨1⟩ ⟨1⟩ overloadedContract.abi constructor records := by
  have registered : ((registerTask overloadedTask overloadedContract).perform
      (startedIn switchWorld)).1.toOption = some ⟨1⟩ := by decide +kernel
  have newTask : (startedIn switchWorld).store.tasks.get? overloadedTask.id = none :=
    Option.isNone_iff_eq_none.mp (by decide +kernel)
  have newContract : (startedIn switchWorld).store.contracts.get? overloadedContract.id = none :=
    Option.isNone_iff_eq_none.mp (by decide +kernel)
  rcases (later_startedIn switchWorld).registerTask_outcome overloadedTask overloadedContract
      newTask newContract with
    ⟨failure, -, failed⟩ | ⟨-, constructor, records, c', -, performed, -, -, -, -, -, resolves⟩
  · rw [failed] at registered
    cases registered
  · refine ⟨by rw [performed]; rfl, by decide +kernel, constructor, records, fun c onward => ?_⟩
    rw [performed] at onward
    exact resolves c onward

end Campaign

end ContractFuzz
