import ContractFuzz.Proofs.Abi.Accepted
import ContractFuzz.Proofs.Abi.Mutation
import ContractFuzz.Seed.Generation
/-!
# What batches consist of

Every member of a batch holds one value for each parameter, of its type, whether it was bred from
earlier calls or filled up from the corpus. A batch has at least the configured size, so a strategy
that picks a member finds one.

## Main results

* `always_seedBatch` : the size of a batch, and what its members are.
* `always_generateInput` : generated arguments are accepted by the parameters.
-/

namespace ContractFuzz

variable {inputs : List AbiParam}

/-! ### The corpus -/

theorem always_corpusValue (corpus : SeedCorpus) (p : AbiParam) :
    (corpusValue corpus p.type).Always p.Accepts := by
  refine TryDraw.always_bind (TryDraw.always_ofExcept fun _ h => h) fun type htype => ?_
  refine TryDraw.always_bind (TryDraw.always_draw (Argument.always_loadSeed _ _)) fun r hr => ?_
  obtain ⟨result, a⟩ := r
  refine TryDraw.always_bind (TryDraw.always_ofExcept fun _ h => h) fun _ hok => ?_
  refine TryDraw.always_pure ⟨type, htype, ?_⟩
  have hvalid := hr.2.1 hok
  rwa [Argument.Valid, hr.1] at hvalid

/-- What fills up a batch has the properties that all values of the corpus have. -/
theorem always_fillUp {corpus : SeedCorpus} {R : AbiParam → Value → Prop}
    (h : ∀ p, (corpusValue corpus p.type).Always (R p)) (inputs : List AbiParam) (missing : Nat) :
    (fillUp corpus inputs missing).Always fun filled =>
      filled.length = missing ∧ ∀ values ∈ filled, List.Forall₂ R inputs values := by
  induction missing with
  | zero => exact TryDraw.always_pure ⟨rfl, fun _ h => absurd h List.not_mem_nil⟩
  | succ missing ih =>
    refine TryDraw.always_bind (TryDraw.always_mapM fun p _ => h p) fun tuple htuple => ?_
    refine TryDraw.always_bind ih fun rest hrest => TryDraw.always_pure ⟨?_, ?_⟩
    · rw [List.length_cons, hrest.1]
    · intro values hvalues
      rcases List.mem_cons.mp hvalues with rfl | hvalues
      · exact htuple
      · exact hrest.2 values hvalues

/-! ### Batches -/

theorem accepts_of_decodeChildren {children : List Seed} {batch : List (List Value)}
    (h : decodeChildren inputs children = .ok batch) :
    ∀ values ∈ batch, List.Forall₂ AbiParam.Accepts inputs values := by
  induction children generalizing batch with
  | nil =>
    obtain rfl := Except.ok.inj h
    exact fun _ hmem => absurd hmem List.not_mem_nil
  | cons child rest ih =>
    unfold decodeChildren at h
    split at h
    · next decoded hread =>
      obtain ⟨others, hothers, hbatch⟩ := bind_eq_ok_iff.mp h
      obtain rfl := Except.ok.inj hbatch
      intro values hvalues
      rcases List.mem_cons.mp hvalues with rfl | hvalues
      · exact accepts_of_deserializeAll hread
      · exact ih hothers values hvalues
    · exact ih h
    · cases h

/-- A batch has at least the configured size, and all its members are accepted. -/
theorem always_seedBatch (config : FuzzingConfig) (store : Store) (target : FunctionTarget)
    (signal : Signal) :
    (seedBatch config store target signal).Always fun batch =>
      config.seedsSize ≤ batch.length ∧
        ∀ values ∈ batch, List.Forall₂ AbiParam.Accepts target.inputs values := by
  refine TryDraw.always_bind (TryDraw.always_draw (Draw.always_true _)) fun parents _ => ?_
  refine TryDraw.always_bind (TryDraw.always_draw (Draw.always_true _)) fun children _ => ?_
  refine TryDraw.always_bind (TryDraw.always_ofExcept fun _ h => h) fun bred hbred => ?_
  refine TryDraw.always_bind (always_fillUp (always_corpusValue _) _ _) fun filled hfilled => ?_
  refine TryDraw.always_pure ⟨?_, ?_⟩
  · rw [List.length_append, hfilled.1]
    omega
  · intro values hvalues
    rcases List.mem_append.mp hvalues with hvalues | hvalues
    · exact accepts_of_decodeChildren hbred values hvalues
    · exact hfilled.2 values hvalues

/-! ### Strategies -/

theorem always_mutateValue {p : AbiParam} {v : Value} (h : p.Accepts v) :
    (mutateValue p v).Always p.Accepts := by
  obtain ⟨type, htype, hv⟩ := h
  refine TryDraw.always_bind (TryDraw.always_ofExcept fun _ h => h) fun type' htype' => ?_
  obtain rfl := Except.ok.inj (htype.symm.trans htype')
  refine TryDraw.always_bind (TryDraw.always_draw (Argument.always_mutate hv)) fun r hr => ?_
  refine TryDraw.always_pure ⟨type, htype, ?_⟩
  have hvalid := hr.2
  rwa [Argument.Valid, hr.1] at hvalid

theorem always_mutateValueSometimes {p : AbiParam} {v : Value} (h : p.Accepts v) :
    (mutateValueSometimes p v).Always p.Accepts := by
  obtain ⟨type, htype, hv⟩ := h
  refine TryDraw.always_bind (TryDraw.always_ofExcept fun _ h => h) fun type' htype' => ?_
  obtain rfl := Except.ok.inj (htype.symm.trans htype')
  refine TryDraw.always_bind (TryDraw.always_draw (Argument.always_mutateSometimes hv))
    fun r hr => ?_
  refine TryDraw.always_pure ⟨type, htype, ?_⟩
  have hvalid := hr.2
  rwa [Argument.Valid, hr.1] at hvalid

theorem always_blackboxInput (config : FuzzingConfig) (target : FunctionTarget) :
    (blackboxInput config target).Always (List.Forall₂ AbiParam.Accepts target.inputs) :=
  TryDraw.always_mapM fun p _ =>
    TryDraw.always_bind (always_corpusValue config.seeds p) fun _ hv => always_mutateValue hv

variable {config : FuzzingConfig}

/-- A batch is never empty. -/
private theorem ne_nil_of_size_le {batch : List (List Value)} (hsize : 0 < config.seedsSize)
    (h : config.seedsSize ≤ batch.length) : batch ≠ [] :=
  List.length_pos_iff.mp (by omega)

theorem always_greyboxInput (hsize : 0 < config.seedsSize) (store : Store)
    (target : FunctionTarget) (signal : Signal) :
    (greyboxInput config store target signal).Always
      (List.Forall₂ AbiParam.Accepts target.inputs) := by
  refine TryDraw.always_bind (always_seedBatch config store target signal) fun batch hbatch => ?_
  refine TryDraw.always_bind
    (Q := fun chosen => ∃ values, chosen = some values ∧
      List.Forall₂ AbiParam.Accepts target.inputs values)
    (TryDraw.always_draw (Draw.always_choose (fun values h => ⟨values, rfl, hbatch.2 values h⟩)
      fun hnil => absurd hnil (ne_nil_of_size_le hsize hbatch.1))) fun chosen hchosen => ?_
  obtain ⟨values, rfl, hvalues⟩ := hchosen
  exact TryDraw.always_mapM_zip hvalues fun p v hv => always_mutateValue hv

theorem always_geneticInput (hsize : 0 < config.seedsSize) (store : Store)
    (target : FunctionTarget) :
    (geneticInput config store target).Always (List.Forall₂ AbiParam.Accepts target.inputs) := by
  refine TryDraw.always_bind (always_seedBatch config store target _) fun batch hbatch => ?_
  refine TryDraw.always_bind
    (Q := fun chosen => ∃ values, chosen = some values ∧
      List.Forall₂ AbiParam.Accepts target.inputs values)
    (TryDraw.always_draw (Draw.always_select (fun values h => ⟨values, rfl, hbatch.2 values h⟩)
      fun hnil => absurd hnil (ne_nil_of_size_le hsize hbatch.1))) fun chosen hchosen => ?_
  obtain ⟨values, rfl, hvalues⟩ := hchosen
  exact TryDraw.always_mapM_zip hvalues fun p v hv => always_mutateValueSometimes hv

/-- What any strategy generates is accepted by the parameters of the function. -/
theorem always_generateInput (hsize : 0 < config.seedsSize) (store : Store) (strategy : Strategy)
    (function : FunctionId) :
    (generateInput config store strategy function).Always fun values =>
      ∃ target, store.resolve function = .ok target ∧
        List.Forall₂ AbiParam.Accepts target.inputs values := by
  refine TryDraw.always_bind (TryDraw.always_ofExcept fun _ h => h) fun target htarget => ?_
  have accepted {d : TryDraw (List Value)}
      (h : d.Always (List.Forall₂ AbiParam.Accepts target.inputs)) :
      d.Always fun values => ∃ target, store.resolve function = .ok target ∧
        List.Forall₂ AbiParam.Accepts target.inputs values :=
    h.mono fun values hvalues => ⟨target, htarget, hvalues⟩
  cases strategy with
  | blackbox => exact accepted (always_blackboxInput config target)
  | greybox => exact accepted (always_greyboxInput hsize store target _)
  | directedGreybox => exact accepted (always_greyboxInput hsize store target _)
  | otherDirectedGreybox => exact accepted (always_greyboxInput hsize store target _)
  | geneticAlgorithm => exact accepted (always_geneticInput hsize store target)

end ContractFuzz
