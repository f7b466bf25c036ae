import ContractFuzz.Proofs.Seed.Crossing
import ContractFuzz.Proofs.Seed.Provenance
/-!
# Seeds that fit their parameters

A seed fits a list of parameters if it has one text for each of them, which stands for a value of
its type. What is generated fits, be it for a function or for a constructor. And where the recent
inputs of a function fit, its batches never fail over the number of fields of a seed: children have
as many fields as their parents.

## Main definitions

* `Fits` : seeds that fit.
* `Failure.isSeedArity` : the failure over the number of fields.

## Main results

* `always_constructorArguments`, `always_generateBatch` : what is generated fits.
* `failsOnly_requestSeeds` : batches do not fail over the number of fields.
-/

namespace ContractFuzz

/-- The seed has a text for each parameter, which stands for a value of its type. -/
def Fits (inputs : List AbiParam) (seed : Seed) : Prop :=
  ∃ values, deserializeAll inputs seed = .ok values

theorem Fits.length_eq {inputs : List AbiParam} {seed : Seed} (h : Fits inputs seed) :
    seed.length = inputs.length := by
  obtain ⟨values, hvalues⟩ := h
  unfold deserializeAll at hvalues
  split at hvalues
  · assumption
  · cases hvalues

/-! ### What is generated -/

theorem always_generateArgument (p : AbiParam) :
    (generateArgument p).Always fun r => p.Accepts r.1 ∧ r.2 = r.1.serialized := by
  refine TryDraw.always_bind (TryDraw.always_ofExcept fun _ h => h) fun type htype => ?_
  have generated : (Argument.fresh type).generate.Always fun a => type.kind.IsValue a.value :=
    Draw.always_bind (AbiKind.always_generate type.kind) fun v hv => Draw.always_pure hv
  refine TryDraw.always_bind (TryDraw.always_draw generated) fun a ha => ?_
  exact TryDraw.always_pure ⟨⟨type, htype, ha⟩, rfl⟩

/-- The texts of constructor arguments stand for the arguments, be they given or generated. -/
theorem always_constructorArguments (task : Task) (inputs : List AbiParam) :
    (constructorArguments task inputs).Always fun r => deserializeAll inputs r.2 = .ok r.1 := by
  unfold constructorArguments
  split
  · refine TryDraw.always_bind (TryDraw.always_mapM fun p _ => always_generateArgument p)
      fun generated h => TryDraw.always_pure ?_
    have accepted : List.Forall₂ AbiParam.Accepts inputs (generated.map (·.1)) :=
      List.forall₂_map_right_iff.mpr (h.imp fun _ _ hr => hr.1)
    have texts : generated.map (·.2) = (generated.map (·.1)).map Value.serialized := by
      rw [List.map_map]
      refine List.map_congr_left fun r hr => ?_
      obtain ⟨p, -, hp⟩ := (exists_mem_of_forall₂ h).2 r hr
      exact hp.2
    rw [List.unzip_eq_map, texts]
    exact deserializeAll_serialized accepted
  · exact TryDraw.always_bind (TryDraw.always_ofExcept fun _ h => h) fun values hvalues =>
      TryDraw.always_pure hvalues

theorem always_generateOne (config : FuzzingConfig) (store : Store) (strategy : Strategy)
    (function : FunctionId) (inputs : List AbiParam) :
    (generateOne config store strategy function inputs).Always fun r =>
      deserializeAll inputs r.1 = .ok r.2 := by
  refine TryDraw.always_bind (TryDraw.always_true _) fun generated _ => ?_
  refine TryDraw.always_bind (TryDraw.always_true _) fun texts _ => ?_
  exact TryDraw.always_bind (TryDraw.always_ofExcept fun _ h => h) fun values hvalues =>
    TryDraw.always_pure hvalues

/-- A batch has the configured size, and its texts stand for the values that go with them. -/
theorem always_generateBatch (config : FuzzingConfig) (strategy : Strategy)
    (function : FunctionId) (inputs : List AbiParam) (store : Store) :
    (generateBatch config strategy function inputs store).Always fun batch =>
      batch.length = config.batchSize ∧ ∀ r ∈ batch, deserializeAll inputs r.1 = .ok r.2 := by
  refine TryDraw.always_bind (TryDraw.always_true _) fun _ _ => ?_
  refine (TryDraw.always_mapM fun _ _ =>
    always_generateOne config store strategy function inputs).mono fun batch h => ⟨?_, ?_⟩
  · rw [← h.length_eq, List.length_replicate]
  · intro r hr
    obtain ⟨-, -, hread⟩ := (exists_mem_of_forall₂ h).2 r hr
    exact hread

/-! ### Children -/

/-- The children of seeds of one length have that length. -/
theorem IsChild.length_eq {seeds : List Seed} {child : Seed} (h : IsChild seeds child) {n : Nat}
    (hseeds : ∀ seed ∈ seeds, seed.length = n) : child.length = n := by
  obtain ⟨first, hfirst, second, hsecond, a, b, hcrossed, heither⟩ := h
  obtain ⟨ha, hb⟩ := length_of_crossover hcrossed
  rcases heither with rfl | rfl
  · exact ha.trans (hseeds first hfirst)
  · exact hb.trans (hseeds first hfirst)

/-! ### Failures -/

/-- Whether the failure is over the number of fields of a seed. -/
def Failure.isSeedArity : Failure → Bool
  | .seedArity _ _ => true
  | _ => false

theorem isSeedArity_of_named {name : String} {e : Failure} (h : AbiType.named name = .error e) :
    e.isSeedArity = false := by
  unfold AbiType.named at h
  split at h <;> cases h
  rfl

theorem isSeedArity_of_deserialize {type : AbiType} {raw : String} {e : Failure}
    (h : type.deserialize raw = .error e) : e.isSeedArity = false := by
  unfold AbiType.deserialize at h
  dsimp only at h
  split at h <;> cases h
  rfl

/-- Reading a seed with one field for each parameter does not fail over their number. -/
theorem isSeedArity_of_deserializeAll {inputs : List AbiParam} {seed : Seed} {e : Failure}
    (hlength : seed.length = inputs.length) (h : deserializeAll inputs seed = .error e) :
    e.isSeedArity = false := by
  unfold deserializeAll at h
  rw [if_pos hlength] at h
  obtain ⟨⟨p, raw⟩, -, h⟩ := exists_of_mapM_eq_error h
  rcases bind_eq_error_iff.mp h with h | ⟨type, -, h⟩
  · exact isSeedArity_of_named h
  · exact isSeedArity_of_deserialize h

theorem isSeedArity_of_decodeChildren {inputs : List AbiParam} {children : List Seed} {e : Failure}
    (hlength : ∀ child ∈ children, child.length = inputs.length)
    (h : decodeChildren inputs children = .error e) : e.isSeedArity = false := by
  induction children with
  | nil => cases h
  | cons child rest ih =>
    have ih := ih fun child' hchild' => hlength child' (List.mem_cons_of_mem child hchild')
    unfold decodeChildren at h
    split at h
    · rcases bind_eq_error_iff.mp h with h | ⟨others, -, h⟩
      · exact ih h
      · cases h
    · exact ih h
    · next e' _ herror =>
      obtain rfl := Except.error.inj h
      exact isSeedArity_of_deserializeAll (hlength child List.mem_cons_self) herror

/-! #### Batches -/

theorem failsOnly_corpusValue (corpus : SeedCorpus) (type : String) :
    (corpusValue corpus type).FailsOnly (·.isSeedArity = false) := by
  refine TryDraw.failsOnly_bind (TryDraw.failsOnly_ofExcept fun _ h => isSeedArity_of_named h)
    (TryDraw.always_true _) fun type _ => ?_
  have loaded : ((Argument.fresh type).loadSeed corpus).Always fun r =>
      ∀ e, r.1 = .error e → e.isSeedArity = false := by
    refine Draw.always_bind (Draw.always_true _) fun chosen _ => ?_
    cases chosen with
    | none => exact Draw.always_pure fun e he => by cases he; rfl
    | some raw =>
      refine Draw.always_pure fun e he => ?_
      unfold Argument.deserialize at he
      split at he
      · cases he
      · next herror =>
        obtain rfl := Except.error.inj he
        exact isSeedArity_of_deserialize herror
  refine TryDraw.failsOnly_bind (TryDraw.failsOnly_draw _) (TryDraw.always_draw loaded)
    fun r hr => ?_
  exact TryDraw.failsOnly_bind (TryDraw.failsOnly_ofExcept hr) (TryDraw.always_true _)
    fun _ _ => TryDraw.failsOnly_pure _

theorem failsOnly_fillUp (corpus : SeedCorpus) (inputs : List AbiParam) (missing : Nat) :
    (fillUp corpus inputs missing).FailsOnly (·.isSeedArity = false) := by
  induction missing with
  | zero => exact TryDraw.failsOnly_pure []
  | succ missing ih =>
    refine TryDraw.failsOnly_bind (TryDraw.failsOnly_mapM fun p _ =>
      failsOnly_corpusValue corpus p.type) (TryDraw.always_true _) fun tuple _ => ?_
    exact TryDraw.failsOnly_bind ih (TryDraw.always_true _) fun rest _ => TryDraw.failsOnly_pure _

/-- Where the recent inputs of a function have one field for each parameter, so have the children
that are bred from them. -/
theorem failsOnly_seedBatch {config : FuzzingConfig} {store : Store} {target : FunctionTarget}
    {signal : Signal}
    (hrecent : ∀ tx ∈ store.recentDone target.function (2 * config.seedsSize),
      tx.inputs.length = target.inputs.length) :
    (seedBatch config store target signal).FailsOnly (·.isSeedArity = false) := by
  have hranked : ∀ seed ∈ rankedSeeds config store target signal,
      seed.length = target.inputs.length := by
    intro seed hseed
    obtain ⟨tx, htx, rfl⟩ :=
      List.mem_map.mp ((rankedSeeds_perm config store target signal).subset hseed)
    exact hrecent tx htx
  refine TryDraw.failsOnly_bind (TryDraw.failsOnly_draw _)
    (TryDraw.always_draw (always_selectParents _ _)) fun parents hparents => ?_
  refine TryDraw.failsOnly_bind (TryDraw.failsOnly_draw _)
    (TryDraw.always_draw (always_offspring parents config.seedsSize)) fun children hchildren => ?_
  have hlength : ∀ child ∈ children, child.length = target.inputs.length := fun child hchild =>
    (hchildren.2.1 child hchild).length_eq fun seed hseed => hranked seed (hparents.2 seed hseed)
  refine TryDraw.failsOnly_bind
    (TryDraw.failsOnly_ofExcept fun _ h => isSeedArity_of_decodeChildren hlength h)
    (TryDraw.always_true _) fun batch _ => ?_
  exact TryDraw.failsOnly_bind (failsOnly_fillUp _ _ _) (TryDraw.always_true _)
    fun filled _ => TryDraw.failsOnly_pure _

/-! #### Resolving functions -/

theorem isSeedArity_of_parse {document : String} {e : Failure}
    (h : AbiDefinition.parse document = .error e) : e.isSeedArity = false := by
  have added : ∀ (entries : List AbiEntry) (d : AbiDefinition),
      entries.foldlM AbiDefinition.addEntry d = .error e → e.isSeedArity = false := by
    intro entries
    induction entries with
    | nil => exact fun d h => by cases h
    | cons entry entries ih =>
      intro d h
      rw [List.foldlM_cons] at h
      rcases bind_eq_error_iff.mp h with h | ⟨d', -, h⟩
      · unfold AbiDefinition.addEntry at h
        split at h
        · cases h
        · split at h
          · split at h <;> cases h
            rfl
          · cases h
      · exact ih d' h
  unfold AbiDefinition.parse at h
  split at h
  · exact added _ _ h
  · cases h
    rfl

theorem isSeedArity_of_orMissing {α : Type} {what : MissingRecord} {r : Option α} {e : Failure}
    (h : orMissing what r = .error e) : e.isSeedArity = false := by
  cases r <;> cases h
  rfl

theorem isSeedArity_of_resolve {store : Store} {function : FunctionId} {e : Failure}
    (h : store.resolve function = .error e) : e.isSeedArity = false := by
  rcases bind_eq_error_iff.mp h with h | ⟨f, -, h⟩
  · exact isSeedArity_of_orMissing h
  rcases bind_eq_error_iff.mp h with h | ⟨k, -, h⟩
  · exact isSeedArity_of_orMissing h
  rcases bind_eq_error_iff.mp h with h | ⟨inputs, -, h⟩
  · rcases bind_eq_error_iff.mp h with h | ⟨definition, -, h⟩
    · exact isSeedArity_of_parse h
    · split at h
      · cases h
      · rcases bind_eq_error_iff.mp h with h | ⟨method, -, h⟩
        · unfold AbiDefinition.method at h
          split at h <;> cases h
          rfl
        · cases h
  · cases h

/-- Where the recent inputs of a function have one field for each parameter, no batch for it fails
over the number of fields. -/
theorem failsOnly_requestSeeds {config : FuzzingConfig} {store : Store} {function : FunctionId}
    (hrecent : ∀ target, store.resolve function = .ok target →
      ∀ tx ∈ store.recentDone function (2 * config.seedsSize),
        tx.inputs.length = target.inputs.length) (signal : Signal) :
    (requestSeeds config store function signal).FailsOnly (·.isSeedArity = false) := by
  refine TryDraw.failsOnly_bind (TryDraw.failsOnly_ofExcept fun _ h => isSeedArity_of_resolve h)
    (TryDraw.always_ofExcept fun _ h => h) fun target htarget => ?_
  obtain rfl := function_of_resolve htarget
  exact failsOnly_seedBatch (hrecent target htarget)

end ContractFuzz
