import ContractFuzz.Proofs.Seed.OwnSignal
import ContractFuzz.Proofs.Store
/-!
# Where seeds come from

A batch begins with the children of recent inputs, in the order in which they were bred and without
those that are no values any more, and goes on with values of the corpus. With enough inputs of one
length to breed from, there are as many children as the batch is to have.

## Main definitions

* `IsChild` : the children of recent inputs.
* `IsRejected` : the children that are no values any more.
* `FromCorpus` : the values of the corpus.
* `MadeFrom` : what a batch is made of.

## Main results

* `always_offspring` : how many children there are, and of whom.
* `requestSeeds_provenance` : what a batch is made of.
-/

namespace ContractFuzz

/-! ### Children -/

/-- A child of two of the given seeds. -/
def IsChild (seeds : List Seed) (child : Seed) : Prop :=
  ∃ first ∈ seeds, ∃ second ∈ seeds, ∃ a b, crossover first second = some (a, b) ∧
    (child = a ∨ child = b)

theorem IsChild.mono {seeds seeds' : List Seed} (h : ∀ seed ∈ seeds, seed ∈ seeds') {child : Seed}
    (hchild : IsChild seeds child) : IsChild seeds' child := by
  obtain ⟨first, hfirst, second, hsecond, hboth⟩ := hchild
  exact ⟨first, h first hfirst, second, h second hsecond, hboth⟩

/-- All seeds have the same number of fields. -/
def SameArity (seeds : List Seed) : Prop := ∀ a ∈ seeds, ∀ b ∈ seeds, a.length = b.length

theorem exists_crossover {first second : Seed} (h : first.length = second.length) :
    ∃ a b, crossover first second = some (a, b) :=
  ⟨_, _, if_pos h⟩

/-- As many parents are selected as there are ranked seeds, all of them ranked seeds. -/
theorem always_selectParents (rule : SelectionRule) (ranked : List Seed) :
    (selectParents rule ranked).Always fun parents =>
      parents.length = ranked.length ∧ ∀ seed ∈ parents, seed ∈ ranked := by
  have hall : ∀ l : List Seed, (ranked = [] → l = []) →
      Draw.Always (l.filterMapM fun _ => select rule ranked) fun parents =>
        parents.length = l.length ∧ ∀ seed ∈ parents, seed ∈ ranked := by
    intro l hl
    induction l with
    | nil => exact Draw.always_pure ⟨rfl, fun _ h => absurd h List.not_mem_nil⟩
    | cons a l ih =>
      have hranked : ranked ≠ [] := fun hnil => by cases hl hnil
      rw [List.filterMapM_cons]
      refine Draw.always_bind (Q := fun chosen => ∃ seed ∈ ranked, chosen = some seed)
        (Draw.always_select (fun seed h => ⟨seed, h, rfl⟩) fun hnil => absurd hnil hranked) ?_
      rintro _ ⟨seed, hseed, rfl⟩
      refine Draw.always_bind (ih fun hnil => absurd hnil hranked) fun parents hparents => ?_
      refine Draw.always_pure ⟨congrArg (· + 1) hparents.1, fun seed' hseed' => ?_⟩
      rcases List.mem_cons.mp hseed' with rfl | hseed'
      · exact hseed
      · exact hparents.2 seed' hseed'
  exact hall ranked id

/-- What is bred are children of the parents, and with parents of one length two more with every
attempt until there are enough. -/
theorem always_breed (parents : List Seed) (size attempts : Nat) (children : List Seed) :
    (breed parents size attempts children).Always fun bred =>
      (∀ child ∈ bred, child ∈ children ∨ IsChild parents child) ∧
      (parents ≠ [] → SameArity parents →
        min size (children.length + 2 * attempts) ≤ bred.length) := by
  induction attempts generalizing children with
  | zero => exact Draw.always_pure ⟨fun _ h => .inl h, fun _ _ => Nat.min_le_right _ _⟩
  | succ attempts ih =>
    rw [breed]
    split
    · next henough =>
      exact Draw.always_pure
        ⟨fun _ h => .inl h, fun _ _ => Nat.le_trans (Nat.min_le_left _ _) henough⟩
    · have chosen : (Draw.choose parents).Always fun chosen =>
          (∀ seed, chosen = some seed → seed ∈ parents) ∧ (chosen = none → parents = []) :=
        Draw.always_choose (fun seed h => ⟨fun _ heq => Option.some.inj heq ▸ h, (nomatch ·)⟩)
          fun hnil => ⟨(fun _ => nomatch ·), fun _ => hnil⟩
      refine Draw.always_bind chosen fun first hfirst =>
        Draw.always_bind chosen fun second hsecond => ?_
      have missing : parents = [] → (pure children : Draw (List Seed)).Always fun bred =>
          (∀ child ∈ bred, child ∈ children ∨ IsChild parents child) ∧
          (parents ≠ [] → SameArity parents →
            min size (children.length + 2 * (attempts + 1)) ≤ bred.length) := fun hnil =>
        Draw.always_pure ⟨fun _ h => .inl h, fun hne => absurd hnil hne⟩
      cases first with
      | none => exact missing (hfirst.2 rfl)
      | some first =>
      cases second with
      | none => exact missing (hsecond.2 rfl)
      | some second =>
      have hfirst := hfirst.1 first rfl
      have hsecond := hsecond.1 second rfl
      dsimp only
      split
      · next a b hcrossed =>
        refine (ih (children ++ [a, b])).mono fun bred hbred => ⟨fun child hchild => ?_, ?_⟩
        · rcases hbred.1 child hchild with hold | hold
          · rcases List.mem_append.mp hold with hold | hnew
            · exact .inl hold
            · refine .inr ⟨first, hfirst, second, hsecond, a, b, hcrossed, ?_⟩
              simpa using hnew
          · exact .inr hold
        · intro hne same
          have hlength := hbred.2 hne same
          rw [List.length_append, List.length_cons, List.length_singleton] at hlength
          refine Nat.le_trans (Nat.le_of_eq ?_) hlength
          congr 1
          omega
      · next hcrossed =>
        refine (ih children).mono fun bred hbred => ⟨hbred.1, fun hne same => ?_⟩
        obtain ⟨a, b, hsome⟩ := exists_crossover (same first hfirst second hsecond)
        rw [hcrossed] at hsome
        cases hsome

/-- There are at most as many children as asked for, none of two parents or fewer, and exactly as
many as asked for of more parents of one length. -/
theorem always_offspring (parents : List Seed) (size : Nat) :
    (offspring parents size).Always fun children =>
      children.length ≤ size ∧ (∀ child ∈ children, IsChild parents child) ∧
      (parents.length ≤ 2 → children = []) ∧
      (2 < parents.length → SameArity parents → children.length = size) := by
  refine Draw.always_ite (fun hmany => ?_) fun hfew => ?_
  · refine Draw.always_bind (always_breed parents size (2 * size) []) fun bred hbred => ?_
    refine Draw.always_pure ⟨List.length_take_le size bred, fun child hchild => ?_,
      fun hfew => absurd hmany (Nat.not_lt.mpr hfew), fun _ same => ?_⟩
    · exact (hbred.1 child (List.mem_of_mem_take hchild)).resolve_left List.not_mem_nil
    · have hlength := hbred.2 (List.ne_nil_of_length_pos (Nat.lt_trans Nat.zero_lt_two hmany)) same
      rw [List.length_nil] at hlength
      rw [List.length_take]
      omega
  · exact Draw.always_pure ⟨Nat.zero_le size, fun _ h => absurd h List.not_mem_nil, fun _ => rfl,
      fun hmany => absurd hmany hfew⟩

/-! ### Values -/

/-- The child has a text that is no value of its type. -/
def IsRejected (inputs : List AbiParam) (child : Seed) : Bool :=
  match deserializeAll inputs child with
  | .error (.invalidValue _ _) => true
  | _ => false

/-- Children are decoded in their order. Those that are left out are rejected, and no others
are. -/
theorem decodeChildren_eq_ok {inputs : List AbiParam} {children : List Seed}
    {decoded : List (List Value)} (h : decodeChildren inputs children = .ok decoded) :
    List.Forall₂ (fun child values => deserializeAll inputs child = .ok values)
      (children.filter fun child => !IsRejected inputs child) decoded := by
  induction children generalizing decoded with
  | nil =>
    obtain rfl := Except.ok.inj h
    exact .nil
  | cons child rest ih =>
    unfold decodeChildren at h
    split at h
    · next values hvalues =>
      obtain ⟨others, hothers, heq⟩ := bind_eq_ok_iff.mp h
      obtain rfl := Except.ok.inj heq
      have kept : IsRejected inputs child = false := by rw [IsRejected, hvalues]
      rw [List.filter_cons_of_pos (by rw [kept]; rfl)]
      exact .cons hvalues (ih hothers)
    · next type raw hvalues =>
      have rejected : IsRejected inputs child = true := by rw [IsRejected, hvalues]
      rw [List.filter_cons_of_neg (by rw [rejected]; decide)]
      exact ih h
    · cases h

/-- A value that is read from a text of the corpus for the parameter's type. -/
def FromCorpus (corpus : SeedCorpus) (p : AbiParam) (v : Value) : Prop :=
  ∃ texts, corpus.get? p.type = some texts ∧ ∃ text ∈ texts, deserializeOne p text = .ok v

/-- A type keeps the name that the parameter declares. -/
theorem name_of_named {name : String} {type : AbiType} (h : AbiType.named name = .ok type) :
    type.name = name := by
  unfold AbiType.named at h
  split at h
  · next type' htype =>
    obtain rfl := Except.ok.inj h
    obtain ⟨kind, -, rfl⟩ := Option.map_eq_some_iff.mp htype
    rfl
  · cases h

/-- A value that was loaded is read from a text of the corpus. -/
private theorem always_loadSeed_read (corpus : SeedCorpus) (type : AbiType) :
    ((Argument.fresh type).loadSeed corpus).Always fun r => r.1 = .ok () →
      ∃ texts, corpus.get? type.name = some texts ∧
        ∃ text ∈ texts, type.deserialize text = .ok r.2.value := by
  refine Draw.always_bind
    (Q := fun chosen => ∀ text, chosen = some text → text ∈ (corpus.get? type.name).getD [])
    (Draw.always_choose (fun text h _ heq => Option.some.inj heq ▸ h) fun _ => (fun _ => nomatch ·))
    fun chosen hchosen => ?_
  cases chosen with
  | none => exact Draw.always_pure (nomatch ·)
  | some text =>
    refine Draw.always_pure ?_
    have hmem := hchosen text rfl
    unfold Argument.deserialize
    split
    · next v hread =>
      intro _
      cases htexts : corpus.get? type.name with
      | none =>
        rw [htexts] at hmem
        exact absurd hmem List.not_mem_nil
      | some texts =>
        rw [htexts] at hmem
        exact ⟨texts, rfl, text, hmem, hread⟩
    · exact (nomatch ·)

theorem always_corpusValue_fromCorpus (corpus : SeedCorpus) (p : AbiParam) :
    (corpusValue corpus p.type).Always (FromCorpus corpus p) := by
  refine TryDraw.always_bind (TryDraw.always_ofExcept fun _ h => h) fun type htype => ?_
  refine TryDraw.always_bind (TryDraw.always_draw (always_loadSeed_read corpus type))
    fun r hr => ?_
  obtain ⟨result, a⟩ := r
  refine TryDraw.always_bind (TryDraw.always_ofExcept fun _ h => h) fun _ hok => ?_
  obtain ⟨texts, htexts, text, htext, hread⟩ := hr hok
  rw [name_of_named htype] at htexts
  exact TryDraw.always_pure ⟨texts, htexts, text, htext, bind_eq_ok_iff.mpr ⟨type, htype, hread⟩⟩

/-! ### Batches -/

/-- A value that is read from some text of the parameter's type. -/
def IsRead (p : AbiParam) (v : Value) : Prop := ∃ text, deserializeOne p text = .ok v

theorem isRead_of_deserializeAll {inputs : List AbiParam} {seed : Seed} {values : List Value}
    (h : deserializeAll inputs seed = .ok values) : List.Forall₂ IsRead inputs values := by
  unfold deserializeAll at h
  split at h
  · next hlength =>
    have hread : List.Forall₂ IsRead ((inputs.zip seed).map Prod.fst) values :=
      List.forall₂_map_left_iff.mpr
        ((mapM_eq_ok_iff.mp h).imp fun pair v hone => ⟨pair.2, hone⟩)
    rwa [List.map_fst_zip (Nat.le_of_eq hlength.symm)] at hread
  · cases h

theorem FromCorpus.isRead {corpus : SeedCorpus} {p : AbiParam} {v : Value}
    (h : FromCorpus corpus p v) : IsRead p v := by
  obtain ⟨texts, -, text, -, hread⟩ := h
  exact ⟨text, hread⟩

/-- The steps of a batch: parents are selected, children are bred and decoded, and the corpus fills
up what is missing. -/
theorem seedBatch_eq_ok {config : FuzzingConfig} {store : Store} {target : FunctionTarget}
    {signal : Signal} {source : Source} {batch : List (List Value)}
    (h : ((seedBatch config store target signal).run source).1 = .ok batch) :
    let selected := selectParents config.selection (rankedSeeds config store target signal) source
    let bred := offspring selected.1 config.seedsSize selected.2
    ∃ decoded filled, decodeChildren target.inputs bred.1 = .ok decoded ∧
      ((fillUp config.seeds target.inputs (config.seedsSize - decoded.length)).run bred.2).1 =
        .ok filled ∧ batch = decoded ++ filled := by
  obtain ⟨parents, hparents, h⟩ := TryDraw.run_bind_eq_ok_iff.mp h
  obtain rfl := Except.ok.inj hparents
  obtain ⟨children, hchildren, h⟩ := TryDraw.run_bind_eq_ok_iff.mp h
  obtain rfl := Except.ok.inj hchildren
  obtain ⟨decoded, hdecoded, h⟩ := TryDraw.run_bind_eq_ok_iff.mp h
  obtain ⟨filled, hfilled, h⟩ := TryDraw.run_bind_eq_ok_iff.mp h
  exact ⟨decoded, filled, hdecoded, hfilled, (Except.ok.inj h).symm⟩

/-- A batch looks at nothing but the recent inputs of the function. -/
theorem requestSeeds_congr {config : FuzzingConfig} {store store' : Store} {function : FunctionId}
    (contracts : store'.contracts = store.contracts)
    (functions : store'.functions = store.functions)
    (recent : store'.recentDone function (2 * config.seedsSize) =
      store.recentDone function (2 * config.seedsSize)) (signal : Signal) :
    requestSeeds config store' function signal = requestSeeds config store function signal := by
  refine requestSeeds_eq_of_alike (.of_tables contracts functions) ?_
  rw [AlikeRecently, recent]
  exact List.forall₂_same.mpr fun tx _ => ⟨rfl, rfl⟩

/-- What a batch for a function is made of. -/
structure MadeFrom (config : FuzzingConfig) (inputs : List AbiParam) (seeds : List Seed)
    (batch : List (List Value)) (children : List Seed) (decoded filled : List (List Value)) :
    Prop where
  /-- Decoded children come first, then what fills up the batch. -/
  split : batch = decoded ++ filled
  /-- The batch has the configured size. -/
  size : batch.length = config.seedsSize
  /-- There are not more children than that. -/
  enough : children.length ≤ config.seedsSize
  /-- All children are children of two seeds. -/
  child : ∀ child ∈ children, IsChild seeds child
  /-- Those that are not rejected are decoded, in the order in which they were bred. -/
  decoded : List.Forall₂ (fun child values => deserializeAll inputs child = .ok values)
    (children.filter fun child => !IsRejected inputs child) decoded
  /-- The rest is filled up with values of the corpus. -/
  filled : ∀ values ∈ filled, List.Forall₂ (FromCorpus config.seeds) inputs values
  /-- Nothing is bred of two seeds or fewer. -/
  few : seeds.length ≤ 2 → children = []
  /-- Of more seeds with the same number of fields as many children are bred as there can be. -/
  many : 2 < seeds.length → SameArity seeds → children.length = config.seedsSize

namespace MadeFrom

variable {config : FuzzingConfig} {inputs : List AbiParam} {seeds children : List Seed}
  {batch decoded filled : List (List Value)}

/-- All tuples have one value for each parameter, read from a text. -/
theorem isRead (h : MadeFrom config inputs seeds batch children decoded filled) :
    ∀ values ∈ batch, List.Forall₂ IsRead inputs values := by
  intro values hvalues
  rw [h.split] at hvalues
  rcases List.mem_append.mp hvalues with hvalues | hvalues
  · obtain ⟨child, -, hchild⟩ := (exists_mem_of_forall₂ h.decoded).2 values hvalues
    exact isRead_of_deserializeAll hchild
  · exact (h.filled values hvalues).imp fun _ _ => FromCorpus.isRead

/-- Of two seeds or fewer, all values are of the corpus. -/
theorem fromCorpus (h : MadeFrom config inputs seeds batch children decoded filled)
    (few : seeds.length ≤ 2) :
    ∀ values ∈ batch, List.Forall₂ (FromCorpus config.seeds) inputs values := by
  have hdecoded := h.decoded
  rw [h.few few, List.filter_nil, List.forall₂_nil_left_iff] at hdecoded
  rw [h.split, hdecoded, List.nil_append]
  exact h.filled

/-- Of more seeds with the same number of fields, the corpus fills up exactly for the children that
are rejected. -/
theorem length_filled (h : MadeFrom config inputs seeds batch children decoded filled)
    (many : 2 < seeds.length) (same : SameArity seeds) :
    filled.length = children.countP (IsRejected inputs) := by
  have hchildren : children.length = children.countP (IsRejected inputs) +
      children.countP fun child => !IsRejected inputs child := by
    simpa using List.length_eq_countP_add_countP (IsRejected inputs) (l := children)
  have hkept := h.decoded.length_eq
  rw [← List.countP_eq_length_filter] at hkept
  have hsize := h.size
  rw [h.split, List.length_append, ← hkept, ← h.many many same, hchildren, Nat.add_comm] at hsize
  exact Nat.add_right_cancel hsize

end MadeFrom

/-- A batch is made of the children that were bred of the selected parents, and of what the corpus
filled up. -/
theorem seedBatch_madeFrom {config : FuzzingConfig} {store : Store} {target : FunctionTarget}
    {signal : Signal} {source : Source} {batch : List (List Value)}
    (h : ((seedBatch config store target signal).run source).1 = .ok batch) :
    let seeds := (store.recentDone target.function (2 * config.seedsSize)).map (·.inputs)
    let selected := selectParents config.selection (rankedSeeds config store target signal) source
    let bred := offspring selected.1 config.seedsSize selected.2
    (∀ seed ∈ selected.1, seed ∈ seeds) ∧
    ∃ decoded filled, decodeChildren target.inputs bred.1 = .ok decoded ∧
      ((fillUp config.seeds target.inputs (config.seedsSize - decoded.length)).run bred.2).1 =
        .ok filled ∧
      MadeFrom config target.inputs seeds batch bred.1 decoded filled := by
  intro seeds selected bred
  obtain ⟨decoded, filled, hdecoded, hfilled, hbatch⟩ := seedBatch_eq_ok h
  have hperm := rankedSeeds_perm config store target signal
  obtain ⟨hlength, hmem⟩ := always_selectParents config.selection
    (rankedSeeds config store target signal) source
  have hsubset : ∀ seed ∈ selected.1, seed ∈ seeds := fun seed h => hperm.subset (hmem seed h)
  obtain ⟨henough, hchild, hfew, hmany⟩ :=
    always_offspring selected.1 config.seedsSize selected.2
  have hfill := always_fillUp (always_corpusValue_fromCorpus _) _ _ _ _ hfilled
  have hread := decodeChildren_eq_ok hdecoded
  have hcount : decoded.length ≤ config.seedsSize := by
    rw [← hread.length_eq]
    exact Nat.le_trans (List.length_filter_le _ _) henough
  have hseeds : selected.1.length = seeds.length := hlength.trans hperm.length_eq
  refine ⟨hsubset, decoded, filled, hdecoded, hfilled, ?_⟩
  exact {
    split := hbatch
    size := by
      rw [hbatch, List.length_append, hfill.1]
      omega
    enough := henough
    child := fun child h => (hchild child h).mono hsubset
    decoded := hread
    filled := hfill.2
    few := fun few => hfew (hseeds ▸ few)
    many := fun many same =>
      hmany (hseeds ▸ many) fun a ha b hb => same a (hsubset a ha) b (hsubset b hb) }

/-- What a batch is made of, if there is one. The recent inputs are those of the newest finished
transactions of the function, and nothing else that is recorded takes part. First come children of
two recent inputs each, those that are bred of parents selected by rank, decoded in the order in
which they were bred, but for those with texts that are no values; then values of the corpus, drawn
with what is left of the source. Of two recent inputs or fewer there are no children; of more with
the same number of fields there are as many as the batch is to have, so that the corpus stands in
exactly for those that are left out. -/
theorem requestSeeds_provenance {config : FuzzingConfig} {store : Store} {function : FunctionId}
    {signal : Signal} {source : Source} {batch : List (List Value)}
    (h : ((requestSeeds config store function signal).run source).1 = .ok batch) :
    let recent := store.recentDone function (2 * config.seedsSize)
    let seeds := recent.map (·.inputs)
    AreNewest (2 * config.seedsSize) recent (store.finishedOf function) ∧
    (∀ store' : Store, store'.contracts = store.contracts → store'.functions = store.functions →
      store'.recentDone function (2 * config.seedsSize) = recent →
      requestSeeds config store' function signal = requestSeeds config store function signal) ∧
    ∃ target, store.resolve function = .ok target ∧ batch.length = config.seedsSize ∧
      (∀ values ∈ batch, List.Forall₂ IsRead target.inputs values) ∧
      (seeds.length ≤ 2 →
        ∀ values ∈ batch, List.Forall₂ (FromCorpus config.seeds) target.inputs values) ∧
      let selected := selectParents config.selection (rankedSeeds config store target signal) source
      let bred := offspring selected.1 config.seedsSize selected.2
      (∀ seed ∈ selected.1, seed ∈ seeds) ∧
      ∃ decoded filled, decodeChildren target.inputs bred.1 = .ok decoded ∧
        ((fillUp config.seeds target.inputs (config.seedsSize - decoded.length)).run bred.2).1 =
          .ok filled ∧
        MadeFrom config target.inputs seeds batch bred.1 decoded filled ∧
        (2 < seeds.length → SameArity seeds →
          filled.length = bred.1.countP (IsRejected target.inputs)) := by
  intro recent seeds
  refine ⟨areNewest_recentDone _ _ _, fun store' contracts functions hrecent =>
    requestSeeds_congr contracts functions hrecent signal, ?_⟩
  obtain ⟨target, htarget, h⟩ := TryDraw.run_bind_eq_ok_iff.mp h
  obtain rfl := function_of_resolve htarget
  obtain ⟨hsubset, decoded, filled, hdecoded, hfilled, made⟩ := seedBatch_madeFrom h
  exact ⟨target, htarget, made.size, made.isRead, made.fromCorpus, hsubset, decoded, filled,
    hdecoded, hfilled, made, made.length_filled⟩

/-- A store in which the function was called three times, always with the same truth value. -/
def switchHistory : Store :=
  { switchStore with
    transactions := [0, 1, 2].map fun number =>
      { Transaction.new ⟨number⟩ ⟨0⟩ ⟨0⟩ ["true"] .epoch with
        status := .done
        hash := some "h" } }

/-- A configuration with two argument lists in a batch. -/
def pairConfig : FuzzingConfig := { switchConfig with seedsSize := 2 }

/-- All recent inputs of the function are the same. -/
private theorem inputs_recentDone_switchHistory :
    (switchHistory.recentDone ⟨0⟩ (2 * pairConfig.seedsSize)).map (·.inputs) =
      List.replicate 3 ["true"] := by
  have newest := areNewest_recentDone ⟨0⟩ (2 * pairConfig.seedsSize) switchHistory
  refine List.eq_replicate_iff.mpr ⟨?_, fun seed hseed => ?_⟩
  · obtain ⟨older, -, hlength, -⟩ := newest
    rw [List.length_map, hlength]
    decide +kernel
  · obtain ⟨tx, htx, rfl⟩ := List.mem_map.mp hseed
    have hall : ∀ tx ∈ switchHistory.finishedOf ⟨0⟩, tx.inputs = ["true"] := by decide +kernel
    exact hall tx (newest.mem htx)

/-- So are all their children. -/
private theorem offspring_switchHistory {parents : List Seed} (hlength : parents.length = 3)
    (hmem : ∀ seed ∈ parents, seed = ["true"]) (source : Source) :
    (offspring parents pairConfig.seedsSize source).1 = List.replicate 2 ["true"] := by
  obtain ⟨-, hchild, -, hmany⟩ := always_offspring parents pairConfig.seedsSize source
  refine List.eq_replicate_iff.mpr ⟨hmany (by omega) fun a ha b hb => ?_, fun child h => ?_⟩
  · rw [hmem a ha, hmem b hb]
  · obtain ⟨first, hfirst, second, hsecond, a, b, hcrossed, hboth⟩ := hchild child h
    rw [hmem first hfirst, hmem second hsecond] at hcrossed
    have hsame : crossover ["true"] ["true"] = some (["true"], ["true"]) := by decide +kernel
    obtain ⟨rfl, rfl⟩ := Prod.mk.inj (Option.some.inj (hsame.symm.trans hcrossed))
    exact hboth.elim id id

/-- Whatever is drawn, there are two children and nothing of the corpus. -/
private theorem run_seedBatch_switchHistory {target : FunctionTarget}
    (hfunction : target.function = ⟨0⟩) (hinputs : target.inputs = [⟨"on", "bool"⟩])
    (source : Source) :
    ((seedBatch pairConfig switchHistory target .coverage).run source).1 =
      .ok [[.bool true], [.bool true]] := by
  have hperm := rankedSeeds_perm pairConfig switchHistory target .coverage
  rw [hfunction, inputs_recentDone_switchHistory] at hperm
  obtain ⟨hlength, hmem⟩ := always_selectParents pairConfig.selection
    (rankedSeeds pairConfig switchHistory target .coverage) source
  have hchildren := offspring_switchHistory (hlength.trans hperm.length_eq)
    fun seed h => List.eq_of_mem_replicate (hperm.subset (hmem seed h))
  have hdecoded : decodeChildren target.inputs (List.replicate 2 ["true"]) =
      .ok [[.bool true], [.bool true]] := by
    rw [hinputs]
    rfl
  refine TryDraw.run_bind_eq_ok_iff.mpr ⟨_, rfl, TryDraw.run_bind_eq_ok_iff.mpr ⟨_, rfl, ?_⟩⟩
  refine TryDraw.run_bind_eq_ok_iff.mpr ⟨_, (congrArg _ (hchildren _)).trans hdecoded, ?_⟩
  exact TryDraw.run_bind_eq_ok_iff.mpr ⟨[], rfl, rfl⟩

theorem requestSeeds_provenance_switchHistory :
    ((requestSeeds pairConfig switchHistory ⟨0⟩ .coverage).run default).1 =
      .ok [[.bool true], [.bool true]] ∧
    ∃ (target : FunctionTarget) (children : List Seed) (decoded filled : List (List Value)),
      switchHistory.resolve ⟨0⟩ = .ok target ∧ children.length = 2 ∧
      (∀ child ∈ children, IsChild (List.replicate 3 ["true"]) child) ∧
      decodeChildren target.inputs children = .ok decoded ∧
      [[.bool true], [.bool true]] = decoded ++ filled ∧
      filled.length = children.countP (IsRejected target.inputs) := by
  obtain ⟨target, htarget, hinputs⟩ := exists_of_toOption (x := switchHistory.resolve ⟨0⟩)
    (f := fun target => target.inputs) (b := [⟨"on", "bool"⟩]) (by decide +kernel)
  have hrun : ((requestSeeds pairConfig switchHistory ⟨0⟩ .coverage).run default).1 =
      .ok [[.bool true], [.bool true]] :=
    TryDraw.run_bind_eq_ok_iff.mpr ⟨target, htarget,
      run_seedBatch_switchHistory (function_of_resolve htarget) hinputs _⟩
  obtain ⟨-, -, target', htarget', -, -, -, -, decoded, filled, hdecoded, -, made, hfilled⟩ :=
    requestSeeds_provenance hrun
  rw [inputs_recentDone_switchHistory] at made hfilled
  have same : SameArity (List.replicate 3 ["true"]) := fun a ha b hb => by
    rw [List.eq_of_mem_replicate ha, List.eq_of_mem_replicate hb]
  exact ⟨hrun, target', _, decoded, filled, htarget', made.many (by decide) same, made.child,
    hdecoded, made.split, hfilled (by decide) same⟩

end ContractFuzz
