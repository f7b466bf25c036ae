import ContractFuzz.Proofs.Lookup
import ContractFuzz.Proofs.Numeral
import ContractFuzz.Proofs.Outcome
import Mathlib.Data.List.Forall2
import Mathlib.Data.List.Induction
import Mathlib.Data.List.Nodup
/-!
# Functions that share a name

A definition knows every function under a name of its own: the first of its declared name and that
name followed by `0`, `1`, … that no function before it is known under. There are more such names
than functions, so the search for one ends. Hence no function of a document is lost.

## Main definitions

* `AbiDefinition.candidate` : the names that are tried for a function.
* `AbiDefinition.Settles` : the search for a free name, try after try.
* `AbiDefinition.Declares` : a definition that knows every function of some entries.

## Main results

* `AbiDefinition.settles_freeName` : the search ends with the first free name.
* `AbiDefinition.Declares.addEntry` : a further entry is taken up.
* `AbiDefinition.ofEntries_exact` : what becomes of any entries.
-/

namespace ContractFuzz

/-- The entries that describe functions. -/
def AbiEntry.functionsOf (entries : List AbiEntry) : List AbiEntry :=
  entries.filter (·.kind = "function")

/-- The entries that describe constructors. -/
def AbiEntry.constructorsOf (entries : List AbiEntry) : List AbiEntry :=
  entries.filter (·.kind = "constructor")

/-- What an entry describes, under a name. -/
def AbiEntry.method (e : AbiEntry) (name : String) : AbiMethod := ⟨name, e.inputs, e.isPayable⟩

namespace AbiDefinition

variable {taken : SortedMap String AbiMethod} {name : String}

/-! ### Names -/

/-- The names that are tried for a function: its own, and then the numbered ones. -/
def candidate (name : String) : Nat → String
  | 0 => name
  | k + 1 => numbered name k

theorem numbered_injective (name : String) : Function.Injective (numbered name) := by
  intro j k h
  have htexts : Text.decimal j = Text.decimal k := by
    have h := congrArg String.toList h
    simp only [numbered, String.toList_append, String.toList_ofList] at h
    exact List.append_cancel_left h
  have hread := congrArg (Text.readDigits 10) htexts
  rw [Text.readDigits_decimal, Text.readDigits_decimal] at hread
  exact Option.some.inj hread

theorem numbered_ne (name : String) (k : Nat) : numbered name k ≠ name := by
  intro h
  have h := congrArg String.toList h
  rw [numbered, String.toList_append, String.toList_ofList] at h
  exact Nat.toDigits_ne_nil (List.append_right_eq_self.mp h)

theorem candidate_injective (name : String) : Function.Injective (candidate name) := by
  intro j k h
  cases j with
  | zero =>
    cases k with
    | zero => rfl
    | succ k => exact absurd h.symm (numbered_ne name k)
  | succ j =>
    cases k with
    | zero => exact absurd h (numbered_ne name j)
    | succ k => exact congrArg Nat.succ (numbered_injective name h)

/-- Not all of more candidates than there are names taken are taken. -/
theorem exists_candidate_free (taken : SortedMap String AbiMethod) (name : String) :
    ∃ k ≤ taken.size, ¬ taken.contains (candidate name k) := by
  by_contra! hall
  have hsub : (List.range (taken.size + 1)).map (candidate name) ⊆ taken.keys := by
    intro n hn
    obtain ⟨k, hk, rfl⟩ := List.mem_map.mp hn
    have hle : k ≤ taken.size := Nat.le_of_lt_succ (List.mem_range.mp hk)
    exact SortedMap.mem_keys_iff.mpr (hall k hle)
  have hdistinct := (@List.nodup_range (taken.size + 1)).map (candidate_injective name)
  have hle := List.Nodup.length_le_of_subset hdistinct hsub
  rw [List.length_map, List.length_range, SortedMap.keys, List.length_map] at hle
  exact Nat.not_succ_le_self _ hle

/-- A name is the first of the candidates that is not among the names in use. -/
def FirstFree (used : String → Prop) (name result : String) : Prop :=
  ∃ k, result = candidate name k ∧ ¬ used (candidate name k) ∧ ∀ j < k, used (candidate name j)

/-- The search for a free name: a candidate that is not taken is the result, and after one that is
taken comes the next one. -/
inductive Settles (taken : SortedMap String AbiMethod) (name : String) : Nat → String → Prop
  | free {k : Nat} (h : ¬ taken.contains (candidate name k)) :
      Settles taken name k (candidate name k)
  | next {k : Nat} {result : String} (h : taken.contains (candidate name k))
      (rest : Settles taken name (k + 1) result) : Settles taken name k result

/-- With enough tries for one free candidate, the numbered names are searched to their end. -/
theorem settles_nextName {tries number : Nat}
    (h : ∃ k ≤ number + tries + 1, number < k ∧ ¬ taken.contains (candidate name k)) :
    Settles taken name (number + 1) (nextName taken name tries number) := by
  induction tries generalizing number with
  | zero =>
    obtain ⟨k, hle, hlt, hfree⟩ := h
    obtain rfl : k = number + 1 := by omega
    exact .free hfree
  | succ tries ih =>
    rw [nextName]
    split
    · next htaken =>
      refine .next htaken (ih ?_)
      obtain ⟨k, hle, hlt, hfree⟩ := h
      have hne : k ≠ number + 1 := by
        rintro rfl
        exact hfree htaken
      exact ⟨k, by omega, by omega, hfree⟩
    · next hfree => exact .free hfree

/-- The search for a free name ends. -/
theorem settles_freeName (taken : SortedMap String AbiMethod) (name : String) :
    Settles taken name 0 (freeName taken name) := by
  unfold freeName
  split
  · next htaken =>
    refine .next htaken (settles_nextName ?_)
    obtain ⟨k, hle, hfree⟩ := exists_candidate_free taken name
    have hpos : 0 < k := by
      refine Nat.pos_of_ne_zero ?_
      rintro rfl
      exact hfree htaken
    exact ⟨k, by omega, hpos, hfree⟩
  · next hfree => exact .free hfree

/-- A search that ends has passed over names that are taken alone. -/
theorem Settles.firstFree {start : Nat} {result : String} (h : Settles taken name start result) :
    ∃ k ≥ start, result = candidate name k ∧ ¬ taken.contains (candidate name k) ∧
      ∀ j, start ≤ j → j < k → taken.contains (candidate name j) := by
  induction h with
  | @free k h => exact ⟨k, Nat.le_refl k, rfl, h, fun j hle hlt => absurd hle (by omega)⟩
  | @next start result h _ ih =>
    obtain ⟨k, hge, hresult, hfree, htaken⟩ := ih
    refine ⟨k, by omega, hresult, hfree, fun j hle hlt => ?_⟩
    rcases Nat.eq_or_lt_of_le hle with rfl | hlt'
    · exact h
    · exact htaken j hlt' hlt

theorem firstFree_freeName (taken : SortedMap String AbiMethod) (name : String) :
    FirstFree (fun n => taken.contains n) name (freeName taken name) := by
  obtain ⟨k, -, hresult, hfree, htaken⟩ := (settles_freeName taken name).firstFree
  exact ⟨k, hresult, hfree, fun j hlt => htaken j (Nat.zero_le j) hlt⟩

namespace FirstFree

variable {used : String → Prop} {result : String}

theorem congr {used' : String → Prop} (h : FirstFree used name result)
    (same : ∀ n, used n ↔ used' n) : FirstFree used' name result := by
  obtain rfl : used = used' := funext fun n => propext (same n)
  exact h

theorem not_used (h : FirstFree used name result) : ¬ used result := by
  obtain ⟨k, rfl, hfree, -⟩ := h
  exact hfree

/-- The first free name is the declared one when that is free. -/
theorem eq_name_iff (h : FirstFree used name result) : result = name ↔ ¬ used name := by
  obtain ⟨k, rfl, hfree, hused⟩ := h
  constructor
  · intro heq
    rwa [heq] at hfree
  · intro hname
    rcases Nat.eq_zero_or_pos k with rfl | hpos
    · rfl
    · exact absurd (hused 0 hpos) hname

/-- The first free name is the declared one, or a number follows it. -/
theorem name_or_numbered (h : FirstFree used name result) :
    result = name ∨ ∃ k, result = numbered name k := by
  obtain ⟨k, rfl, -⟩ := h
  cases k with
  | zero => exact .inl rfl
  | succ k => exact .inr ⟨k, rfl⟩

end FirstFree

/-! ### Definitions -/

/-- A definition knows all functions of some entries: for every function entry it has a method, in
the order of the entries, with the parameters of the entry and under the first of its names that no
method before it has; of the constructor entries it has the last one. -/
structure Declares (entries : List AbiEntry) (d : AbiDefinition) (methods : List AbiMethod) :
    Prop where
  /-- A method describes what its entry describes. -/
  describes : List.Forall₂ (fun e m => m = e.method m.name) (AbiEntry.functionsOf entries) methods
  /-- A method has the first name that no method before it has. -/
  named : ∀ i e m, (AbiEntry.functionsOf entries)[i]? = some e → methods[i]? = some m →
    FirstFree (· ∈ (methods.take i).map (·.name)) e.name m.name
  /-- No two methods have the same name. -/
  distinct : (methods.map (·.name)).Nodup
  /-- The definition knows the methods, each under its name. -/
  known : ∀ n m, d.methods.get? n = some m ↔ m ∈ methods ∧ m.name = n
  /-- The last constructor counts. -/
  constructor_eq : d.constructor? = (AbiEntry.constructorsOf entries).getLast?.map (·.method "")

namespace Declares

variable {entries : List AbiEntry} {d : AbiDefinition} {methods : List AbiMethod} {e : AbiEntry}

theorem empty : Declares [] .empty [] where
  describes := .nil
  named := fun i e m he => by simp [AbiEntry.functionsOf] at he
  distinct := .nil
  known := fun n m => by simp [AbiDefinition.empty]
  constructor_eq := rfl

theorem contains_iff (h : Declares entries d methods) {n : String} :
    d.methods.contains n = true ↔ n ∈ methods.map (·.name) := by
  rw [SortedMap.contains_iff, List.mem_map]
  exact exists_congr fun m => h.known n m

/-- A further constructor takes the place of the one before. -/
theorem addConstructor (h : Declares entries d methods) (kind : e.kind = "constructor") :
    Declares (entries ++ [e]) { d with constructor? := some (e.method "") } methods := by
  have hfunctions : AbiEntry.functionsOf (entries ++ [e]) = AbiEntry.functionsOf entries := by
    simp [AbiEntry.functionsOf, kind]
  refine ⟨hfunctions ▸ h.describes, hfunctions ▸ h.named, h.distinct, h.known, ?_⟩
  simp [AbiEntry.constructorsOf, kind]

/-- A further function is known under the first free name, and those before it as they were. -/
theorem addFunction (h : Declares entries d methods) (kind : e.kind = "function") :
    Declares (entries ++ [e])
      { d with methods :=
          d.methods.insert (freeName d.methods e.name) (e.method (freeName d.methods e.name)) }
      (methods ++ [e.method (freeName d.methods e.name)]) := by
  have hfunctions :
      AbiEntry.functionsOf (entries ++ [e]) = AbiEntry.functionsOf entries ++ [e] := by
    simp [AbiEntry.functionsOf, kind]
  have hconstructors :
      AbiEntry.constructorsOf (entries ++ [e]) = AbiEntry.constructorsOf entries := by
    simp [AbiEntry.constructorsOf, kind]
  have hlength := h.describes.length_eq
  have hfree : FirstFree (· ∈ methods.map (·.name)) e.name (freeName d.methods e.name) :=
    (firstFree_freeName d.methods e.name).congr fun n => h.contains_iff
  generalize freeName d.methods e.name = name at hfree ⊢
  exact {
    describes := by
      rw [hfunctions]
      exact List.rel_append h.describes (.cons rfl .nil)
    named := fun i e' m' he hm => by
      rw [hfunctions] at he
      -- The new method is the last one, and all others stand where they stood.
      rcases Nat.lt_or_ge i methods.length with hlt | hge
      · rw [List.getElem?_append_left (hlength ▸ hlt)] at he
        rw [List.getElem?_append_left hlt] at hm
        rw [List.take_append_of_le_length (Nat.le_of_lt hlt)]
        exact h.named i e' m' he hm
      · obtain rfl : i = methods.length := by
          have hi := (List.getElem?_eq_some_iff.mp hm).1
          rw [List.length_append, List.length_singleton] at hi
          omega
        rw [← hlength, List.getElem?_concat_length] at he
        rw [List.getElem?_concat_length] at hm
        obtain rfl := Option.some.inj he
        obtain rfl := Option.some.inj hm
        rwa [List.take_left]
    distinct := by
      rw [List.map_append, List.nodup_append]
      refine ⟨h.distinct, List.nodup_singleton _, ?_⟩
      rintro n hn n' hn' rfl
      obtain rfl := List.mem_singleton.mp hn'
      exact hfree.not_used hn
    known := fun n m => by
      rw [SortedMap.get?_insert_eq_some_iff, h.known n m, List.mem_append, List.mem_singleton]
      constructor
      · rintro (⟨rfl, rfl⟩ | ⟨-, hm, hn⟩)
        · exact ⟨.inr rfl, rfl⟩
        · exact ⟨.inl hm, hn⟩
      · rintro ⟨hm | rfl, rfl⟩
        · refine .inr ⟨?_, hm, rfl⟩
          rintro rfl
          exact hfree.not_used (List.mem_map_of_mem hm)
        · exact .inl ⟨rfl, rfl⟩
    constructor_eq := hconstructors ▸ h.constructor_eq }

/-- An entry of any other kind changes nothing. -/
theorem addOther (h : Declares entries d methods) (notConstructor : e.kind ≠ "constructor")
    (notFunction : e.kind ≠ "function") : Declares (entries ++ [e]) d methods := by
  have hfunctions : AbiEntry.functionsOf (entries ++ [e]) = AbiEntry.functionsOf entries := by
    simp [AbiEntry.functionsOf, notFunction]
  have hconstructors :
      AbiEntry.constructorsOf (entries ++ [e]) = AbiEntry.constructorsOf entries := by
    simp [AbiEntry.constructorsOf, notConstructor]
  exact ⟨hfunctions ▸ h.describes, hfunctions ▸ h.named, h.distinct, h.known,
    hconstructors ▸ h.constructor_eq⟩

/-- Any further entry is taken up, unless it is a function without a name. -/
theorem addEntry (h : Declares entries d methods) (e : AbiEntry) :
    (e.kind = "function" ∧ e.name = "" ∧
      d.addEntry e = .error (.malformedAbi .unnamedFunction)) ∨
    (¬ (e.kind = "function" ∧ e.name = "") ∧
      ∃ d' methods', d.addEntry e = .ok d' ∧ Declares (entries ++ [e]) d' methods') := by
  unfold AbiDefinition.addEntry
  split
  · next hkind => exact .inr ⟨by simp [hkind], _, _, rfl, h.addConstructor hkind⟩
  · next hconstructor =>
    split
    · next hkind =>
      split
      · next hname => exact .inl ⟨hkind, hname, rfl⟩
      · next hname => exact .inr ⟨fun h => hname h.2, _, _, rfl, h.addFunction hkind⟩
    · next hkind => exact .inr ⟨fun h => hkind h.1, _, _, rfl, h.addOther hconstructor hkind⟩

/-- The methods of a definition are those of the entries, in the order of their names. -/
theorem perm_values (h : Declares entries d methods) : methods.Perm d.methods.values := by
  have hvalues : d.methods.values.Nodup := by
    refine List.Nodup.of_map (·.name) ?_
    have hkeys : d.methods.values.map (·.name) = d.methods.keys := by
      rw [SortedMap.values, SortedMap.keys, List.map_map]
      refine List.map_congr_left fun entry he => ?_
      exact ((h.known entry.1 entry.2).mp (SortedMap.get?_eq_some_iff.mpr he)).2
    rw [hkeys]
    exact d.methods.nodup_keys
  refine (List.perm_ext_iff_of_nodup h.distinct.of_map hvalues).mpr fun m => ?_
  rw [SortedMap.mem_values_iff]
  constructor
  · exact fun hm => ⟨m.name, (h.known m.name m).mpr ⟨hm, rfl⟩⟩
  · rintro ⟨n, hn⟩
    exact ((h.known n m).mp hn).1

end Declares

/-! ### Documents -/

theorem ofEntries_concat (entries : List AbiEntry) (e : AbiEntry) :
    ofEntries (entries ++ [e]) = ofEntries entries >>= (·.addEntry e) := by
  rw [ofEntries, ofEntries, List.foldlM_append]
  exact bind_congr fun d => bind_pure (d.addEntry e)

/-- Any entries are taken up one after the other, unless one is a function without a name. -/
theorem exists_declares (entries : List AbiEntry) :
    ((∃ e ∈ AbiEntry.functionsOf entries, e.name = "") ∧
      ofEntries entries = .error (.malformedAbi .unnamedFunction)) ∨
    ((∀ e ∈ AbiEntry.functionsOf entries, e.name ≠ "") ∧
      ∃ d methods, ofEntries entries = .ok d ∧ Declares entries d methods) := by
  induction entries using List.reverseRecOn with
  | nil => exact .inr ⟨by simp [AbiEntry.functionsOf], _, _, rfl, .empty⟩
  | append_singleton entries e ih =>
    have hfunctions : AbiEntry.functionsOf (entries ++ [e]) =
        AbiEntry.functionsOf entries ++ AbiEntry.functionsOf [e] := List.filter_append _ _
    rw [ofEntries_concat, hfunctions]
    rcases ih with ⟨⟨e', he', hname⟩, herror⟩ | ⟨hnames, d, methods, hd, hdeclares⟩
    · rw [herror]
      exact .inl ⟨⟨e', List.mem_append_left _ he', hname⟩, rfl⟩
    · rw [hd]
      rcases hdeclares.addEntry e with ⟨hkind, hname, herror⟩ | ⟨hother, d', methods', hd', h'⟩
      · refine .inl ⟨⟨e, List.mem_append_right _ ?_, hname⟩, herror⟩
        simp [AbiEntry.functionsOf, hkind]
      · refine .inr ⟨fun e' he' => ?_, d', methods', hd', h'⟩
        rcases List.mem_append.mp he' with he' | he'
        · exact hnames e' he'
        · obtain ⟨hmem, hkind⟩ := List.mem_filter.mp he'
          obtain rfl := List.mem_singleton.mp hmem
          exact fun hname => hother ⟨of_decide_eq_true hkind, hname⟩

/-- A definition finds each of its methods under the name of that method. -/
theorem method_of_mem_values {document : String} {d : AbiDefinition} {m : AbiMethod}
    (h : parse document = .ok d) (hm : m ∈ d.methods.values) : d.method m.name = .ok m := by
  unfold parse at h
  split at h
  · next entries hread =>
    rcases exists_declares entries with ⟨-, herror⟩ | ⟨-, d', methods, hd', hdeclares⟩
    · rw [h] at herror
      cases herror
    · obtain rfl := Except.ok.inj (h.symm.trans hd')
      obtain ⟨n, hn⟩ := SortedMap.mem_values_iff.mp hm
      obtain ⟨-, rfl⟩ := (hdeclares.known n m).mp hn
      rw [method, hn]
  · cases h

/-- Entries that describe neither a function nor a constructor have no effect. -/
theorem ofEntries_filter (entries : List AbiEntry) :
    ofEntries (entries.filter fun e => e.kind = "constructor" ∨ e.kind = "function") =
      ofEntries entries := by
  induction entries using List.reverseRecOn with
  | nil => rfl
  | append_singleton entries e ih =>
    rw [ofEntries_concat, List.filter_append, ← ih]
    by_cases hkind : e.kind = "constructor" ∨ e.kind = "function"
    · rw [List.filter_cons_of_pos (by simpa using hkind), List.filter_nil, ofEntries_concat]
    · have hskip : ∀ d : AbiDefinition, d.addEntry e = .ok d := by
        intro d
        rw [not_or] at hkind
        rw [addEntry, if_neg hkind.1, if_neg hkind.2]
      rw [List.filter_cons_of_neg (by simpa using hkind), List.filter_nil, List.append_nil]
      simp only [hskip]
      exact (bind_pure _).symm

/-- What becomes of the entries of a document. The search for a name ends for every entry. There is
no definition exactly when a function has no name. Otherwise the definition has one method for each
function, in the order of the entries, that keeps its parameters and whether it accepts payments;
it knows every method under its name and no two under the same; a method is called like its entry,
or a number follows that name, and it is called like its entry exactly when no method of an entry
before it is. The constructor is that of the last entry for one. Any other entry has no effect. -/
theorem ofEntries_exact (entries : List AbiEntry) :
    (∀ document, AbiEntry.readAll? document = some entries →
      parse document = ofEntries entries) ∧
    (∀ taken name, Settles taken name 0 (freeName taken name)) ∧
    ofEntries (entries.filter fun e => e.kind = "constructor" ∨ e.kind = "function") =
      ofEntries entries ∧
    (((∃ e ∈ AbiEntry.functionsOf entries, e.name = "") ∧
        ofEntries entries = .error (.malformedAbi .unnamedFunction)) ∨
      ((∀ e ∈ AbiEntry.functionsOf entries, e.name ≠ "") ∧
        ∃ d methods, ofEntries entries = .ok d ∧
          d.methods.size = (AbiEntry.functionsOf entries).length ∧
          methods.Perm d.methods.values ∧
          List.Forall₂ (fun e m => m.inputs = e.inputs ∧ m.payable = e.isPayable ∧
            (m.name = e.name ∨ ∃ k, m.name = numbered e.name k))
            (AbiEntry.functionsOf entries) methods ∧
          (∀ m ∈ methods, d.method m.name = .ok m) ∧
          (methods.map (·.name)).Nodup ∧
          (∀ i e m, (AbiEntry.functionsOf entries)[i]? = some e → methods[i]? = some m →
            (m.name = e.name ↔ ∀ m' ∈ methods.take i, m'.name ≠ e.name)) ∧
          d.constructor? = (AbiEntry.constructorsOf entries).getLast?.map (·.method ""))) := by
  refine ⟨fun document h => by rw [parse, h], settles_freeName, ofEntries_filter entries, ?_⟩
  refine (exists_declares entries).imp_right fun ⟨hnames, d, methods, hd, h⟩ => ?_
  have hsize : d.methods.size = (AbiEntry.functionsOf entries).length := by
    rw [h.describes.length_eq, h.perm_values.length_eq, SortedMap.values, List.length_map,
      SortedMap.size]
  have hmethod : ∀ m ∈ methods, d.method m.name = .ok m := by
    intro m hm
    rw [method, (h.known m.name m).mpr ⟨hm, rfl⟩]
  refine ⟨hnames, d, methods, hd, hsize, h.perm_values, ?_, hmethod, h.distinct, ?_,
    h.constructor_eq⟩
  · refine List.forall₂_iff_get.mpr ⟨h.describes.length_eq, fun i hi hi' => ?_⟩
    have hdescribes := h.describes.get hi hi'
    have hnamed := h.named i _ _ (List.getElem?_eq_getElem hi) (List.getElem?_eq_getElem hi')
    exact ⟨congrArg (·.inputs) hdescribes, congrArg (·.payable) hdescribes,
      hnamed.name_or_numbered⟩
  · intro i e m he hm
    rw [(h.named i e m he hm).eq_name_iff, List.mem_map]
    simp only [not_exists, not_and]

-- A declared name may look like one with a number, and is passed over then.
example :
    ((ofEntries (["f", "f0", "f", "f"].map fun name => ⟨"function", name, [], none, none⟩)).map
      (·.methods.keys)).toOption = some ["f", "f0", "f1", "f2"] := by
  decide +kernel

end AbiDefinition

end ContractFuzz
