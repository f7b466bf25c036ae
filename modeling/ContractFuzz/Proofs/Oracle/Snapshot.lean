import ContractFuzz.Oracle
import ContractFuzz.Proofs.Text.Case
/-!
# What a snapshot shows

A snapshot shows the observations that are named by some event, in whatever spelling. So it does
not depend on the order of events, on their repetition, or on names that are not known.

## Main definitions

* `Respelled` : two names with the same letters and digits.
* `Snapshot.has`, `Snapshot.or` : one observation of a snapshot, and all of two snapshots.
* `Observation.Named` : a name stands for an observation.

## Main results

* `Observation.normalize_eq_iff` : what names have in common when they are normalized alike.
* `Snapshot.has_ofEvents` : the observations of a list of events.
* `Snapshot.ofEvents_append`, `Snapshot.ofEvents_eq_iff` : snapshots of lists taken together, and of
  lists that name the same observations.
-/

namespace ContractFuzz

/-! ### Spellings -/

/-- Two names with the same letters and digits in the same order, apart from the case of letters.
All that stands between them may differ. -/
inductive Respelled : List Char → List Char → Prop
  | nil : Respelled [] []
  | letter {c d : Char} {a b : List Char} (same : SameLetter c d) (rest : Respelled a b) :
      Respelled (c :: a) (d :: b)
  | left {c : Char} {a b : List Char} (mark : c.isAlphanum = false) (rest : Respelled a b) :
      Respelled (c :: a) b
  | right {d : Char} {a b : List Char} (mark : d.isAlphanum = false) (rest : Respelled a b) :
      Respelled a (d :: b)

namespace Observation

/-- The letters and digits of a name, in lower case. -/
private def letters (cs : List Char) : List Char := (cs.filter Char.isAlphanum).map Char.toLower

private theorem letters_mark {c : Char} {cs : List Char} (h : c.isAlphanum = false) :
    letters (c :: cs) = letters cs := by
  rw [letters, List.filter_cons_of_neg (ne_true_of_eq_false h), letters]

private theorem letters_letter {c : Char} {cs : List Char} (h : c.isAlphanum = true) :
    letters (c :: cs) = c.toLower :: letters cs := by
  rw [letters, List.filter_cons_of_pos h, List.map_cons, letters]

private theorem letters_eq_of_respelled {a b : List Char} (h : Respelled a b) :
    letters a = letters b := by
  induction h with
  | nil => rfl
  | @letter c d _ _ same _ ih =>
    by_cases hc : c.isAlphanum = true
    · rw [letters_letter hc, letters_letter (same.isAlphanum_eq ▸ hc), toLower_eq_iff.mpr same, ih]
    · rw [Bool.not_eq_true] at hc
      rw [letters_mark hc, letters_mark (same.isAlphanum_eq ▸ hc), ih]
  | left mark _ ih => rw [letters_mark mark, ih]
  | right mark _ ih => rw [letters_mark mark, ih]

private theorem respelled_of_letters_eq {a b : List Char} (h : letters a = letters b) :
    Respelled a b := by
  induction a generalizing b with
  | nil =>
    induction b with
    | nil => exact .nil
    | cons d b ih =>
      by_cases hd : d.isAlphanum = true
      · rw [letters_letter hd] at h
        cases h
      · rw [Bool.not_eq_true] at hd
        rw [letters_mark hd] at h
        exact .right hd (ih h)
  | cons c a iha =>
    by_cases hc : c.isAlphanum = true
    · rw [letters_letter hc] at h
      -- The letter is found behind what does not count in the other name.
      induction b with
      | nil => cases h
      | cons d b ihb =>
        by_cases hd : d.isAlphanum = true
        · rw [letters_letter hd, List.cons.injEq] at h
          exact .letter (toLower_eq_iff.mp h.1) (iha h.2)
        · rw [Bool.not_eq_true] at hd
          rw [letters_mark hd] at h
          exact .right hd (ihb h)
    · rw [Bool.not_eq_true] at hc
      exact .left hc (iha (letters_mark hc ▸ h))

/-- Names are normalized alike when they have the same letters and digits. -/
theorem normalize_eq_iff {a b : String} :
    normalize a = normalize b ↔ Respelled a.toList b.toList := by
  rw [normalize, normalize, String.ofList_inj]
  exact ⟨respelled_of_letters_eq, letters_eq_of_respelled⟩

/-- A name stands for an observation, in whatever spelling. -/
def Named (o : Observation) (name : String) : Prop :=
  ∃ known, (known, o) ∈ table ∧ Respelled name.toList known.toList

theorem ofName?_eq_some_iff {name : String} {o : Observation} :
    ofName? name = some o ↔ o.Named name := by
  have normal : ∀ e ∈ table, normalize e.1 = e.1 := by decide +kernel
  have known : ∀ e ∈ table, table.lookup e.1 = some e.2 := by decide +kernel
  rw [ofName?]
  constructor
  · intro h
    obtain ⟨before, after, htable, -⟩ := List.lookup_eq_some_iff.mp h
    have hmem : (normalize name, o) ∈ table := by
      rw [htable]
      exact List.mem_append_right before List.mem_cons_self
    exact ⟨_, hmem, normalize_eq_iff.mp (normal _ hmem).symm⟩
  · rintro ⟨key, hkey, hname⟩
    rw [normalize_eq_iff.mpr hname, normal _ hkey]
    exact known _ hkey

end Observation

/-! ### Snapshots -/

namespace Snapshot

/-- Whether an observation was made. -/
def has (s : Snapshot) : Observation → Bool
  | .etherTransfer => s.etherTransfer
  | .sendOp => s.sendOp
  | .storageChanged => s.storageChanged
  | .repeatedCall => s.repeatedCall
  | .nestedCallFailed => s.nestedCallFailed
  | .rootCallFailed => s.rootCallFailed
  | .outOfGas => s.outOfGas
  | .timestamp => s.timestamp
  | .blockNumber => s.blockNumber
  | .blockHash => s.blockHash
  | .delegateCall => s.delegateCall
  | .delegateInputControlled => s.delegateInputControlled

/-- What was observed in either of two snapshots. -/
def or (s t : Snapshot) : Snapshot where
  etherTransfer := s.etherTransfer || t.etherTransfer
  sendOp := s.sendOp || t.sendOp
  storageChanged := s.storageChanged || t.storageChanged
  repeatedCall := s.repeatedCall || t.repeatedCall
  nestedCallFailed := s.nestedCallFailed || t.nestedCallFailed
  rootCallFailed := s.rootCallFailed || t.rootCallFailed
  outOfGas := s.outOfGas || t.outOfGas
  timestamp := s.timestamp || t.timestamp
  blockNumber := s.blockNumber || t.blockNumber
  blockHash := s.blockHash || t.blockHash
  delegateCall := s.delegateCall || t.delegateCall
  delegateInputControlled := s.delegateInputControlled || t.delegateInputControlled

@[simp] theorem has_empty (o : Observation) : empty.has o = false := by
  cases o <;> rfl

@[simp] theorem has_or (s t : Snapshot) (o : Observation) :
    (s.or t).has o = (s.has o || t.has o) := by
  cases o <;> rfl

@[simp] theorem has_add (s : Snapshot) (p o : Observation) :
    (s.add p).has o = if p = o then true else s.has o := by
  cases p <;> cases o <;> rfl

/-- Snapshots with the same observations are equal. -/
theorem ext_has {s t : Snapshot} (h : ∀ o, s.has o = t.has o) : s = t := by
  cases s
  cases t
  rw [mk.injEq]
  exact ⟨h .etherTransfer, h .sendOp, h .storageChanged, h .repeatedCall, h .nestedCallFailed,
    h .rootCallFailed, h .outOfGas, h .timestamp, h .blockNumber, h .blockHash, h .delegateCall,
    h .delegateInputControlled⟩

theorem has_foldl_add {l : List Observation} {s : Snapshot} {o : Observation} :
    (l.foldl add s).has o = true ↔ s.has o = true ∨ o ∈ l := by
  induction l generalizing s with
  | nil => simp
  | cons p l ih =>
    rw [List.foldl_cons, ih, has_add, List.mem_cons]
    split
    · next h => simp [h]
    · next h => simp [Ne.symm h]

/-- The observations of a list of events are those that an event names. -/
theorem has_ofEvents {names : List String} {o : Observation} :
    (ofEvents names).has o = true ↔ ∃ name ∈ names, o.Named name := by
  rw [ofEvents, has_foldl_add, has_empty]
  simp [List.mem_filterMap, Observation.ofName?_eq_some_iff]

/-- The snapshot of two lists of events is what was observed in either of them. -/
theorem ofEvents_append (xs ys : List String) :
    ofEvents (xs ++ ys) = (ofEvents xs).or (ofEvents ys) := by
  refine ext_has fun o => ?_
  rw [Bool.eq_iff_iff, has_or, Bool.or_eq_true, has_ofEvents, has_ofEvents, has_ofEvents]
  simp only [List.mem_append, or_and_right, exists_or]

/-- Lists of events have the same snapshot if they name the same observations. -/
theorem ofEvents_eq_iff {xs ys : List String} :
    ofEvents xs = ofEvents ys ↔
      ∀ o : Observation, (∃ x ∈ xs, o.Named x) ↔ ∃ y ∈ ys, o.Named y := by
  simp only [← has_ofEvents]
  exact ⟨fun h o => by rw [h], fun h => ext_has fun o => Bool.eq_iff_iff.mpr (h o)⟩

/-- The spelling of names does not count. -/
theorem ofEvents_of_respelled {xs ys : List String}
    (h : List.Forall₂ (fun x y => Respelled x.toList y.toList) xs ys) :
    ofEvents xs = ofEvents ys := by
  have hobserved : xs.filterMap Observation.ofName? = ys.filterMap Observation.ofName? := by
    induction h with
    | nil => rfl
    | @cons x y _ _ hxy _ ih =>
      have hname : Observation.ofName? x = Observation.ofName? y := by
        rw [Observation.ofName?, Observation.ofName?, Observation.normalize_eq_iff.mpr hxy]
      rw [List.filterMap_cons, List.filterMap_cons, hname, ih]
  rw [ofEvents, ofEvents, hobserved]

/-- A name that stands for nothing does not count. -/
theorem ofEvents_of_unknown {name : String} (h : ∀ o : Observation, ¬ o.Named name)
    (xs ys : List String) : ofEvents (xs ++ name :: ys) = ofEvents (xs ++ ys) := by
  have hnone : Observation.ofName? name = none :=
    Option.eq_none_iff_forall_ne_some.mpr fun o => mt Observation.ofName?_eq_some_iff.mp (h o)
  rw [ofEvents, ofEvents, List.filterMap_append, List.filterMap_cons_none hnone,
    List.filterMap_append]

end Snapshot

end ContractFuzz
