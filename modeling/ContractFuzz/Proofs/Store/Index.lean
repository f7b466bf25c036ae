import ContractFuzz.Proofs.Store
/-!
# Transactions reached through an index

A table of transactions that keeps, for every id, the place at which the transaction of that id was
added. Looking up and replacing at that place is looking up and replacing the last transaction of
the id, whatever was added and replaced before, so the table and the store never differ.

## Main definitions

* `lastPlace?` : the place of the last transaction of an id.
* `TransactionCall` : what changes the transactions of a store.
* `IndexedTable` : rows in the order of their creation, with the place of every id.
* `IndexedTable.Mirrors` : the rows are those of a store, and the index names their last places.

## Main results

* `lastWithId?_eq`, `replaceLast_eq_set` : looking up and replacing at the place.
* `Store.updateTransaction_eq_ite`, `Store.updateTransactions_eq_match` : when transactions are
  replaced.
* `IndexedTable.Mirrors.apply` : every call changes the table as it changes the store.
* `IndexedTable.Mirrors.get?_eq_some_iff` : with distinct ids, ids and places correspond.
-/

namespace ContractFuzz

/-! ### The last transaction of an id -/

/-- The place of the last transaction of that id. -/
def lastPlace? (id : TransactionId) : List Transaction → Option Nat
  | [] => none
  | tx :: txs =>
    match lastPlace? id txs with
    | some i => some (i + 1)
    | none => if tx.id = id then some 0 else none

variable {id : TransactionId} {rows before after : List Transaction} {old new : Transaction}

/-- An id that occurs has a last transaction, which stands between others. -/
theorem exists_last_of_mem (h : id ∈ rows.map (·.id)) :
    ∃ before old after, rows = before ++ old :: after ∧ old.id = id ∧ ∀ tx ∈ after, tx.id ≠ id := by
  induction rows with
  | nil => exact absurd h List.not_mem_nil
  | cons tx rows ih =>
    by_cases hrest : id ∈ rows.map (·.id)
    · obtain ⟨before, old, after, rfl, hold⟩ := ih hrest
      exact ⟨tx :: before, old, after, rfl, hold⟩
    · have hid : tx.id = id := ((List.mem_cons.mp h).resolve_right hrest).symm
      exact ⟨[], tx, rows, rfl, hid, fun tx' hmem heq => hrest (List.mem_map.mpr ⟨tx', hmem, heq⟩)⟩

theorem lastWithId?_eq_none (h : ∀ tx ∈ rows, tx.id ≠ id) : lastWithId? id rows = none := by
  induction rows with
  | nil => rfl
  | cons tx rows ih =>
    rw [lastWithId?, ih fun tx' hmem => h tx' (List.mem_cons_of_mem _ hmem)]
    exact if_neg (h tx List.mem_cons_self)

theorem lastPlace?_eq_none (h : ∀ tx ∈ rows, tx.id ≠ id) : lastPlace? id rows = none := by
  induction rows with
  | nil => rfl
  | cons tx rows ih =>
    rw [lastPlace?, ih fun tx' hmem => h tx' (List.mem_cons_of_mem _ hmem)]
    exact if_neg (h tx List.mem_cons_self)

theorem lastWithId?_append_cons (hid : old.id = id) (hafter : ∀ tx ∈ after, tx.id ≠ id) :
    lastWithId? id (before ++ old :: after) = some old := by
  induction before with
  | nil => rw [List.nil_append, lastWithId?, lastWithId?_eq_none hafter]; exact if_pos hid
  | cons tx before ih => rw [List.cons_append, lastWithId?, ih]

theorem lastPlace?_append_cons (hid : old.id = id) (hafter : ∀ tx ∈ after, tx.id ≠ id) :
    lastPlace? id (before ++ old :: after) = some before.length := by
  induction before with
  | nil => rw [List.nil_append, lastPlace?, lastPlace?_eq_none hafter]; exact if_pos hid
  | cons tx before ih => rw [List.cons_append, lastPlace?, ih, List.length_cons]

/-- A later transaction of an id hides the earlier ones. -/
theorem lastWithId?_append (id : TransactionId) (l m : List Transaction) :
    lastWithId? id (l ++ m) = (lastWithId? id m).or (lastWithId? id l) := by
  induction l with
  | nil => rw [List.nil_append, lastWithId?, Option.or_none]
  | cons tx l ih =>
    rw [List.cons_append, lastWithId?, lastWithId?, ih]
    cases lastWithId? id m <;> rfl

private theorem forall_ne_of_not_mem (h : id ∉ rows.map (·.id)) : ∀ tx ∈ rows, tx.id ≠ id :=
  fun tx hmem heq => h (List.mem_map.mpr ⟨tx, hmem, heq⟩)

/-- The last transaction of an id stands at its place. -/
theorem lastWithId?_eq : lastWithId? id rows = (lastPlace? id rows).bind (rows[·]?) := by
  by_cases h : id ∈ rows.map (·.id)
  · obtain ⟨before, old, after, rfl, hid, hafter⟩ := exists_last_of_mem h
    simp [lastWithId?_append_cons hid hafter, lastPlace?_append_cons hid hafter]
  · rw [lastWithId?_eq_none (forall_ne_of_not_mem h), lastPlace?_eq_none (forall_ne_of_not_mem h)]
    rfl

theorem lastPlace?_isSome_iff : (lastPlace? id rows).isSome ↔ id ∈ rows.map (·.id) := by
  by_cases h : id ∈ rows.map (·.id)
  · obtain ⟨before, old, after, rfl, hid, hafter⟩ := exists_last_of_mem h
    exact iff_of_true (by rw [lastPlace?_append_cons hid hafter]; rfl) h
  · exact iff_of_false (by rw [lastPlace?_eq_none (forall_ne_of_not_mem h)]; decide) h

/-- The last transaction of an id is replaced at its place. -/
theorem replaceLast_eq_set {i : Nat} (h : lastPlace? new.id rows = some i) :
    replaceLast new rows = rows.set i new := by
  have hmem : new.id ∈ rows.map (·.id) := lastPlace?_isSome_iff.mp (h ▸ rfl)
  obtain ⟨before, old, after, rfl, hid, hafter⟩ := exists_last_of_mem hmem
  obtain rfl := Option.some.inj ((lastPlace?_append_cons hid hafter).symm.trans h)
  rw [replaceLast_append_cons hid hafter]
  simp

/-- Replacing a transaction moves none of them. -/
theorem map_id_replaceLast (new : Transaction) (rows : List Transaction) :
    (replaceLast new rows).map (·.id) = rows.map (·.id) := by
  have h := forall₂_replaceLast new rows
  generalize replaceLast new rows = rows' at h
  induction h with
  | nil => rfl
  | cons hab _ ih =>
    rw [List.map_cons, List.map_cons, ih]
    rcases hab with rfl | ⟨hid, rfl⟩
    · rfl
    · rw [hid]

/-- A place belongs to the ids of the rows alone. -/
theorem lastPlace?_congr {rows' : List Transaction} (h : rows.map (·.id) = rows'.map (·.id)) :
    lastPlace? id rows = lastPlace? id rows' := by
  induction rows generalizing rows' with
  | nil =>
    obtain rfl := List.map_eq_nil_iff.mp h.symm
    rfl
  | cons tx rows ih =>
    obtain ⟨tx', rest, rfl, hid, hrest⟩ := List.map_eq_cons_iff.mp h.symm
    rw [lastPlace?, lastPlace?, ih hrest.symm, hid]

/-- The transaction that is added last is the last one of its id. -/
theorem lastPlace?_append_singleton (tx : Transaction) :
    lastPlace? id (rows ++ [tx]) = if tx.id = id then some rows.length else lastPlace? id rows := by
  split
  · next hid => exact lastPlace?_append_cons hid fun _ hmem => absurd hmem List.not_mem_nil
  · next hid =>
    by_cases h : id ∈ rows.map (·.id)
    · obtain ⟨before, old, after, rfl, hold, hafter⟩ := exists_last_of_mem h
      have hlast : ∀ tx' ∈ after ++ [tx], tx'.id ≠ id :=
        List.forall_mem_append.mpr ⟨hafter, List.forall_mem_singleton.mpr hid⟩
      rw [List.append_assoc, List.cons_append, lastPlace?_append_cons hold hlast,
        lastPlace?_append_cons hold hafter]
    · have hnone := forall_ne_of_not_mem h
      rw [lastPlace?_eq_none hnone, lastPlace?_eq_none]
      exact List.forall_mem_append.mpr ⟨hnone, List.forall_mem_singleton.mpr hid⟩

/-! ### When transactions are replaced -/

namespace Store

theorem isOk_getTransaction (s : Store) (id : TransactionId) :
    (∃ tx, s.getTransaction id = .ok tx) ↔ id ∈ s.transactions.map (·.id) := by
  constructor
  · rintro ⟨tx, h⟩
    rw [← lastPlace?_isSome_iff]
    have hlast := orMissing_eq_ok_iff.mp h
    rw [lastWithId?_eq] at hlast
    obtain ⟨i, hi, -⟩ := Option.bind_eq_some_iff.mp hlast
    exact hi ▸ rfl
  · intro h
    obtain ⟨tx, hmem, hid⟩ := List.mem_map.mp h
    obtain ⟨found, hfound⟩ := exists_lastWithId? ⟨tx, hmem, hid⟩
    exact ⟨found, orMissing_eq_ok_iff.mpr hfound⟩

theorem getTransaction_of_not_mem {s : Store} {id : TransactionId}
    (h : id ∉ s.transactions.map (·.id)) :
    s.getTransaction id = .error (.notFound (.transaction id)) := by
  rw [getTransaction, lastWithId?_eq_none (forall_ne_of_not_mem h)]
  rfl

/-- A transaction is replaced if there is one of its id. -/
theorem updateTransaction_eq_ite (s : Store) (tx : Transaction) :
    s.updateTransaction tx =
      if tx.id ∈ s.transactions.map (·.id) then
        .ok { s with transactions := replaceLast tx s.transactions }
      else .error (.notFound (.transaction tx.id)) := by
  split
  · next h =>
    obtain ⟨found, hfound⟩ := (s.isOk_getTransaction tx.id).mpr h
    rw [updateTransaction, hfound]
    rfl
  · next h =>
    rw [updateTransaction, getTransaction_of_not_mem h]
    rfl

/-- The first transaction whose id is not there, if there is one. -/
def firstUnknown? (s : Store) (txs : List Transaction) : Option Transaction :=
  txs.find? fun tx => decide (tx.id ∉ s.transactions.map (·.id))

/-- Transactions are replaced one after the other if all their ids are there. -/
theorem updateTransactions_eq_match (s : Store) (txs : List Transaction) :
    s.updateTransactions txs =
      match s.firstUnknown? txs with
      | some tx => .error (.notFound (.transaction tx.id))
      | none => .ok { s with
          transactions := txs.foldl (fun all tx => replaceLast tx all) s.transactions } := by
  have hcheck : txs.forM (fun tx => do let _ ← s.getTransaction tx.id :
      Transaction → Except Failure Unit) =
        match s.firstUnknown? txs with
        | some tx => .error (.notFound (.transaction tx.id))
        | none => .ok () := by
    induction txs with
    | nil => rfl
    | cons tx txs ih =>
      unfold firstUnknown? at ih ⊢
      by_cases h : tx.id ∈ s.transactions.map (·.id)
      · obtain ⟨found, hfound⟩ := (s.isOk_getTransaction tx.id).mpr h
        rw [List.find?_cons_of_neg (by simpa using h), ← ih, List.forM, hfound]
        rfl
      · rw [List.find?_cons_of_pos (by simpa using h), List.forM, getTransaction_of_not_mem h]
        rfl
  rw [updateTransactions, hcheck]
  cases s.firstUnknown? txs <;> rfl

end Store

/-! ### Calls -/

/-- What changes the transactions of a store. -/
inductive TransactionCall where
  | create (tx : Transaction)
  | createAll (txs : List Transaction)
  | update (tx : Transaction)
  | updateAll (txs : List Transaction)

/-- The ids of the transactions that are created. -/
def TransactionCall.created : TransactionCall → List TransactionId
  | create tx => [tx.id]
  | createAll txs => txs.map (·.id)
  | _ => []

/-- The change of the store, or the failure. -/
def TransactionCall.apply (s : Store) : TransactionCall → Except Failure Store
  | create tx => .ok (s.createTransaction tx)
  | createAll txs => .ok (s.createTransactions txs)
  | update tx => s.updateTransaction tx
  | updateAll txs => s.updateTransactions txs

/-! ### The indexed table -/

/-- Transactions in the order of their creation, with an index. -/
structure IndexedTable where
  /-- The transactions. -/
  rows : List Transaction
  /-- The place at which the transaction of an id was added. -/
  places : SortedMap TransactionId Nat

namespace IndexedTable

/-- The table without rows. -/
def empty : IndexedTable := ⟨[], .empty⟩

/-- Add a transaction at the end. -/
def insert (t : IndexedTable) (tx : Transaction) : IndexedTable :=
  ⟨t.rows ++ [tx], t.places.insert tx.id t.rows.length⟩

/-- The transaction at the place of that id. -/
def get (t : IndexedTable) (id : TransactionId) : Except Failure Transaction :=
  orMissing (.transaction id) ((t.places.get? id).bind (t.rows[·]?))

/-- Overwrite the transaction at the place of its id. -/
def update (t : IndexedTable) (tx : Transaction) : Except Failure IndexedTable := do
  let i ← orMissing (.transaction tx.id) (t.places.get? tx.id)
  return { t with rows := t.rows.set i tx }

/-- The change of the table, or the failure. Of several transactions none is overwritten unless all
of them have places. -/
def apply (t : IndexedTable) : TransactionCall → Except Failure IndexedTable
  | .create tx => .ok (t.insert tx)
  | .createAll txs => .ok (txs.foldl insert t)
  | .update tx => t.update tx
  | .updateAll txs =>
    match txs.find? fun tx => !t.places.contains tx.id with
    | some tx => .error (.notFound (.transaction tx.id))
    | none => txs.foldlM update t

/-- The rows are the transactions of the store, and the index names the last place of every id. -/
structure Mirrors (t : IndexedTable) (s : Store) : Prop where
  rows : t.rows = s.transactions
  places : ∀ id, t.places.get? id = lastPlace? id s.transactions

/-- Both changes fail in the same way, or both succeed and the table still mirrors the store. -/
inductive Agree : Except Failure IndexedTable → Except Failure Store → Prop
  | ok {t : IndexedTable} {s : Store} (h : t.Mirrors s) : Agree (.ok t) (.ok s)
  | error (e : Failure) : Agree (.error e) (.error e)

variable {t : IndexedTable} {s : Store}

theorem mirrors_empty : empty.Mirrors Store.empty := ⟨rfl, fun id => SortedMap.get?_empty id⟩

namespace Mirrors

/-- The place of an id leads to the last transaction of it. -/
theorem get_eq (h : t.Mirrors s) (id : TransactionId) : t.get id = s.getTransaction id := by
  rw [get, Store.getTransaction, h.places, h.rows, lastWithId?_eq]

theorem contains_iff (h : t.Mirrors s) (id : TransactionId) :
    t.places.contains id = true ↔ id ∈ s.transactions.map (·.id) := by
  rw [SortedMap.contains, h.places, lastPlace?_isSome_iff]

theorem insert (h : t.Mirrors s) (tx : Transaction) :
    (t.insert tx).Mirrors (s.createTransaction tx) := by
  refine ⟨congrArg (· ++ [tx]) h.rows, fun id => ?_⟩
  rw [IndexedTable.insert, Store.createTransaction, lastPlace?_append_singleton,
    SortedMap.get?_insert, h.places, h.rows]
  exact if_congr eq_comm rfl rfl

theorem insertAll (h : t.Mirrors s) (txs : List Transaction) :
    (txs.foldl IndexedTable.insert t).Mirrors (s.createTransactions txs) := by
  induction txs generalizing t s with
  | nil =>
    rw [Store.createTransactions, List.append_nil]
    exact h
  | cons tx txs ih =>
    have hall := ih (h.insert tx)
    rwa [Store.createTransactions, Store.createTransaction, List.append_assoc] at hall

theorem update (h : t.Mirrors s) (tx : Transaction) :
    Agree (t.update tx) (s.updateTransaction tx) := by
  rw [IndexedTable.update, h.places, Store.updateTransaction_eq_ite]
  cases hplace : lastPlace? tx.id s.transactions with
  | none =>
    rw [if_neg fun hmem => by
      rw [← lastPlace?_isSome_iff, hplace] at hmem
      exact absurd hmem Bool.false_ne_true]
    exact .error _
  | some i =>
    rw [if_pos (lastPlace?_isSome_iff.mp (hplace ▸ rfl)), replaceLast_eq_set hplace, ← h.rows]
    refine .ok ⟨rfl, fun id => ?_⟩
    have hids := map_id_replaceLast tx s.transactions
    rw [replaceLast_eq_set hplace, ← h.rows] at hids
    exact (h.places id).trans (h.rows ▸ lastPlace?_congr hids.symm)

/-- Once all places are known, the transactions are overwritten like those of the store. -/
theorem foldlM_update (h : t.Mirrors s) {txs : List Transaction}
    (known : ∀ tx ∈ txs, tx.id ∈ s.transactions.map (·.id)) :
    Agree (txs.foldlM IndexedTable.update t) (.ok { s with
      transactions := txs.foldl (fun all tx => replaceLast tx all) s.transactions }) := by
  induction txs generalizing t s with
  | nil => exact .ok h
  | cons tx txs ih =>
    have hfirst := h.update tx
    rw [Store.updateTransaction_eq_ite, if_pos (known tx List.mem_cons_self)] at hfirst
    rw [List.foldlM_cons]
    generalize t.update tx = r at hfirst
    cases hfirst with
    | ok hmirrors =>
      refine ih hmirrors fun tx' hmem => ?_
      rw [map_id_replaceLast]
      exact known tx' (List.mem_cons_of_mem _ hmem)

/-- Every call changes the table as it changes the store. -/
theorem apply (h : t.Mirrors s) (call : TransactionCall) : Agree (t.apply call) (call.apply s) := by
  cases call with
  | create tx => exact .ok (h.insert tx)
  | createAll txs => exact .ok (h.insertAll txs)
  | update tx => exact h.update tx
  | updateAll txs =>
    have hfind : (txs.find? fun tx => !t.places.contains tx.id) = s.firstUnknown? txs := by
      refine congrArg (List.find? · txs) (funext fun tx => ?_)
      rw [Bool.eq_iff_iff, Bool.not_eq_true', ← Bool.not_eq_true, h.contains_iff,
        decide_eq_true_eq]
    rw [IndexedTable.apply, TransactionCall.apply, Store.updateTransactions_eq_match, hfind]
    cases hunknown : s.firstUnknown? txs with
    | some tx => exact .error _
    | none =>
      refine h.foldlM_update fun tx hmem => ?_
      simpa using List.find?_eq_none.mp hunknown tx hmem

/-- With distinct ids, the index and the places correspond to each other. -/
theorem get?_eq_some_iff (h : t.Mirrors s) (distinct : (s.transactions.map (·.id)).Nodup)
    {id : TransactionId} {i : Nat} :
    t.places.get? id = some i ↔ (s.transactions.map (·.id))[i]? = some id := by
  rw [h.places]
  constructor
  · intro hplace
    have hmem : id ∈ s.transactions.map (·.id) :=
      lastPlace?_isSome_iff.mp (Option.isSome_of_eq_some hplace)
    obtain ⟨before, old, after, hsplit, rfl, hafter⟩ := exists_last_of_mem hmem
    rw [hsplit] at hplace ⊢
    obtain rfl := Option.some.inj ((lastPlace?_append_cons rfl hafter).symm.trans hplace)
    simp
  · intro hid
    obtain ⟨before, old, after, hsplit, rfl, hafter⟩ :=
      exists_last_of_mem (List.mem_of_getElem? hid)
    rw [hsplit] at hid distinct ⊢
    rw [lastPlace?_append_cons rfl hafter]
    have hlt : i < ((before ++ old :: after).map (·.id)).length :=
      (List.getElem?_eq_some_iff.mp hid).1
    refine congrArg some ((List.getElem?_inj hlt distinct).mp (hid.trans ?_)).symm
    simp

end Mirrors

end IndexedTable

end ContractFuzz
