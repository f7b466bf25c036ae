import ContractFuzz.Text.Quoted
/-!
# Record ids

Every record of a campaign has an id among those of its kind. Ids compare by number and are shown
as thirty-two hexadecimal digits in five groups.

## Main definitions

* `RecordId`, and one abbreviation per kind of record.
* `RecordId.text`: how messages show an id.
-/

namespace ContractFuzz

/-- The kinds of records that have ids. -/
inductive RecordKind where
  | task
  | contract
  | function
  | transaction
deriving DecidableEq

/-- The id of a record of one kind. -/
structure RecordId (kind : RecordKind) where
  /-- The number that orders the id. -/
  number : Nat
deriving DecidableEq, Inhabited

/-- The id of a task. -/
abbrev TaskId := RecordId .task

/-- The id of a contract. -/
abbrev ContractId := RecordId .contract

/-- The id of a contract function. -/
abbrev FunctionId := RecordId .function

/-- The id of a transaction. -/
abbrev TransactionId := RecordId .transaction

namespace RecordId

variable {kind : RecordKind}

instance : LawfulBEq (RecordId kind) := inferInstance

instance : Ord (RecordId kind) := ⟨fun a b => compare a.number b.number⟩

theorem compare_def (a b : RecordId kind) : compare a b = compare a.number b.number := rfl

instance : Std.OrientedOrd (RecordId kind) where
  eq_swap {a b} := by rw [compare_def, compare_def]; exact Std.OrientedCmp.eq_swap

instance : Std.TransOrd (RecordId kind) where
  isLE_trans {a b c} := by simp only [compare_def]; exact Std.TransCmp.isLE_trans

instance : Std.LawfulEqOrd (RecordId kind) where
  eq_of_compare {a b} h := by
    cases a; cases b
    rw [compare_def] at h
    congr
    exact Std.compare_eq_iff_eq.1 h

/-- The digits of an id, in groups of eight, four, four, four and twelve. -/
def text (id : RecordId kind) : String :=
  let digits := Text.hexDigits id.number
  let all := List.replicate (32 - digits.length) '0' ++ digits
  let group (start length : Nat) : List Char := (all.drop start).take length
  String.ofList (group 0 8 ++ '-' :: group 8 4 ++ '-' :: group 12 4 ++ '-' :: group 16 4 ++
    '-' :: group 20 12)

end RecordId

end ContractFuzz
