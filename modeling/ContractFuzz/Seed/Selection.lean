import ContractFuzz.Random.Source
/-!
# Rank-biased selection

A pool whose members are ordered from best to worst is cut into three ranges, one of which is
drawn first, then a member of it.

## Main definitions

* `SelectionRule`: where the pool is cut, and how likely each range is.
* `SelectionRule.bounds`: the range that a draw chooses.
* `select`: the selection.
-/

namespace ContractFuzz

/-- How a pool is cut and its ranges are weighted. -/
structure SelectionRule where
  /-- The part of the pool at which the first range ends. -/
  firstRange : Float
  /-- The part of the pool at which the second range ends. -/
  secondRange : Float
  /-- The probability of the first range. -/
  firstLimit : Float
  /-- The probability of the first two ranges together. -/
  secondLimit : Float
deriving Inhabited

/-- A number as an index: its integral part, zero if it is negative or no number. -/
def saturatedIndex (x : Float) : Nat := x.toUInt64.toNat

namespace SelectionRule

/-- The index at which a range starts after a part of `n` members, rounded down. -/
def startIndex (n : Nat) (part : Float) : Nat :=
  min (saturatedIndex (n.toFloat * part).floor) n

/-- The index at which a range ends after a part of `n` members, rounded up. -/
def stopIndex (n : Nat) (part : Float) : Nat :=
  min (saturatedIndex (n.toFloat * part).ceil) n

/-- The start and end of the range of `n` members that a draw between zero and one chooses. -/
def bounds (rule : SelectionRule) (n : Nat) (draw : Float) : Nat × Nat :=
  if draw < rule.firstLimit then (0, stopIndex n rule.firstRange)
  else if draw < rule.secondLimit then
    (startIndex n rule.firstRange, stopIndex n rule.secondRange)
  else (startIndex n rule.secondRange, n)

end SelectionRule

/-- The members from a start to an end, or all of them if there are none between. -/
def rangeOrAll {α : Type} (pool : List α) (bounds : Nat × Nat) : List α :=
  let range := (pool.drop bounds.1).take (bounds.2 - bounds.1)
  if range.isEmpty then pool else range

/-- Select a member of a pool; nothing is drawn for an empty one. -/
def select {α : Type} (rule : SelectionRule) (pool : List α) : Draw (Option α) :=
  if pool.isEmpty then pure none
  else do Draw.choose (rangeOrAll pool (rule.bounds pool.length (← Draw.fraction)))

end ContractFuzz
