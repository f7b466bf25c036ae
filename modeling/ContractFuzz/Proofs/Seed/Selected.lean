import ContractFuzz.Proofs.Random.Always
/-!
# What is selected by rank

A selection from a pool succeeds for every rule, whatever numbers it is made of: parts of the pool
and probabilities need not lie between zero and one, nor be in order, nor be numbers at all. The
range that a draw chooses is cut off at the end of the pool, and the whole pool stands in for a
range that has no members.

## Main definitions

* `SelectionRule.Chooses` : the range that a draw chooses, before it is cut off.

## Main results

* `SelectionRule.exists_chooses`, `SelectionRule.Chooses.bounds_eq` : every draw chooses a range,
  and its ends.
* `Draw.choose_of_ne_nil`, `rangeOrAll_of_lt`, `rangeOrAll_of_not_lt` : the steps of a selection.
* `select_exact` : which member is selected.
-/

namespace ContractFuzz

namespace SelectionRule

/-- The start and end of the range of `n` members that a draw chooses, wherever they lie. A limit
that is no number is above no draw. -/
inductive Chooses (rule : SelectionRule) (n : Nat) (draw : Float) : Nat → Nat → Prop
  | first (below : draw < rule.firstLimit) :
      Chooses rule n draw 0 (saturatedIndex (n.toFloat * rule.firstRange).ceil)
  | second (notFirst : ¬ draw < rule.firstLimit) (below : draw < rule.secondLimit) :
      Chooses rule n draw (saturatedIndex (n.toFloat * rule.firstRange).floor)
        (saturatedIndex (n.toFloat * rule.secondRange).ceil)
  | third (notFirst : ¬ draw < rule.firstLimit) (notSecond : ¬ draw < rule.secondLimit) :
      Chooses rule n draw (saturatedIndex (n.toFloat * rule.secondRange).floor) n

variable {rule : SelectionRule} {n : Nat} {draw : Float}

theorem exists_chooses (rule : SelectionRule) (n : Nat) (draw : Float) :
    ∃ lo hi, rule.Chooses n draw lo hi := by
  by_cases hfirst : draw < rule.firstLimit
  · exact ⟨_, _, .first hfirst⟩
  by_cases hsecond : draw < rule.secondLimit
  · exact ⟨_, _, .second hfirst hsecond⟩
  · exact ⟨_, _, .third hfirst hsecond⟩

/-- The bounds of a draw are the ends of the range it chooses, cut off at the end of the pool. -/
theorem Chooses.bounds_eq {lo hi : Nat} (h : rule.Chooses n draw lo hi) :
    rule.bounds n draw = (min lo n, min hi n) := by
  unfold bounds
  cases h with
  | first below => rw [if_pos below, Nat.zero_min, stopIndex]
  | second notFirst below =>
    rw [if_neg notFirst, if_pos below, startIndex, stopIndex]
  | third notFirst notSecond =>
    rw [if_neg notFirst, if_neg notSecond, startIndex, Nat.min_self]

end SelectionRule

variable {α : Type} {pool : List α} {start stop : Nat}

/-- What is drawn from a list stands at the index that is drawn below its length. -/
theorem Draw.choose_of_ne_nil {l : List α} (hl : l ≠ []) (source : Source) :
    Draw.choose l source =
      (l[(Draw.below l.length source).1]?, (Draw.below l.length source).2) := by
  rw [Draw.choose, if_neg (by simpa using hl)]
  rfl

private theorem length_range (hstop : stop ≤ pool.length) :
    ((pool.drop start).take (stop - start)).length = stop - start := by
  rw [List.length_take, List.length_drop]
  omega

/-- A range with members is what is drawn from. -/
theorem rangeOrAll_of_lt (h : start < stop) (hstop : stop ≤ pool.length) :
    rangeOrAll pool (start, stop) = (pool.drop start).take (stop - start) := by
  have hne : (pool.drop start).take (stop - start) ≠ [] := by
    refine List.ne_nil_of_length_pos ?_
    rw [length_range hstop]
    exact Nat.sub_pos_of_lt h
  rw [rangeOrAll, if_neg (by simpa using hne)]

/-- The whole pool stands in for a range without members, also when its ends are out of order. -/
theorem rangeOrAll_of_not_lt (h : ¬ start < stop) : rangeOrAll pool (start, stop) = pool := by
  have hzero : stop - start = 0 := Nat.sub_eq_zero_of_le (Nat.le_of_not_lt h)
  rw [rangeOrAll, hzero, List.take_zero, if_pos List.isEmpty_nil]

/-- A selection draws twice: first the range, then a member of it. -/
theorem select_of_ne_nil (rule : SelectionRule) (hpool : pool ≠ []) (source : Source) :
    select rule pool source =
      Draw.choose (rangeOrAll pool (rule.bounds pool.length (Draw.fraction source).1))
        (Draw.fraction source).2 := by
  rw [select, if_neg (by simpa using hpool)]
  rfl

/-- A member is drawn from every pool that has one: from the range if there are indices in it, else
from all. -/
theorem choose_rangeOrAll (hpool : pool ≠ []) (start : Nat) (hstop : stop ≤ pool.length)
    (source : Source) :
    ∃ i, ∃ inside : i < pool.length,
      (Draw.choose (rangeOrAll pool (start, stop)) source).1 = some pool[i] ∧
      (start < stop →
        start ≤ i ∧ i < stop ∧ i = start + (Draw.below (stop - start) source).1) ∧
      (¬ start < stop → i = (Draw.below pool.length source).1) := by
  rw [Draw.choose_of_ne_nil (Draw.rangeOrAll_ne_nil hpool)]
  by_cases h : start < stop
  · have hdrawn : (Draw.below (stop - start) source).1 < stop - start :=
      Draw.below_lt (Nat.sub_pos_of_lt h) source
    have inside : start + (Draw.below (stop - start) source).1 < pool.length := by omega
    refine ⟨_, inside, ?_, fun _ => ⟨Nat.le_add_right _ _, ?_, rfl⟩, fun hno => absurd h hno⟩
    · rw [rangeOrAll_of_lt h hstop, length_range hstop]
      dsimp only
      rw [List.getElem?_take_of_lt hdrawn, List.getElem?_drop, List.getElem?_eq_getElem inside]
    · omega
  · have inside : (Draw.below pool.length source).1 < pool.length :=
      Draw.below_lt (List.length_pos_iff.mpr hpool) source
    refine ⟨_, inside, ?_, fun hlt => absurd hlt h, fun _ => rfl⟩
    rw [rangeOrAll_of_not_lt h]
    exact List.getElem?_eq_getElem inside

/-- Whatever the rule, the pool and the source are: nothing is selected exactly if the pool is
empty, and then nothing is drawn. Otherwise a member is selected. Its index is drawn from the range
that the first draw chooses, cut off at the end of the pool, if that range has members; else it is
drawn from all indices of the pool. -/
theorem select_exact (rule : SelectionRule) (pool : List α) (source : Source) :
    ((select rule pool source).1 = none ↔ pool = []) ∧
    (pool = [] → (select rule pool source).2 = source) ∧
    (pool ≠ [] → ∃ lo hi, rule.Chooses pool.length (Draw.fraction source).1 lo hi ∧
      let start := min lo pool.length
      let stop := min hi pool.length
      let rest := (Draw.fraction source).2
      ∃ i, ∃ inside : i < pool.length, (select rule pool source).1 = some pool[i] ∧
        (start < stop →
          start ≤ i ∧ i < stop ∧ i = start + (Draw.below (stop - start) rest).1) ∧
        (¬ start < stop → i = (Draw.below pool.length rest).1)) := by
  obtain ⟨lo, hi, hrange⟩ := rule.exists_chooses pool.length (Draw.fraction source).1
  have selected (hpool : pool ≠ []) := choose_rangeOrAll hpool (min lo pool.length)
    (Nat.min_le_right hi pool.length) (Draw.fraction source).2
  have hselect (hpool : pool ≠ []) := select_of_ne_nil rule hpool source
  rw [hrange.bounds_eq] at hselect
  refine ⟨⟨fun hnone => ?_, ?_⟩, ?_, fun hpool => ⟨lo, hi, hrange, ?_⟩⟩
  · by_contra hpool
    obtain ⟨i, inside, hsome, -⟩ := selected hpool
    rw [hselect hpool, hsome] at hnone
    cases hnone
  · rintro rfl
    rfl
  · rintro rfl
    rfl
  · rw [hselect hpool]
    exact selected hpool

end ContractFuzz
