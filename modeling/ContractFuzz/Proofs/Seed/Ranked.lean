import ContractFuzz.Proofs.StableSort
import ContractFuzz.Seed.Ranking
/-!
# Ranked transactions

A ranking sorts transactions by scores that may be any floating-point words. The total order of
words makes it meaningful for all of them, zeros of both signs and words that store no number
included.

## Main definitions

* `Binary64.TotalLe` : the total order of floating-point words.
* `IsRanking` : a list from the best score to the worst, with ties in their former order.
* `SameUpToTies` : two lists differ by the order of what has the same score.

## Main results

* `Binary64.rank_le_rank_iff` : ranks are compared as the words they come from.
* `IsRanking.unique`, `IsRanking.sameUpToTies` : what the order of a list has to do with its
  ranking.
* `Ranking.order_exact` : ordering gives the ranking of the transactions, whatever the contract and
  the weights are.
-/

namespace ContractFuzz

namespace Binary64

/-- Whether the sign of a word is the negative one. -/
def IsNegative (x : Binary64) : Prop := 0x8000000000000000 ≤ x.bits

instance (x : Binary64) : Decidable x.IsNegative :=
  inferInstanceAs (Decidable (0x8000000000000000 ≤ x.bits))

/-- The total order of floating-point words. Words with a negative sign come before the others; of
two with the same sign the one of lesser magnitude comes first if both are positive, and last if
both are negative. -/
def TotalLe (x y : Binary64) : Prop :=
  if x.IsNegative then y.IsNegative → y.bits ≤ x.bits else ¬ y.IsNegative ∧ x.bits ≤ y.bits

instance (x y : Binary64) : Decidable (x.TotalLe y) :=
  inferInstanceAs (Decidable (if x.IsNegative then y.IsNegative → y.bits ≤ x.bits
    else ¬ y.IsNegative ∧ x.bits ≤ y.bits))

/-- Ranks are in the total order of the words. -/
theorem rank_le_rank_iff {x y : Binary64} : x.rank ≤ y.rank ↔ x.TotalLe y := by
  have hx := x.bits.toNat_lt
  have hy := y.bits.toNat_lt
  have hsign (z : UInt64) : z < 0x8000000000000000 ↔ z.toNat < signBit := UInt64.lt_iff_toNat_lt
  have hnegative (z : Binary64) : z.IsNegative ↔ signBit ≤ z.bits.toNat := UInt64.le_iff_toNat_le
  simp only [TotalLe, hnegative, UInt64.le_iff_toNat_le, rank, hsign, signBit, UInt64.size]
  split <;> split <;> split <;> omega

/-- What is no number with a negative sign, the negative infinity, both zeros, the infinity and what
is no number otherwise. -/
example : List.Pairwise TotalLe [⟨0xfff8000000000000⟩, ⟨0xfff0000000000000⟩, ⟨0x8000000000000000⟩,
    ⟨0⟩, ⟨0x7ff0000000000000⟩, ⟨0x7ff8000000000000⟩] := by decide

theorem TotalLe.antisymm {x y : Binary64} (h : x.TotalLe y) (h' : y.TotalLe x) : x = y :=
  rank_inj (Nat.le_antisymm (rank_le_rank_iff.mpr h) (rank_le_rank_iff.mpr h'))

end Binary64

section Ranked

variable {α : Type} {score : α → Binary64} {l l' ranked ranked' : List α}

/-- The members of a list from the best score to the worst, those with the same score in the order
in which the list has them. -/
structure IsRanking (score : α → Binary64) (l ranked : List α) : Prop where
  /-- Nothing is added or left out. -/
  perm : ranked.Perm l
  /-- No score is followed by a greater one. -/
  descending : ranked.Pairwise fun a b => (score b).TotalLe (score a)
  /-- Those with the same score stay in their order. -/
  stable (value : Binary64) :
    ranked.filter (fun a => score a = value) = l.filter fun a => score a = value

/-- Two lists of the same members, with the same score at each place. -/
structure SameUpToTies (score : α → Binary64) (l l' : List α) : Prop where
  /-- They have the same members. -/
  perm : l.Perm l'
  /-- They have the same scores at the same places. -/
  scores : l.map score = l'.map score

/-- Scores in descending order are determined by the members alone. -/
theorem IsRanking.sameUpToTies (h : IsRanking score l ranked) (h' : IsRanking score l' ranked')
    (hl : l.Perm l') : SameUpToTies score ranked ranked' := by
  have hperm : ranked.Perm ranked' := h.perm.trans (hl.trans h'.perm.symm)
  exact ⟨hperm, map_eq_of_pairwise (R := fun x y => y.TotalLe x)
    (fun _ _ hyx hxy => hxy.antisymm hyx) hperm h.descending h'.descending⟩

/-- There is only one ranking of a list. -/
theorem IsRanking.unique (h : IsRanking score l ranked) (h' : IsRanking score l ranked') :
    ranked = ranked' :=
  eq_of_map_eq_of_filter_eq (h.sameUpToTies h' (.refl l)).scores
    fun value => (h.stable value).trans (h'.stable value).symm

/-- Sorting by rank gives a ranking, whatever the scores are. -/
theorem isRanking_mergeSort (score : α → Binary64) (l : List α) :
    IsRanking score l (l.mergeSort fun a b => decide ((score b).rank ≤ (score a).rank)) := by
  have trans : ∀ a b c, decide ((score b).rank ≤ (score a).rank) = true →
      decide ((score c).rank ≤ (score b).rank) = true →
      decide ((score c).rank ≤ (score a).rank) = true := fun a b c hab hbc =>
    decide_eq_true (Nat.le_trans (of_decide_eq_true hbc) (of_decide_eq_true hab))
  have total : ∀ a b, (decide ((score b).rank ≤ (score a).rank) ||
      decide ((score a).rank ≤ (score b).rank)) = true := fun a b => by
    simpa only [Bool.or_eq_true, decide_eq_true_eq] using Nat.le_total _ _
  refine ⟨List.mergeSort_perm _ _, ?_, fun value => ?_⟩
  · refine (List.pairwise_mergeSort trans total l).imp fun hle => ?_
    exact Binary64.rank_le_rank_iff.mp (of_decide_eq_true hle)
  · refine filter_mergeSort trans total fun a b ha hb => decide_eq_true ?_
    exact Nat.le_of_eq (congrArg _ ((of_decide_eq_true hb).trans (of_decide_eq_true ha).symm))

end Ranked

namespace Ranking

/-- Ordering gives the ranking of the transactions, the only one there is, for all words that scores
can be. From the same transactions in another order it gives the same up to ties. -/
theorem order_exact (c : Contract) (signal : Signal) (policy : ScorePolicy)
    {txs txs' : List Transaction} (hperm : txs.Perm txs') :
    (∀ ranked, IsRanking (ofContract c signal policy).score txs ranked ↔
      ranked = (ofContract c signal policy).order txs) ∧
    SameUpToTies (ofContract c signal policy).score ((ofContract c signal policy).order txs)
      ((ofContract c signal policy).order txs') := by
  have hranking := isRanking_mergeSort (ofContract c signal policy).score txs
  have hranking' := isRanking_mergeSort (ofContract c signal policy).score txs'
  refine ⟨fun ranked => ⟨fun h => h.unique hranking, ?_⟩, hranking.sameUpToTies hranking' hperm⟩
  rintro rfl
  exact hranking

/-- A contract with two critical instructions. -/
def pairContract : Contract := { Contract.new ⟨0⟩ ⟨0⟩ "Pair" "[]" with targetCount := 2 }

/-- The infinity as the weight of critical instructions. With it the score of what executes none of
them is no number. -/
def boundless : ScorePolicy := .weightedSum ⟨0x7ff0000000000000⟩ ⟨0⟩ ⟨0⟩

/-- A call that executed some critical instructions. -/
def callWithHits (number hits : Nat) : Transaction :=
  { Transaction.new ⟨number⟩ ⟨0⟩ ⟨0⟩ [] .epoch with status := .done, hits }

private theorem isRanking_boundless :
    IsRanking (ofContract pairContract .distanceCoverage boundless).score
      [callWithHits 0 0, callWithHits 1 1, callWithHits 2 0]
      [callWithHits 1 1, callWithHits 0 0, callWithHits 2 0] := by
  have hnone (number : Nat) : (ofContract pairContract .distanceCoverage boundless).score
      (callWithHits number 0) = .invalid := by
    change (ofContract pairContract .distanceCoverage boundless).score (callWithHits 0 0) = _
    decide +kernel
  have hone : (ofContract pairContract .distanceCoverage boundless).score (callWithHits 1 1) =
      ⟨0x7ff0000000000000⟩ := by
    decide +kernel
  refine ⟨.swap _ _ _, ?_, fun value => ?_⟩
  · simp only [List.pairwise_cons, List.forall_mem_cons, hnone, hone]
    decide
  · by_cases hvalue : Binary64.invalid = value
    · have hother : ¬ ⟨0x7ff0000000000000⟩ = value := by
        rw [← hvalue]
        decide
      simp [List.filter_cons, hnone, hone, hother]
    · simp [List.filter_cons, hnone, hone, hvalue]

theorem order_exact_boundless :
    (ofContract pairContract .distanceCoverage boundless).order
        [callWithHits 0 0, callWithHits 1 1, callWithHits 2 0] =
      [callWithHits 1 1, callWithHits 0 0, callWithHits 2 0] ∧
    SameUpToTies (ofContract pairContract .distanceCoverage boundless).score
      [callWithHits 1 1, callWithHits 0 0, callWithHits 2 0]
      ((ofContract pairContract .distanceCoverage boundless).order
        [callWithHits 2 0, callWithHits 1 1, callWithHits 0 0]) := by
  have hperm := (List.reverse_perm [callWithHits 0 0, callWithHits 1 1, callWithHits 2 0]).symm
  obtain ⟨hranking, hsame⟩ := order_exact pairContract .distanceCoverage boundless hperm
  have horder := (hranking _).mp isRanking_boundless
  exact ⟨horder.symm, horder ▸ hsame⟩

end Ranking

end ContractFuzz
