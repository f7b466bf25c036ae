import ContractFuzz.Proofs.Graph.Critical
import Mathlib.Algebra.Ring.Nat
/-!
# The distance that is left

The smallest distance of the executed instructions shrinks as more is executed. Its progress, step
by step, adds up to the way from the worst finite distance: the step that first comes within reach
carries a mark, all others do not.

## Main definitions

* `DistanceMap.Bounded` : distances are numbers of thirty-two bits.
* `DistanceMap.IsAttained` : a distance that an executed instruction has.
* `DistanceMap.Telescopes` : gains that add up to a distance.

## Main results

* `ControlFlowGraph.minDistance_antitone` : what was executed before stays executed.
* `DistanceMap.Telescopes.gain` : a further gain takes the sum to the next distance.
-/

namespace ContractFuzz

namespace DistanceMap

/-- Distances are numbers of thirty-two bits, the greatest of which stands for "no path". -/
def Bounded (m : DistanceMap) : Prop :=
  ∀ target hops block d, m.get? target = some hops → hops.get? block = some d → d ≤ unreachable

theorem bounded_empty : Bounded .empty := fun _ _ _ _ h => by cases h

/-- The distance `d` of the block of an executed instruction. -/
def IsAttained (g : ControlFlowGraph) (m : DistanceMap) (executed : PcSet) (d : Nat) : Prop :=
  ∃ target hops block pc, m.get? target = some hops ∧ pc ∈ executed ∧
    g.containingBlock? pc = some block ∧ hops.get? block = some d

variable {g : ControlFlowGraph} {m : DistanceMap} {executed more : PcSet} {d : Nat}

theorem IsAttained.mono (h : IsAttained g m executed d) (hsub : ∀ pc ∈ executed, pc ∈ more) :
    IsAttained g m more d := by
  obtain ⟨target, hops, block, pc, hhops, hpc, hblock, hd⟩ := h
  exact ⟨target, hops, block, pc, hhops, hsub pc hpc, hblock, hd⟩

theorem Bounded.le_of_isAttained (hm : m.Bounded) (h : IsAttained g m executed d) :
    d ≤ unreachable := by
  obtain ⟨target, hops, block, pc, hhops, -, -, hd⟩ := h
  exact hm target hops block d hhops hd

/-- No finite distance is greater than the worst one. -/
theorem le_worst (h : IsAttained g m executed d) (hd : d < unreachable) : d ≤ m.worst := by
  obtain ⟨target, hops, block, pc, hhops, -, -, hblock⟩ := h
  have hentry : (block, d) ∈ m.finite := by
    refine List.mem_filter.mpr ⟨List.mem_flatMap.mpr ⟨hops, ?_, ?_⟩, decide_eq_true hd⟩
    · exact SortedMap.mem_values_iff.mpr ⟨target, hhops⟩
    · exact SortedMap.get?_eq_some_iff.mp hblock
  have hmem : d ∈ m.finite.map (·.2) := List.mem_map.mpr ⟨(block, d), hentry, rfl⟩
  obtain ⟨w, hw⟩ := Option.isSome_iff_exists.mp (List.isSome_max?_of_mem hmem)
  rw [worst, hw]
  exact (List.max?_eq_some_iff.mp hw).2 d hmem

end DistanceMap

open DistanceMap

/-! ### The smallest distance -/

namespace ControlFlowGraph

variable {g : ControlFlowGraph} {m : DistanceMap} {executed more : PcSet} {d : Nat}

/-- The list of which the smallest distance is taken. -/
private theorem mem_attained_iff :
    d ∈ (m.values.flatMap fun hops => (g.touchedBlocks executed).toList.filterMap hops.get?) ↔
      IsAttained g m executed d := by
  simp only [List.mem_flatMap, List.mem_filterMap, SortedMap.mem_values_iff]
  constructor
  · rintro ⟨hops, ⟨target, hhops⟩, block, htouched, hd⟩
    obtain ⟨pc, hpc, hblock⟩ := List.mem_filterMap.mp (SortedSet.mem_ofList.mp htouched)
    exact ⟨target, hops, block, pc, hhops, hpc, hblock, hd⟩
  · rintro ⟨target, hops, block, pc, hhops, hpc, hblock, hd⟩
    exact ⟨hops, ⟨target, hhops⟩, block,
      SortedSet.mem_ofList.mpr (List.mem_filterMap.mpr ⟨pc, hpc, hblock⟩), hd⟩

/-- Unless nothing is within reach, the smallest distance is that of an executed instruction. -/
theorem isAttained_minDistance (h : g.minDistance m executed ≠ unreachable) :
    IsAttained g m executed (g.minDistance m executed) := by
  unfold minDistance at h ⊢
  dsimp only at h ⊢
  cases hmin : (m.values.flatMap fun hops =>
      (g.touchedBlocks executed).toList.filterMap hops.get?).min? with
  | none => rw [hmin] at h; exact absurd rfl h
  | some d => exact mem_attained_iff.mp (List.min?_eq_some_iff.mp hmin).1

/-- No executed instruction has a smaller distance. -/
theorem minDistance_le (h : IsAttained g m executed d) : g.minDistance m executed ≤ d := by
  have hmem := mem_attained_iff.mpr h
  obtain ⟨least, hleast⟩ := Option.isSome_iff_exists.mp (List.isSome_min?_of_mem hmem)
  unfold minDistance
  dsimp only
  rw [hleast]
  exact (List.min?_eq_some_iff.mp hleast).2 d hmem

theorem minDistance_le_unreachable (hm : m.Bounded) : g.minDistance m executed ≤ unreachable := by
  by_cases h : g.minDistance m executed = unreachable
  · exact Nat.le_of_eq h
  · exact hm.le_of_isAttained (isAttained_minDistance h)

/-- A smallest distance within reach is not greater than the worst finite one. -/
theorem minDistance_le_worst (hm : m.Bounded) (h : g.minDistance m executed ≠ unreachable) :
    g.minDistance m executed ≤ m.worst :=
  le_worst (isAttained_minDistance h) (Nat.lt_of_le_of_ne (minDistance_le_unreachable hm) h)

/-- The more is executed, the smaller the distance that is left. -/
theorem minDistance_antitone (hm : m.Bounded) (hsub : ∀ pc ∈ executed, pc ∈ more) :
    g.minDistance m more ≤ g.minDistance m executed := by
  by_cases h : g.minDistance m executed = unreachable
  · exact h ▸ minDistance_le_unreachable hm
  · exact minDistance_le ((isAttained_minDistance h).mono hsub)

/-- Without executed instructions nothing is within reach. -/
theorem minDistance_empty : g.minDistance m .empty = unreachable := by
  by_contra h
  obtain ⟨_, _, _, pc, -, hpc, -⟩ := isAttained_minDistance h
  exact SortedSet.not_mem_empty pc hpc

/-- The distances that an analysis finds are numbers of thirty-two bits. -/
theorem bounded_distanceMap (g : ControlFlowGraph) (critical : List String) :
    (g.distanceMap critical).Bounded := by
  intro target hops block d hhops hd
  obtain ⟨op, holder, -, -, -, rfl⟩ := get?_distanceMap_eq_some_iff.mp hhops
  exact le_unreachable_of_get?_hopsTo hd

end ControlFlowGraph

/-! ### Progress -/

theorem unreachable_ne_zero : unreachable ≠ 0 := by decide

@[simp] theorem gainedHops_zero : gainedHops 0 = 0 := by decide

/-- The mark does not count. -/
@[simp] theorem gainedHops_marked (hops : Nat) : gainedHops (unreachable + hops) = hops := by
  rw [gainedHops, if_pos (Nat.le_add_right _ _), Nat.add_sub_cancel_left]

theorem gainedHops_of_not_le {gain : Nat} (h : ¬ unreachable ≤ gain) : gainedHops gain = gain :=
  if_neg h

namespace DistanceMap

variable {m : DistanceMap} {before after : Nat}

theorem delta_unreachable : m.delta before unreachable = 0 := if_pos rfl

/-- Coming within reach gains the way from the worst finite distance, with a mark. -/
theorem delta_of_unreachable (h : after ≠ unreachable) :
    m.delta unreachable after = unreachable + (m.worst - after) := by
  rw [delta, if_neg h, if_pos rfl]

theorem delta_of_ne (hbefore : before ≠ unreachable) (hafter : after ≠ unreachable) :
    m.delta before after = before - after := by
  rw [delta, if_neg hafter, if_neg hbefore]

/-- Without a change there is nothing to gain. -/
theorem delta_self (d : Nat) : m.delta d d = 0 := by
  by_cases h : d = unreachable
  · rw [h, delta_unreachable]
  · rw [delta_of_ne h h, Nat.sub_self]

/-- Without the mark, the hops gained in two steps are those gained in one. -/
theorem gainedHops_delta_add {middle : Nat} (hfirst : middle ≤ before) (hnext : after ≤ middle)
    (hbound : before ≤ unreachable) (hworst : middle ≠ unreachable → middle ≤ m.worst) :
    gainedHops (m.delta before middle) + gainedHops (m.delta middle after) =
      gainedHops (m.delta before after) := by
  by_cases hafter : after = unreachable
  · -- Nothing ever comes within reach.
    obtain rfl : middle = unreachable := by omega
    rw [hafter, delta_unreachable, delta_unreachable, gainedHops_zero]
  by_cases hmiddle : middle = unreachable
  · obtain rfl : before = middle := by omega
    rw [hmiddle, delta_unreachable, gainedHops_zero, Nat.zero_add]
  have hplain : ¬ unreachable ≤ middle - after := by omega
  have hworst := hworst hmiddle
  rw [delta_of_ne hmiddle hafter, gainedHops_of_not_le hplain]
  by_cases hbefore : before = unreachable
  · rw [hbefore, delta_of_unreachable hmiddle, delta_of_unreachable hafter, gainedHops_marked,
      gainedHops_marked]
    omega
  · rw [delta_of_ne hbefore hmiddle, delta_of_ne hbefore hafter,
      gainedHops_of_not_le (by omega), gainedHops_of_not_le (by omega)]
    omega

/-- Gains that add up to the way from the worst finite distance to `d`: without any if `d` is out
of reach, else with exactly one mark. -/
structure Telescopes (m : DistanceMap) (d : Nat) (gains : List Nat) : Prop where
  outOfReach : d = unreachable → ∀ gain ∈ gains, gain = 0
  marked : d ≠ unreachable → gains.countP (fun gain => unreachable ≤ gain) = 1
  total : d ≠ unreachable → (gains.map gainedHops).sum + d = m.worst

namespace Telescopes

variable {gains first last : List Nat} {d : Nat}

theorem nil (m : DistanceMap) : m.Telescopes unreachable [] :=
  ⟨fun _ _ h => (by cases h), fun h => absurd rfl h, fun h => absurd rfl h⟩

/-- Out of reach, there are no gains, whatever the distances are. -/
theorem change (h : m.Telescopes unreachable gains) (m' : DistanceMap) :
    m'.Telescopes unreachable gains :=
  ⟨h.outOfReach, fun hne => absurd rfl hne, fun hne => absurd rfl hne⟩

/-- Nothing is added by further transactions without a gain. -/
theorem append (h : m.Telescopes d gains) {more : List Nat} (hmore : ∀ gain ∈ more, gain = 0) :
    m.Telescopes d (gains ++ more) := by
  have hzeros := List.eq_replicate_of_mem hmore
  refine ⟨fun hd gain hgain => ?_, fun hd => ?_, fun hd => ?_⟩
  · rcases List.mem_append.mp hgain with hgain | hgain
    · exact h.outOfReach hd gain hgain
    · exact hmore gain hgain
  · rw [List.countP_append, h.marked hd, hzeros]
    simp [List.countP_replicate, unreachable_ne_zero]
  · rw [← h.total hd, hzeros]
    simp

/-- A gain that was zero becomes the progress to a smaller distance. -/
theorem gain (h : m.Telescopes before (first ++ 0 :: last)) (hle : after ≤ before)
    (hbound : before ≤ unreachable) (hworst : after ≠ unreachable → after ≤ m.worst) :
    m.Telescopes after (first ++ m.delta before after :: last) := by
  by_cases hafter : after = unreachable
  · -- Then nothing was within reach before, and nothing is gained.
    obtain rfl : before = unreachable := by omega
    rw [hafter, delta_unreachable]
    exact h
  by_cases hbefore : before = unreachable
  · -- Until now nothing was gained: this is the first gain, and it carries the mark.
    have hzero := h.outOfReach hbefore
    have hfirst : first = List.replicate first.length 0 :=
      List.eq_replicate_of_mem fun gain hgain => hzero gain (List.mem_append_left _ hgain)
    have hlast : last = List.replicate last.length 0 :=
      List.eq_replicate_of_mem fun gain hgain =>
        hzero gain (List.mem_append_right _ (List.mem_cons_of_mem _ hgain))
    have hworst := hworst hafter
    rw [hbefore, delta_of_unreachable hafter, hfirst, hlast]
    refine ⟨fun hd => absurd hd hafter, fun _ => ?_, fun _ => ?_⟩
    · simp [List.countP_append, List.countP_replicate, unreachable_ne_zero]
    · simp only [List.map_append, List.map_cons, List.map_replicate, List.sum_append,
        List.sum_cons, List.sum_replicate_nat, gainedHops_zero, gainedHops_marked]
      omega
  · -- The mark was set before, and a plain gain is too small for one.
    have hplain : ¬ unreachable ≤ before - after := by omega
    have hmarked := h.marked hbefore
    have htotal := h.total hbefore
    rw [delta_of_ne hbefore hafter]
    refine ⟨fun hd => absurd hd hafter, fun _ => ?_, fun _ => ?_⟩
    · simpa [List.countP_append, hplain, unreachable_ne_zero] using hmarked
    · simp only [List.map_append, List.map_cons, List.sum_append, List.sum_cons, gainedHops_zero,
        gainedHops_of_not_le hplain] at htotal ⊢
      omega

end Telescopes

end DistanceMap

end ContractFuzz
