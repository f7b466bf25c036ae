import ContractFuzz.Seed.Schedule
import Mathlib.Data.List.Forall2
/-!
# What holds whatever is drawn

Postconditions of random computations that hold for every source, with one rule for each way to
build a computation. A computation that fails has no result, so nothing is asked of it.

## Main definitions

* `Draw.Always`, `TryDraw.Always` : a property of the result, whatever the source.
* `TryDraw.FailsOnly` : a property of the failure, whatever the source.

## Main results

* `TryDraw.run_bind`, `TryDraw.run_bind_eq_ok_iff` : how one computation follows another.
* `TryDraw.always_bind`, `TryDraw.always_mapM`, `TryDraw.always_mapM_zip` : the rules.
* `TryDraw.bind_congr_of_always` : what follows need only agree on results that can occur.
* `TryDraw.failsOnly_bind`, `TryDraw.failsOnly_mapM` : the rules for failures.
* `Draw.always_choose`, `Draw.always_bytes` : what is drawn from a list, and how many bytes.
-/

namespace ContractFuzz

variable {α β : Type}

namespace Draw

/-- Whatever the source, the result has the property. -/
def Always (d : Draw α) (P : α → Prop) : Prop := ∀ source, P (d source).1

variable {P : α → Prop}

theorem always_pure {a : α} (h : P a) : Always (pure a) P := fun _ => h

theorem always_true (d : Draw α) : Always d fun _ => True := fun _ => trivial

theorem Always.mono {d : Draw α} {Q : α → Prop} (h : Always d Q) (weaker : ∀ a, Q a → P a) :
    Always d P :=
  fun source => weaker _ (h source)

theorem always_bind {d : Draw β} {f : β → Draw α} {Q : β → Prop} (h : Always d Q)
    (next : ∀ b, Q b → Always (f b) P) : Always (d >>= f) P :=
  fun source => next _ (h source) _

theorem always_ite {c : Prop} [Decidable c] {d e : Draw α} (pos : c → Always d P)
    (neg : ¬ c → Always e P) : Always (if c then d else e) P := by
  split
  · exact pos ‹_›
  · exact neg ‹_›

theorem always_below {n : Nat} (hn : 0 < n) : Always (below n) (· < n) := below_lt hn

/-- What is drawn from a list is a member of it. -/
theorem always_choose {l : List α} {P : Option α → Prop} (member : ∀ a ∈ l, P (some a))
    (missing : l = [] → P none) : Always (choose l) P := by
  unfold choose
  refine always_ite (fun h => always_pure (missing (List.isEmpty_iff.mp h))) fun h => ?_
  have hpos : 0 < l.length := List.length_pos_iff.mpr fun hnil => h (List.isEmpty_iff.mpr hnil)
  refine always_bind (always_below hpos) fun i hi => always_pure ?_
  rw [List.getElem?_eq_getElem hi]
  exact member _ (List.getElem_mem hi)

theorem length_littleEndian (count n : Nat) : (littleEndian count n).length = count := by
  induction count generalizing n with
  | zero => rfl
  | succ count ih => rw [littleEndian, List.length_cons, ih]

theorem length_keystreamBytes (n : Nat) (k : Keystream) :
    (keystreamBytes n k).1.length = 4 * n := by
  induction n generalizing k with
  | zero => rfl
  | succ n ih =>
    change (littleEndian 4 _ ++ (keystreamBytes n _).1).length = _
    rw [List.length_append, length_littleEndian, ih]
    omega

/-- There are as many random bytes as asked for. -/
theorem always_bytes (count : Nat) : Always (bytes count) (·.length = count) := by
  intro source
  cases source with
  | keystream k =>
    change ((keystreamBytes ((count + 3) / 4) k).1.take count).length = count
    rw [List.length_take, length_keystreamBytes]
    omega
  | sequence word i =>
    change (((List.range ((count + 7) / 8)).flatMap fun j =>
      littleEndian 8 (word (i + j)).toNat).take count).length = count
    simp only [List.length_take, List.length_flatMap, length_littleEndian, List.map_const',
      List.length_range, List.sum_replicate_nat]
    omega

theorem rangeOrAll_subset {pool : List α} {bounds : Nat × Nat} {a : α}
    (h : a ∈ rangeOrAll pool bounds) : a ∈ pool := by
  unfold rangeOrAll at h
  dsimp only at h
  split at h
  · exact h
  · exact List.mem_of_mem_drop (List.mem_of_mem_take h)

theorem rangeOrAll_ne_nil {pool : List α} {bounds : Nat × Nat} (h : pool ≠ []) :
    rangeOrAll pool bounds ≠ [] := by
  unfold rangeOrAll
  dsimp only
  split
  · exact h
  · next hrange => exact fun hnil => hrange (List.isEmpty_iff.mpr hnil)

/-- What is selected from a pool is a member of it. -/
theorem always_select {rule : SelectionRule} {pool : List α} {P : Option α → Prop}
    (member : ∀ a ∈ pool, P (some a)) (missing : pool = [] → P none) :
    Always (select rule pool) P := by
  unfold select
  refine always_ite (fun h => always_pure (missing (List.isEmpty_iff.mp h))) fun h => ?_
  refine always_bind (always_true _) fun x _ => ?_
  refine always_choose (fun a ha => member a (rangeOrAll_subset ha)) fun hnil => ?_
  have hpool : pool ≠ [] := fun hnil => h (List.isEmpty_iff.mpr hnil)
  exact absurd hnil (rangeOrAll_ne_nil hpool)

end Draw

namespace TryDraw

/-- Whatever the source, the result has the property, if there is one. -/
def Always (d : TryDraw α) (P : α → Prop) : Prop := Draw.Always d.run fun r => ∀ a, r = .ok a → P a

variable {P : α → Prop}

theorem always_pure {a : α} (h : P a) : Always (pure a) P := by
  intro source b hb
  exact Except.ok.inj hb ▸ h

theorem always_throw (e : Failure) : Always (throw e : TryDraw α) P := by
  intro source b hb
  cases hb

theorem Always.mono {d : TryDraw α} {Q : α → Prop} (h : Always d Q) (weaker : ∀ a, Q a → P a) :
    Always d P :=
  fun source a ha => weaker a (h source a ha)

theorem always_ofExcept {r : Except Failure α} (h : ∀ a, r = .ok a → P a) :
    Always (ofExcept r) P :=
  fun _ => h

theorem always_draw {d : Draw α} (h : Draw.Always d P) : Always (draw d) P := by
  intro source a ha
  exact Except.ok.inj ha ▸ h source

/-- What follows goes on with the source that the first computation leaves, if that one has a
result. -/
theorem run_bind (d : TryDraw β) (f : β → TryDraw α) (source : Source) :
    (d >>= f).run source =
      match d.run source with
      | (.ok b, rest) => (f b).run rest
      | (.error e, rest) => (.error e, rest) := by
  change ExceptT.bindCont f (d.run source).1 (d.run source).2 = _
  rcases d.run source with ⟨r, rest⟩
  cases r <;> rfl

/-- When a computation and what follows have a result. -/
theorem run_bind_eq_ok_iff {d : TryDraw β} {f : β → TryDraw α} {source : Source} {a : α} :
    ((d >>= f).run source).1 = .ok a ↔
      ∃ b, (d.run source).1 = .ok b ∧ ((f b).run (d.run source).2).1 = .ok a := by
  rw [run_bind]
  rcases d.run source with ⟨r, rest⟩
  cases r with
  | error e => exact ⟨(nomatch ·), fun ⟨_, h, _⟩ => nomatch h⟩
  | ok b => exact ⟨fun h => ⟨b, rfl, h⟩, fun ⟨_, h, hf⟩ => Except.ok.inj h ▸ hf⟩

theorem always_bind {d : TryDraw β} {f : β → TryDraw α} {Q : β → Prop} (h : Always d Q)
    (next : ∀ b, Q b → Always (f b) P) : Always (d >>= f) P := by
  intro source a ha
  obtain ⟨b, hb, hf⟩ := run_bind_eq_ok_iff.mp ha
  exact next b (h source b hb) _ a hf

/-- What follows a computation need only agree on the results that it can have. -/
theorem bind_congr_of_always {d : TryDraw β} {f g : β → TryDraw α} {Q : β → Prop}
    (h : Always d Q) (same : ∀ b, Q b → f b = g b) : d >>= f = d >>= g := by
  funext source
  change (d >>= f).run source = (d >>= g).run source
  have hd := h source
  rw [run_bind, run_bind]
  revert hd
  rcases d.run source with ⟨r, rest⟩
  cases r with
  | error e => exact fun _ => rfl
  | ok b => exact fun hd => congrArg (fun next => next.run rest) (same b (hd b rfl))

theorem always_mapM {f : α → TryDraw β} {R : α → β → Prop} {l : List α}
    (h : ∀ a ∈ l, Always (f a) (R a)) : Always (l.mapM f) (List.Forall₂ R l) := by
  induction l with
  | nil => rw [List.mapM_nil]; exact always_pure .nil
  | cons a l ih =>
    rw [List.mapM_cons]
    refine always_bind (h a List.mem_cons_self) fun b hb => ?_
    refine always_bind (ih fun a ha => h a (List.mem_cons_of_mem _ ha)) fun bs hbs => ?_
    exact always_pure (.cons hb hbs)

/-- Members that are paired up by a relation are changed in such a way that they stay related. -/
theorem always_mapM_zip {γ : Type} {f : α × γ → TryDraw β} {S : α → γ → Prop} {R : α → β → Prop}
    {l : List α} {m : List γ} (paired : List.Forall₂ S l m)
    (h : ∀ a c, S a c → Always (f (a, c)) (R a)) :
    Always ((l.zip m).mapM f) (List.Forall₂ R l) := by
  induction paired with
  | nil => rw [List.zip_nil_left, List.mapM_nil]; exact always_pure .nil
  | @cons a c l m hac _ ih =>
    rw [List.zip_cons_cons, List.mapM_cons]
    refine always_bind (h a c hac) fun b hb => ?_
    refine always_bind ih fun bs hbs => ?_
    exact always_pure (.cons hb hbs)

/-! ### Failures -/

/-- Whatever the source, a failure has the property, if there is one. -/
def FailsOnly (d : TryDraw α) (P : Failure → Prop) : Prop :=
  Draw.Always d.run fun r => ∀ e, r = .error e → P e

variable {F : Failure → Prop}

theorem failsOnly_pure (a : α) : FailsOnly (pure a) F := by
  intro source e he
  cases he

theorem failsOnly_draw (d : Draw α) : FailsOnly (draw d) F := by
  intro source e he
  cases he

theorem failsOnly_ofExcept {r : Except Failure α} (h : ∀ e, r = .error e → F e) :
    FailsOnly (ofExcept r) F :=
  fun _ => h

/-- A failure is one of the first computation, or of what follows a result that it can have. -/
theorem failsOnly_bind {d : TryDraw β} {f : β → TryDraw α} {Q : β → Prop} (first : FailsOnly d F)
    (h : Always d Q) (next : ∀ b, Q b → FailsOnly (f b) F) : FailsOnly (d >>= f) F := by
  intro source e he
  have hfirst := first source
  have hd := h source
  rw [run_bind] at he
  revert hfirst hd he
  rcases d.run source with ⟨r, rest⟩
  cases r with
  | error e' => exact fun he hfirst _ => Except.error.inj he ▸ hfirst e' rfl
  | ok b => exact fun he _ hd => next b (hd b rfl) rest e he

theorem always_true (d : TryDraw α) : Always d fun _ => True := fun _ _ _ => trivial

theorem failsOnly_mapM {f : α → TryDraw β} {l : List α} (h : ∀ a ∈ l, FailsOnly (f a) F) :
    FailsOnly (l.mapM f) F := by
  induction l with
  | nil => rw [List.mapM_nil]; exact failsOnly_pure []
  | cons a l ih =>
    rw [List.mapM_cons]
    refine failsOnly_bind (h a List.mem_cons_self) (always_true _) fun b _ => ?_
    refine failsOnly_bind (ih fun a ha => h a (List.mem_cons_of_mem _ ha)) (always_true _)
      fun bs _ => failsOnly_pure _

end TryDraw

end ContractFuzz
