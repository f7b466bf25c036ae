import ContractFuzz.Steps
import Mathlib.Logic.Function.Basic
import Mathlib.Logic.Relation
/-!
# Activities side by side

Any number of workers share a state and one lock. Each has an activity of which it takes one step
after the other, and the steps of different workers come in any order. A worker whose activity has
ended may begin another one.

What holds in spite of all interleavings is shown worker by worker. A discipline says what each
worker may do to the state in one step, and what it may find changed between its own steps by what
the others do. An activity is safe if each of its steps is allowed, whatever is found changed
before it.

## Main definitions

* `Pool`, `Pool.Step`, `Pool.Run` : workers and what they do, in any order.
* `Discipline` : what each worker may do and what it may find.
* `Discipline.Safe` : activities whose steps are all allowed.
* `Discipline.Keeps` : pools in which all activities are safe.
* `Pool.turns` : a run for every list of turns.

## Main results

* `Discipline.Safe.bind` : safe activities one after the other.
* `Discipline.Keeps.step`, `Discipline.Keeps.run` : the steps of a pool are allowed ones.
* `Discipline.Keeps.free_of_ended` : the lock is free once all activities have ended.
-/

namespace ContractFuzz

variable {ι σ α β : Type}

/-- Whether an activity has ended. -/
def Steps.ended : Steps σ α → Bool
  | done _ => true
  | _ => false

theorem Steps.eq_done_of_ended {p : Steps σ Unit} (h : p.ended = true) : p = .done () := by
  cases p with
  | done result => rfl
  | _ => cases h

/-- Workers that share a state and a lock. -/
structure Pool (ι σ : Type) where
  /-- The state. -/
  state : σ
  /-- Who holds the lock. -/
  holder : Option ι
  /-- What each worker has still to do. -/
  rest : ι → Steps σ Unit

namespace Pool

variable [DecidableEq ι]

/-- What a worker has still to do is replaced. -/
def after (p : Pool ι σ) (i : ι) (program : Steps σ Unit) : ι → Steps σ Unit :=
  Function.update p.rest i program

/-- Whether a worker holds the lock. -/
def holds (p : Pool ι σ) (i : ι) : Bool := decide (p.holder = some i)

/-- The workers before any of them has begun anything. -/
def idle (s : σ) : Pool ι σ := ⟨s, none, fun _ => .done ()⟩

/-- What can happen next. Workers begin only what is meant for them, and only after their last
activity has ended. -/
inductive Step (Begins : ι → Steps σ Unit → Prop) : Pool ι σ → Pool ι σ → Prop
  | start {p : Pool ι σ} {i : ι} {program : Steps σ Unit} (ended : (p.rest i).ended = true)
      (begins : Begins i program) : Step Begins p { p with rest := p.after i program }
  | act {p : Pool ι σ} {i : ι} {update : σ → σ} {next : σ → Steps σ Unit}
      (h : p.rest i = .act update next) :
      Step Begins p { p with
        state := update p.state
        rest := p.after i (next p.state) }
  | acquire {p : Pool ι σ} {i : ι} {next : Steps σ Unit} (h : p.rest i = .acquire next)
      (free : p.holder = none) :
      Step Begins p { p with
        holder := some i
        rest := p.after i next }
  | release {p : Pool ι σ} {i : ι} {next : Steps σ Unit} (h : p.rest i = .release next) :
      Step Begins p { p with
        holder := none
        rest := p.after i next }

/-- Any number of steps. -/
abbrev Run (Begins : ι → Steps σ Unit → Prop) : Pool ι σ → Pool ι σ → Prop :=
  Relation.ReflTransGen (Step Begins)

/-! ### Runs with given turns -/

/-- A worker begins an activity. -/
def begun (i : ι) (program : Steps σ Unit) (p : Pool ι σ) : Pool ι σ :=
  { p with rest := p.after i program }

/-- A worker has its turn: it takes its next step if it has one and does not wait for the lock. -/
def turn (i : ι) (p : Pool ι σ) : Pool ι σ :=
  match p.rest i with
  | .done _ => p
  | .act update next =>
    { p with
      state := update p.state
      rest := p.after i (next p.state) }
  | .acquire next =>
    if p.holder = none then
      { p with
        holder := some i
        rest := p.after i next }
    else p
  | .release next =>
    { p with
      holder := none
      rest := p.after i next }

/-- Workers have their turns, one after the other. -/
def turns (workers : List ι) (p : Pool ι σ) : Pool ι σ := workers.foldl (fun p i => p.turn i) p

variable {Begins : ι → Steps σ Unit → Prop} {p : Pool ι σ}

/-- A worker whose activity has ended may begin another one. -/
theorem run_begun {i : ι} {program : Steps σ Unit} (ended : (p.rest i).ended = true)
    (begins : Begins i program) : Run Begins p (p.begun i program) :=
  .single (.start ended begins)

theorem rest_begun_of_ne {i j : ι} (h : j ≠ i) (program : Steps σ Unit) :
    (p.begun i program).rest j = p.rest j :=
  Function.update_of_ne h _ _

theorem run_turn (i : ι) : Run Begins p (p.turn i) := by
  unfold turn
  split
  · exact .refl
  · next h => exact .single (.act h)
  · next h =>
    split
    · next free => exact .single (.acquire h free)
    · exact .refl
  · next h => exact .single (.release h)

/-- The turns of workers are a run. -/
theorem run_turns (workers : List ι) : Run Begins p (p.turns workers) := by
  induction workers generalizing p with
  | nil => exact .refl
  | cons i workers ih => exact (run_turn i).trans ih

/-- Workers that have no turn have still to do what they had to do. -/
theorem rest_turns {workers : List ι} {j : ι} (h : j ∉ workers) :
    (p.turns workers).rest j = p.rest j := by
  induction workers generalizing p with
  | nil => rfl
  | cons i workers ih =>
    have hne : j ≠ i := fun heq => h (heq ▸ List.mem_cons_self)
    refine (ih fun hmem => h (List.mem_cons_of_mem _ hmem)).trans ?_
    change (p.turn i).rest j = p.rest j
    unfold turn
    split
    · rfl
    · exact Function.update_of_ne hne _ _
    · split
      · exact Function.update_of_ne hne _ _
      · rfl
    · exact Function.update_of_ne hne _ _

end Pool

/-! ### Disciplines -/

/-- What each worker may do in one step, and what it may find changed before its next one. Both
depend on whether it holds the lock. -/
structure Discipline (ι σ : Type) where
  /-- What is true all the time. -/
  Always : σ → Prop
  /-- What is true as long as nobody holds the lock. -/
  Free : σ → Prop
  /-- The steps that a worker may take. -/
  Does : ι → Bool → σ → σ → Prop
  /-- The changes that a worker may find. -/
  Sees : ι → Bool → σ → σ → Prop
  sees_refl : ∀ i held s, Sees i held s s
  sees_trans : ∀ {i held s t u}, Sees i held s t → Sees i held t u → Sees i held s u
  /-- Whatever one worker does, another one may find, unless both of them hold the lock. -/
  sees_of_does : ∀ {i j held held' s t}, i ≠ j → (held = true → held' = false) →
    Does j held' s t → Sees i held s t
  /-- Workers that do not hold the lock keep what is true while it is free. -/
  free_of_does : ∀ {i s t}, Free s → Does i false s t → Free t
  /-- The worker that holds the lock finds that the others have kept it as well. -/
  free_of_sees : ∀ {i s t}, Free s → Sees i true s t → Free t

namespace Discipline

variable (d : Discipline ι σ) {i : ι}

/-- All steps that are left of an activity are allowed, and its result satisfies `Q`, whatever is
found changed before any of the steps. -/
def Safe (i : ι) (Q : α → Bool → σ → Prop) : Steps σ α → Bool → σ → Prop
  | .done a, held, s => ∀ t, d.Sees i held s t → d.Always t → Q a held t
  | .act update next, held, s => ∀ t, d.Sees i held s t → d.Always t →
      d.Does i held t (update t) ∧ d.Always (update t) ∧ Safe i Q (next t) held (update t)
  | .acquire next, held, s => ∀ t, d.Sees i held s t → d.Always t →
      held = false ∧ (d.Free t → Safe i Q next true t)
  | .release next, held, s => ∀ t, d.Sees i held s t → d.Always t →
      held = true ∧ d.Free t ∧ Safe i Q next false t

/-- An activity has ended without holding the lock. -/
def Unheld : α → Bool → σ → Prop := fun _ held _ => held = false

/-- An activity has ended and may release the lock. -/
def Restored : α → Bool → σ → Prop := fun _ held s => held = true ∧ d.Free s

variable {d} {Q R : α → Bool → σ → Prop} {held : Bool} {s t : σ}

namespace Safe

/-- What is safe stays safe whatever the others do. -/
theorem sees {p : Steps σ α} (h : d.Safe i Q p held s) (seen : d.Sees i held s t) :
    d.Safe i Q p held t := by
  cases p <;> exact fun u seen' => h u (d.sees_trans seen seen')

/-- Nothing has to be known but what is true after the others have done something. -/
theorem of_sees {p : Steps σ α}
    (h : ∀ t, d.Sees i held s t → d.Always t → d.Safe i Q p held t) : d.Safe i Q p held s := by
  cases p <;> exact fun t seen always => h t seen always t (d.sees_refl i held t) always

theorem mono {p : Steps σ α} (h : d.Safe i Q p held s) (weaker : ∀ a held t, Q a held t →
    R a held t) : d.Safe i R p held s := by
  induction p generalizing held s with
  | done a => exact fun t seen always => weaker a held t (h t seen always)
  | act update next ih =>
    intro t seen always
    obtain ⟨does, kept, later⟩ := h t seen always
    exact ⟨does, kept, ih t later⟩
  | acquire next ih =>
    intro t seen always
    obtain ⟨free, later⟩ := h t seen always
    exact ⟨free, fun hfree => ih (later hfree)⟩
  | release next ih =>
    intro t seen always
    obtain ⟨holding, free, later⟩ := h t seen always
    exact ⟨holding, free, ih later⟩

/-- Activities one after the other are safe if the second one is, whatever the first one leads
to. -/
theorem bind {Q : β → Bool → σ → Prop} {p : Steps σ α} {f : α → Steps σ β}
    (h : d.Safe i (fun a held t => d.Safe i Q (f a) held t) p held s) :
    d.Safe i Q (p.bind f) held s := by
  induction p generalizing held s with
  | done a => exact of_sees h
  | act update next ih =>
    intro t seen always
    obtain ⟨does, kept, later⟩ := h t seen always
    exact ⟨does, kept, ih t later⟩
  | acquire next ih =>
    intro t seen always
    obtain ⟨free, later⟩ := h t seen always
    exact ⟨free, fun hfree => ih (later hfree)⟩
  | release next ih =>
    intro t seen always
    obtain ⟨holding, free, later⟩ := h t seen always
    exact ⟨holding, free, ih later⟩

/-- An activity under the lock may rely on what is true while the lock is free, and has to bring it
about again. -/
theorem exclusively {p : Steps σ α} (h : ∀ t, d.Sees i false s t → d.Always t → d.Free t →
    d.Safe i d.Restored p true t) : d.Safe i Unheld p.exclusively false s := by
  refine fun t seen always => ⟨rfl, fun free => bind ((h t seen always free).mono ?_)⟩
  rintro a held t ⟨rfl, free⟩
  exact fun u seen always => ⟨rfl, d.free_of_sees free seen, fun _ _ _ => rfl⟩

end Safe

/-! ### Pools -/

variable [DecidableEq ι]

variable (d) in
/-- All activities of a pool are safe. -/
structure Keeps (p : Pool ι σ) : Prop where
  always : d.Always p.state
  free : p.holder = none → d.Free p.state
  safe : ∀ i, d.Safe i Unheld (p.rest i) (p.holds i) p.state

variable {Begins : ι → Steps σ Unit → Prop} {p q : Pool ι σ}

namespace Keeps

theorem idle (always : d.Always s) (free : d.Free s) : d.Keeps (.idle s) :=
  ⟨always, fun _ => free, fun _ _ _ _ => rfl⟩

/-- Whoever holds the lock has not ended. -/
theorem holds_eq_false (h : d.Keeps p) {i : ι} (ended : (p.rest i).ended = true) :
    p.holds i = false := by
  have hsafe := h.safe i
  rw [Steps.eq_done_of_ended ended] at hsafe
  exact hsafe p.state (d.sees_refl i _ p.state) h.always

/-- Once all activities have ended, nobody holds the lock. -/
theorem free_of_ended (h : d.Keeps p) (ended : ∀ i, (p.rest i).ended = true) :
    d.Free p.state := by
  refine h.free (Option.eq_none_iff_forall_ne_some.mpr fun i holder => ?_)
  have hfalse := h.holds_eq_false (ended i)
  rw [Pool.holds, holder, decide_eq_true rfl] at hfalse
  cases hfalse

/-- After one worker has done something, all activities are safe if its own is. -/
private theorem after (h : d.Keeps p) {i : ι} {program : Steps σ Unit} {holder : Option ι}
    {t : σ} (others : ∀ j ≠ i, decide (holder = some j) = p.holds j)
    (seen : ∀ j ≠ i, d.Sees j (p.holds j) p.state t)
    (safe : d.Safe i Unheld program (decide (holder = some i)) t) (j : ι) :
    d.Safe j Unheld (p.after i program j) (decide (holder = some j)) t := by
  by_cases hj : j = i
  · subst hj
    rw [Pool.after, Function.update_self]
    exact safe
  · rw [Pool.after, Function.update_of_ne hj, others j hj]
    exact (h.safe j).sees (seen j hj)

/-- Every step of the pool is one that its worker may take, or leaves the state as it is. -/
theorem step (begins : ∀ i program, Begins i program → ∀ s, d.Safe i Unheld program false s)
    (h : d.Keeps p) (step : Pool.Step Begins p q) :
    d.Keeps q ∧ Relation.ReflTransGen (fun s t => ∃ i held, d.Does i held s t) p.state q.state := by
  cases step with
  | @start i program ended hbegins =>
    refine ⟨⟨h.always, h.free, h.after (fun _ _ => rfl) (fun j _ => d.sees_refl j _ _) ?_⟩,
      .refl⟩
    have safe := begins i program hbegins p.state
    rw [← h.holds_eq_false ended] at safe
    exact safe
  | @act i update next hrest =>
    have hsafe := h.safe i
    rw [hrest] at hsafe
    obtain ⟨does, kept, later⟩ := hsafe p.state (d.sees_refl i _ _) h.always
    refine ⟨⟨kept, fun free => ?_, h.after (fun _ _ => rfl) (fun j hj => ?_) later⟩,
      .single ⟨i, _, does⟩⟩
    · have unheld : p.holds i = false :=
        decide_eq_false fun heq => Option.some_ne_none i (heq.symm.trans free)
      exact d.free_of_does (h.free free) (unheld ▸ does)
    · refine d.sees_of_does hj (fun held => decide_eq_false fun heq => ?_) does
      exact hj (Option.some.inj ((of_decide_eq_true held).symm.trans heq))
  | @acquire i next hrest free =>
    have hsafe := h.safe i
    rw [hrest] at hsafe
    obtain ⟨-, later⟩ := hsafe p.state (d.sees_refl i _ _) h.always
    refine ⟨⟨h.always, fun holder => (Option.some_ne_none i holder).elim,
      h.after (fun j hj => ?_) (fun j _ => d.sees_refl j _ _) ?_⟩, .refl⟩
    · rw [Pool.holds, free]
      exact decide_eq_decide.mpr
        ⟨fun heq => absurd (Option.some.inj heq).symm hj, fun heq => (nomatch heq)⟩
    · rw [decide_eq_true rfl]
      exact later (h.free free)
  | @release i next hrest =>
    have hsafe := h.safe i
    rw [hrest] at hsafe
    obtain ⟨holding, free, later⟩ := hsafe p.state (d.sees_refl i _ _) h.always
    refine ⟨⟨h.always, fun _ => free,
      h.after (fun j hj => ?_) (fun j _ => d.sees_refl j _ _) later⟩, .refl⟩
    rw [Pool.holds, of_decide_eq_true holding]
    exact decide_eq_decide.mpr
      ⟨fun heq => (nomatch heq), fun heq => absurd (Option.some.inj heq).symm hj⟩

/-- All that happens during a run is what workers may do. -/
theorem run (begins : ∀ i program, Begins i program → ∀ s, d.Safe i Unheld program false s)
    (h : d.Keeps p) (run : Pool.Run Begins p q) :
    d.Keeps q ∧ Relation.ReflTransGen (fun s t => ∃ i held, d.Does i held s t) p.state q.state := by
  induction run with
  | refl => exact ⟨h, .refl⟩
  | tail _ hstep ih =>
    obtain ⟨kept, does⟩ := ih.1.step begins hstep
    exact ⟨kept, ih.2.trans does⟩

end Keeps

end Discipline

end ContractFuzz
