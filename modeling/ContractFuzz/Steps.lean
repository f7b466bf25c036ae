/-!
# Computations in atomic steps

Several activities share one state. Each is a sequence of atomic steps, between which the others
may take theirs; a step looks at the state and may change it. Sections that exclude each other are
marked by taking and releasing one common lock.

## Main definitions

* `Steps`: such an activity.
* `Steps.atomically`: a single step.
* `Steps.exclusively`: an activity that holds the lock.
* `Steps.run`: an activity that is not disturbed.

## Main results

* `Steps.run_bind`, `Steps.run_atomically`, `Steps.run_exclusively`: running piece by piece.
-/

namespace ContractFuzz

/-- An activity on a shared state of type `σ` that ends with a result. -/
inductive Steps (σ α : Type) where
  /-- The activity has ended. -/
  | done (result : α)
  /-- A step: the state is changed, and what follows depends on the state before the change. -/
  | act (update : σ → σ) (next : σ → Steps σ α)
  /-- The lock is taken, which waits until it is free. -/
  | acquire (next : Steps σ α)
  /-- The lock is released. -/
  | release (next : Steps σ α)

namespace Steps

variable {σ α β γ : Type}

/-- One activity after the other. -/
def bind : Steps σ α → (α → Steps σ β) → Steps σ β
  | done a, f => f a
  | act update next, f => act update fun s => bind (next s) f
  | acquire next, f => acquire (bind next f)
  | release next, f => release (bind next f)

instance : Monad (Steps σ) where
  pure := done
  bind := bind

/-- A single step that changes the state and has a result. -/
def atomically (f : σ → α × σ) : Steps σ α :=
  act (fun s => (f s).2) fun s => done (f s).1

/-- A single step that only looks at the state. -/
def look (f : σ → α) : Steps σ α := act id fun s => done (f s)

/-- A single step that only changes the state. -/
def modify (f : σ → σ) : Steps σ Unit := act f fun _ => done ()

/-- An activity that holds the lock from its start to its end. -/
def exclusively (p : Steps σ α) : Steps σ α :=
  acquire (p.bind fun a => release (done a))

/-- Run an activity alone: no other steps come between its own. -/
def run : Steps σ α → σ → α × σ
  | done a, s => (a, s)
  | act update next, s => run (next s) (update s)
  | acquire next, s => run next s
  | release next, s => run next s

theorem bind_done (p : Steps σ α) : p.bind done = p := by
  induction p with
  | done => rfl
  | act update next ih => simp only [bind, ih]
  | acquire next ih => simp only [bind, ih]
  | release next ih => simp only [bind, ih]

theorem bind_assoc (p : Steps σ α) (f : α → Steps σ β) (g : β → Steps σ γ) :
    (p.bind f).bind g = p.bind fun a => (f a).bind g := by
  induction p with
  | done => rfl
  | act update next ih => simp only [bind, ih]
  | acquire next ih => simp only [bind, ih]
  | release next ih => simp only [bind, ih]

instance : LawfulMonad (Steps σ) :=
  LawfulMonad.mk' (Steps σ) (fun p => bind_done p) (fun _ _ => rfl) bind_assoc

@[simp] theorem run_pure (a : α) (s : σ) : (pure a : Steps σ α).run s = (a, s) := rfl

@[simp] theorem run_bind (p : Steps σ α) (f : α → Steps σ β) (s : σ) :
    (p >>= f).run s = (f (p.run s).1).run (p.run s).2 := by
  change (p.bind f).run s = _
  induction p generalizing s with
  | done => rfl
  | act update next ih => simp only [bind, run, ih]
  | acquire next ih => simp only [bind, run, ih]
  | release next ih => simp only [bind, run, ih]

@[simp] theorem run_atomically (f : σ → α × σ) (s : σ) : (atomically f).run s = f s := rfl

@[simp] theorem run_look (f : σ → α) (s : σ) : (look f).run s = (f s, s) := rfl

@[simp] theorem run_modify (f : σ → σ) (s : σ) : (modify f).run s = ((), f s) := rfl

@[simp] theorem run_exclusively (p : Steps σ α) (s : σ) : (exclusively p).run s = p.run s := by
  change ((p.bind fun a => release (done a)) : Steps σ α).run s = _
  exact run_bind p (fun a => release (done a)) s

end Steps

end ContractFuzz
