import ContractFuzz.Proofs.Interleaving.Conduct
/-!
# Safe activities of campaigns

How to show that an activity keeps to what its worker may do: one rule for each kind of step, in
front of what follows it.

## Main definitions

* `Activity.IsQuiet` : a step that changes neither records nor numbers.

## Main results

* `Safe.quiet_bind`, `Safe.query_bind`, `Safe.update_bind` and others : the rules.
-/

namespace ContractFuzz

open Campaign Activity

variable {ω α β : Type}

/-- A step that changes neither records nor numbers. -/
def Activity.IsQuiet (p : Activity ω α) : Prop :=
  ∃ f : Campaign ω → Except Failure α × Campaign ω, ExceptT.run p = Steps.atomically f ∧
    ∀ c, (f c).2.store = c.store ∧ (f c).2.nextTransaction = c.nextTransaction

namespace Activity

theorem isQuiet_query (f : Store → Except Failure α) : (query f : Activity ω α).IsQuiet :=
  ⟨fun c => (f c.store, c), rfl, fun _ => ⟨rfl, rfl⟩⟩

theorem isQuiet_view (f : Store → α) : (view f : Activity ω α).IsQuiet :=
  ⟨fun c => (.ok (f c.store), c), rfl, fun _ => ⟨rfl, rfl⟩⟩

theorem isQuiet_publish (l : Listener) (task : TaskId) :
    (publish l task : Activity ω Nat).IsQuiet :=
  ⟨fun c => (.ok _, c.publish l task), rfl, fun _ => by cases l <;> exact ⟨rfl, rfl⟩⟩

theorem isQuiet_warn (w : Warning) : (warn w : Activity ω Unit).IsQuiet :=
  ⟨fun c => (.ok (), { c with log := c.log ++ [w] }), rfl, fun _ => ⟨rfl, rfl⟩⟩

theorem isQuiet_clock (e : Engine ω) : (clock e).IsQuiet :=
  ⟨fun c => (.ok (e.services.clock c.world), c), rfl, fun _ => ⟨rfl, rfl⟩⟩

theorem isQuiet_drawAsFuzzer (d : Store → TryDraw α) : (drawAsFuzzer d : Activity ω α).IsQuiet :=
  ⟨fun c => (((d c.store).run c.fuzzerSource).1,
    { c with fuzzerSource := ((d c.store).run c.fuzzerSource).2 }), rfl, fun _ => ⟨rfl, rfl⟩⟩

/-- Nothing but the world outside takes part. -/
theorem isQuiet_atomically (f : ω → α × ω) :
    (atomically fun c : Campaign ω => ((f c.world).1, { c with world := (f c.world).2 })).IsQuiet :=
  ⟨fun c => (.ok (f c.world).1, { c with world := (f c.world).2 }), rfl, fun _ => ⟨rfl, rfl⟩⟩

end Activity

namespace Campaign

variable {c c' : Campaign ω} {i : Worker} {held : Bool}

/-- A step that changes neither records nor numbers is always allowed. -/
theorem does_of_eq (store : c'.store = c.store) (number : c'.nextTransaction = c.nextTransaction) :
    Does i held c c' := by
  have hwith : c.WithLock c' :=
    ⟨.of_eq (by rw [store]), store ▸ List.forall₂_same.mpr fun tx _ => ⟨.refl tx, fun _ => rfl⟩,
      number⟩
  have hwithout : c.WithoutLock c' :=
    ⟨.of_eq (by rw [store]), fun _ => by rw [store], by rw [store], number⟩
  have hin : c.InSubmission c' :=
    ⟨by rw [store], store ▸ .refl _, fun _ htx _ => store ▸ htx, fun _ => by rw [store]⟩
  cases held with
  | true => exact hwith
  | false => cases i <;> first | exact hwithout | exact hin

theorem finds_of_eq (store : c'.store = c.store) (number : c'.nextTransaction = c.nextTransaction) :
    Finds i held c c' := by
  have holder : c.KeptForHolder c' :=
    ⟨fun _ htx _ => store ▸ htx, fun _ => by rw [store], fun _ => by rw [store]⟩
  have submitter : c.KeptForSubmitter c' :=
    ⟨by rw [store], fun _ htx _ => store ▸ htx, number⟩
  cases held with
  | true => exact holder
  | false => cases i <;> first | exact trivial | exact submitter

end Campaign

/-- An activity of campaigns keeps to what its worker may do, and its result satisfies `Q`. -/
abbrev Activity.Safe (i : Worker) (Q : Except Failure α → Bool → Campaign ω → Prop)
    (p : Activity ω α) (held : Bool) (c : Campaign ω) : Prop :=
  (conduct ω).Safe i Q (ExceptT.run p) held c

namespace Activity.Safe

variable {i : Worker} {Q : Except Failure α → Bool → Campaign ω → Prop}
  {R : Except Failure β → Bool → Campaign ω → Prop} {held : Bool} {c : Campaign ω}
  {k : α → Activity ω β}

/-- A result that satisfies what is asked for, whatever is found. -/
theorem pure {a : α} (h : ∀ c', Finds i held c c' → c'.Orderly → Q (.ok a) held c') :
    Safe i Q (Pure.pure a) held c := h

/-- An activity and what follows: it is safe after whatever the first one leads to. -/
theorem bind {p : Activity ω α} (h : Safe i Q p held c)
    (fail : ∀ e held c', Q (.error e) held c' → ∀ c'', Finds i held c' c'' → R (.error e) held c'')
    (ok : ∀ a held c', Q (.ok a) held c' → Safe i R (k a) held c') :
    Safe i R (p >>= k) held c := by
  refine Discipline.Safe.bind (h.mono fun r held c' hr => ?_)
  cases r with
  | ok a => exact ok a held c' hr
  | error e => exact fun c'' seen _ => fail e held c' hr c'' seen

/-- One step and what follows: the step has to be allowed. -/
theorem step_bind {p : Activity ω α} {f : Campaign ω → Except Failure α × Campaign ω}
    (hp : ExceptT.run p = Steps.atomically f)
    (fail : ∀ e c', Finds i held c c' → (f c').1 = .error e →
      ∀ c'', Finds i held c' c'' → R (.error e) held c'')
    (error : ∀ e c', (f c').1 = .error e → (f c').2.store = c'.store ∧
      (f c').2.nextTransaction = c'.nextTransaction)
    (ok : ∀ a c', Finds i held c c' → c'.Orderly → (f c').1 = .ok a →
      Does i held c' (f c').2 ∧ (f c').2.Orderly ∧ Safe i R (k a) held (f c').2) :
    Safe i R (p >>= k) held c := by
  change (conduct ω).Safe i R ((ExceptT.run p).bind (ExceptT.bindCont k)) held c
  rw [hp]
  intro c' found orderly
  change Does i held c' (f c').2 ∧ (f c').2.Orderly ∧
    (conduct ω).Safe i R (ExceptT.bindCont k (f c').1) held (f c').2
  cases hr : (f c').1 with
  | ok a => exact ok a c' found orderly hr
  | error e =>
    obtain ⟨store, number⟩ := error e c' hr
    refine ⟨does_of_eq store number, orderly.of_eq (by rw [store]) number, fun c'' found' _ => ?_⟩
    exact fail e c' found hr c'' ((finds_of_eq store number).trans found')

/-- A quiet step may be taken at any time. -/
theorem quiet_bind {p : Activity ω α} (quiet : p.IsQuiet)
    (fail : ∀ e c', Finds i held c c' → R (.error e) held c') (ok : ∀ a, Safe i R (k a) held c) :
    Safe i R (p >>= k) held c := by
  obtain ⟨f, hp, hquiet⟩ := quiet
  refine step_bind hp (fun e c' found _ c'' found' => fail e c'' (found.trans found'))
    (fun e c' _ => hquiet c') fun a c' found orderly _ => ?_
  obtain ⟨store, number⟩ := hquiet c'
  exact ⟨does_of_eq store number, orderly.of_eq (by rw [store]) number,
    (ok a).sees (found.trans (finds_of_eq store number))⟩

/-- A computation takes no step. -/
theorem ofExcept_bind {r : Except Failure α}
    (fail : ∀ e c', Finds i held c c' → R (.error e) held c') (ok : ∀ a, Safe i R (k a) held c) :
    Safe i R (ofExcept r >>= k) held c := by
  cases r with
  | ok a => exact ok a
  | error e => exact fun c' found _ => fail e c' found

/-- What follows a look at the records may rely on what was seen. -/
theorem query_bind {f : Store → Except Failure α}
    (fail : ∀ e c', Finds i held c c' → R (.error e) held c')
    (ok : ∀ a c', Finds i held c c' → c'.Orderly → f c'.store = .ok a → Safe i R (k a) held c') :
    Safe i R (query f >>= k) held c :=
  step_bind (f := fun c => (f c.store, c)) rfl
    (fun e _ found _ c'' found' => fail e c'' (found.trans found')) (fun _ _ _ => ⟨rfl, rfl⟩)
    fun a c' found orderly ha => ⟨does_of_eq rfl rfl, orderly, ok a c' found orderly ha⟩

theorem view_bind {f : Store → α}
    (ok : ∀ c', Finds i held c c' → c'.Orderly → Safe i R (k (f c'.store)) held c') :
    Safe i R (view f >>= k) held c := by
  intro c' found orderly
  exact ⟨does_of_eq rfl rfl, orderly, ok c' found orderly⟩

/-- A change of the records that cannot fail. -/
theorem change_bind {f : Store → Store} {k : Unit → Activity ω β}
    (ok : ∀ c', Finds i held c c' → c'.Orderly →
      Does i held c' { c' with store := f c'.store } ∧
      Orderly { c' with store := f c'.store } ∧
      Safe i R (k ()) held { c' with store := f c'.store }) :
    Safe i R (change f >>= k) held c := ok

/-- A change of the records that may fail. -/
theorem commit_bind {f : Store → Except Failure (α × Store)}
    (fail : ∀ e c', Finds i held c c' → f c'.store = .error e →
      ∀ c'', Finds i held c' c'' → R (.error e) held c'')
    (ok : ∀ a s c', Finds i held c c' → c'.Orderly → f c'.store = .ok (a, s) →
      Does i held c' { c' with store := s } ∧ Orderly { c' with store := s } ∧
      Safe i R (k a) held { c' with store := s }) :
    Safe i R (commit f >>= k) held c := by
  refine step_bind rfl (fun e c' found he c'' found' => ?_) (fun e c' he => ?_)
    fun a c' found orderly ha => ?_
  · refine fail e c' found ?_ c'' found'
    cases hf : f c'.store with
    | ok result => rw [hf] at he; cases he
    | error e' => rw [hf] at he; rw [Except.error.inj he]
  · split at he
    · cases he
    · exact ⟨rfl, rfl⟩
  · cases hf : f c'.store with
    | ok result =>
      rw [hf] at ha
      exact Except.ok.inj ha ▸ ok result.1 result.2 c' found orderly hf
    | error e =>
      rw [hf] at ha
      cases ha

theorem update_bind {f : Store → Except Failure Store} {k : Unit → Activity ω β}
    (fail : ∀ e c', Finds i held c c' → R (.error e) held c')
    (ok : ∀ s c', Finds i held c c' → c'.Orderly → f c'.store = .ok s →
      Does i held c' { c' with store := s } ∧ Orderly { c' with store := s } ∧
      Safe i R (k ()) held { c' with store := s }) :
    Safe i R (update f >>= k) held c := by
  refine commit_bind (fun e c' found _ c'' found' => fail e c'' (found.trans found'))
    fun a s c' found orderly hs => ?_
  cases hf : f c'.store with
  | ok s' =>
    rw [hf] at hs
    obtain ⟨-, rfl⟩ := Prod.mk.inj (Except.ok.inj hs)
    exact ok s' c' found orderly hf
  | error e =>
    rw [hf] at hs
    cases hs

/-- An activity under the lock may rely on settled aggregates, and has to leave them settled. -/
theorem exclusively {p : Activity ω α}
    (h : ∀ c', Finds i false c c' → c'.Orderly → c'.Settled →
      Safe i (conduct ω).Restored p true c') :
    Safe i Discipline.Unheld (Activity.exclusively p) false c :=
  Discipline.Safe.exclusively h

end Activity.Safe

end ContractFuzz
