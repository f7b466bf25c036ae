import ContractFuzz.Campaign.State
import ContractFuzz.Proofs.Topic
/-!
# Performing an activity

The result of an activity that nothing disturbs, and the state in which it leaves the campaigns:
one equation for each kind of step, and one for putting activities together.

## Main definitions

* `Activity.perform` : the result of an activity and the state after it.
-/

namespace ContractFuzz

variable {ω : Type} {α β : Type}

/-- The result of an activity that runs alone, and the state after it. -/
def Activity.perform (p : Activity ω α) (c : Campaign ω) : Except Failure α × Campaign ω :=
  Steps.run (ExceptT.run p) c

namespace Activity

variable (c : Campaign ω)

@[simp] theorem perform_pure (a : α) : perform (pure a : Activity ω α) c = (.ok a, c) := rfl

@[simp] theorem perform_bind (p : Activity ω α) (f : α → Activity ω β) :
    perform (p >>= f) c = match perform p c with
      | (.ok a, c') => perform (f a) c'
      | (.error e, c') => (.error e, c') := by
  have hbind : ExceptT.run (p >>= f) = (ExceptT.run p) >>= ExceptT.bindCont f := rfl
  rw [perform, hbind, Steps.run_bind]
  change (ExceptT.bindCont f (perform p c).1).run (perform p c).2 = _
  rcases perform p c with ⟨r, c'⟩
  cases r with
  | ok a => rfl
  | error e => rfl

theorem perform_bind_of_ok {c c' : Campaign ω} {p : Activity ω α} {f : α → Activity ω β} {a : α}
    (h : perform p c = (.ok a, c')) : perform (p >>= f) c = perform (f a) c' := by
  rw [perform_bind, h]

theorem perform_bind_of_error {c c' : Campaign ω} {p : Activity ω α} {f : α → Activity ω β}
    {e : Failure} (h : perform p c = (.error e, c')) : perform (p >>= f) c = (.error e, c') := by
  rw [perform_bind, h]

@[simp] theorem perform_ofExcept (r : Except Failure α) : perform (ofExcept r) c = (r, c) := rfl

@[simp] theorem perform_query (f : Store → Except Failure α) :
    perform (query f) c = (f c.store, c) := rfl

@[simp] theorem perform_view (f : Store → α) : perform (view f) c = (.ok (f c.store), c) := rfl

@[simp] theorem perform_change (f : Store → Store) :
    perform (change f) c = (.ok (), { c with store := f c.store }) := rfl

theorem perform_commit (f : Store → Except Failure (α × Store)) :
    perform (commit f) c = match f c.store with
      | .ok (a, s) => (.ok a, { c with store := s })
      | .error e => (.error e, c) := rfl

theorem perform_update (f : Store → Except Failure Store) :
    perform (update f) c = match f c.store with
      | .ok s => (.ok (), { c with store := s })
      | .error e => (.error e, c) := by
  rw [update, perform_commit]
  cases f c.store <;> rfl

theorem perform_commit_of_ok {c : Campaign ω} {f : Store → Except Failure (α × Store)} {a : α}
    {s : Store} (h : f c.store = .ok (a, s)) :
    perform (commit f) c = (.ok a, { c with store := s }) := by
  rw [perform_commit, h]

theorem perform_update_of_ok {c : Campaign ω} {f : Store → Except Failure Store} {s : Store}
    (h : f c.store = .ok s) : perform (update f) c = (.ok (), { c with store := s }) := by
  rw [perform_update, h]

@[simp] theorem perform_atomically (f : Campaign ω → α × Campaign ω) :
    perform (atomically f) c = (.ok (f c).1, (f c).2) := rfl

theorem perform_atomically_of_eq {c c' : Campaign ω} {f : Campaign ω → α × Campaign ω} {a : α}
    (h : f c = (a, c')) : perform (atomically f) c = (.ok a, c') := by
  rw [perform_atomically, h]

@[simp] theorem perform_publish (l : Listener) (task : TaskId) :
    perform (publish l task) c =
      (.ok (c.topic l).liveCount, c.setTopic l ((c.topic l).publish task).2) := rfl

@[simp] theorem perform_warn (w : Warning) :
    perform (warn w) c = (.ok (), { c with log := c.log ++ [w] }) := rfl

@[simp] theorem perform_clock (e : Engine ω) :
    perform (clock e) c = (.ok (e.services.clock c.world), c) := rfl

@[simp] theorem perform_now (e : Engine ω) :
    perform (now e) c = (.ok (e.services.clock c.world 0), c) := rfl

@[simp] theorem perform_newFunctions (count : Nat) :
    perform (newFunctions count) c =
      (.ok c.nextFunction, { c with nextFunction := c.nextFunction + count }) := rfl

@[simp] theorem perform_newTransactions (count : Nat) :
    perform (newTransactions count) c =
      (.ok c.nextTransaction, { c with nextTransaction := c.nextTransaction + count }) := rfl

@[simp] theorem perform_external (service : ExternalService)
    (ask : ω → Except String α × ω) :
    perform (external service ask) c =
      ((ask c.world).1.mapError (.external service), { c with world := (ask c.world).2 }) := rfl

@[simp] theorem perform_drawAsDeployer (d : TryDraw α) :
    perform (drawAsDeployer d) c =
      ((d.run c.deployerSource).1, { c with deployerSource := (d.run c.deployerSource).2 }) := rfl

@[simp] theorem perform_drawAsFuzzer (d : Store → TryDraw α) :
    perform (drawAsFuzzer d) c =
      (((d c.store).run c.fuzzerSource).1,
        { c with fuzzerSource := ((d c.store).run c.fuzzerSource).2 }) := rfl

@[simp] theorem perform_exclusively (p : Activity ω α) : perform (exclusively p) c = perform p c :=
  Steps.run_exclusively _ _

theorem perform_external_of_ok {c : Campaign ω} {service : ExternalService}
    {ask : ω → Except String α × ω} {a : α} {world : ω} (h : ask c.world = (.ok a, world)) :
    perform (external service ask) c = (.ok a, { c with world }) := by
  rw [perform_external, h]
  rfl

theorem perform_external_of_error {c : Campaign ω} {service : ExternalService}
    {ask : ω → Except String α × ω} {reason : String} {world : ω}
    (h : ask c.world = (.error reason, world)) :
    perform (external service ask) c = (.error (.external service reason), { c with world }) := by
  rw [perform_external, h]
  rfl

theorem perform_drawAsDeployer_of_eq {c : Campaign ω} {d : TryDraw α} {r : Except Failure α}
    {source : Source} (h : d.run c.deployerSource = (r, source)) :
    perform (drawAsDeployer d) c = (r, { c with deployerSource := source }) := by
  rw [perform_drawAsDeployer, h]

theorem perform_drawAsFuzzer_of_eq {c : Campaign ω} {d : Store → TryDraw α} {r : Except Failure α}
    {source : Source} (h : (d c.store).run c.fuzzerSource = (r, source)) :
    perform (drawAsFuzzer d) c = (r, { c with fuzzerSource := source }) := by
  rw [perform_drawAsFuzzer, h]

/-- Records of the log are written one after the other. -/
theorem perform_forM_warn (warnings : List Warning) :
    perform (warnings.forM warn) c = (.ok (), { c with log := c.log ++ warnings }) := by
  induction warnings generalizing c with
  | nil => rw [List.append_nil]; rfl
  | cons w rest ih =>
    rw [List.forM, perform_bind_of_ok (perform_warn c w), ih, List.append_assoc]
    rfl

/-- A result that is made of another one leaves no trace. -/
theorem perform_bind_pure_snd (p : Activity ω α) (f : α → β) :
    (perform (p >>= fun a => pure (f a)) c).2 = (perform p c).2 := by
  rw [perform_bind]
  rcases perform p c with ⟨r, c'⟩
  cases r <;> rfl

/-! ### What follows a look at the records -/

variable {c}

theorem perform_query_bind_of_ok {f : Store → Except Failure α} {k : α → Activity ω β} {a : α}
    (h : f c.store = .ok a) : perform (query f >>= k) c = perform (k a) c :=
  perform_bind_of_ok (congrArg (·, c) h)

theorem perform_query_bind_of_error {f : Store → Except Failure α} {k : α → Activity ω β}
    {e : Failure} (h : f c.store = .error e) : perform (query f >>= k) c = (.error e, c) :=
  perform_bind_of_error (congrArg (·, c) h)

theorem perform_view_bind {f : Store → α} {k : α → Activity ω β} :
    perform (view f >>= k) c = perform (k (f c.store)) c :=
  perform_bind_of_ok rfl

theorem perform_ofExcept_bind_of_ok {r : Except Failure α} {k : α → Activity ω β} {a : α}
    (h : r = .ok a) : perform (ofExcept r >>= k) c = perform (k a) c :=
  perform_bind_of_ok (congrArg (·, c) h)

theorem perform_ofExcept_bind_of_error {r : Except Failure α} {k : α → Activity ω β}
    {e : Failure} (h : r = .error e) : perform (ofExcept r >>= k) c = (.error e, c) :=
  perform_bind_of_error (congrArg (·, c) h)

end Activity

end ContractFuzz
