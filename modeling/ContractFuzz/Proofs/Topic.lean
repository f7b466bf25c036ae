import ContractFuzz.Topic
/-!
# Operations on topics

What every operation on a topic does to the record of all events, to the subscriber that it is
about, and to the others.

## Main definitions

* `Topic.IsLive` : a subscriber that has joined and not left.

## Main results

* `Topic.receive_cases` : all that receiving can do.
-/

namespace ContractFuzz

namespace Topic

variable {ε : Type} {t : Topic ε} {j k n : Nat} {e : ε}

/-- The subscriber has joined and not left. -/
def IsLive (t : Topic ε) (subscriber : Nat) : Prop :=
  ∃ s, t.subscribers[subscriber]? = some s ∧ s.live = true

theorem isLive_of_getElem? (present : t.subscribers[k]? = some ⟨n, true⟩) : t.IsLive k :=
  ⟨_, present, rfl⟩

theorem IsLive.lt_length (h : t.IsLive k) : k < t.subscribers.length := by
  obtain ⟨s, found, -⟩ := h
  exact (List.getElem?_eq_some_iff.mp found).1

/-! ### Receiving -/

/-- A subscriber receives the event at its place, and moves to the next one. -/
theorem receive_event (present : t.subscribers[k]? = some ⟨n, true⟩)
    (next : t.published[n]? = some e) :
    t.receive k = (.event e, { t with subscribers := t.subscribers.set k ⟨n + 1, true⟩ }) := by
  simp [receive, present, next]

/-- A subscriber that has received everything stays at its place. -/
theorem receive_nothing (present : t.subscribers[k]? = some ⟨n, true⟩)
    (next : t.published[n]? = none) : t.receive k = (.nothing, t) := by
  simp [receive, present, next]

/-- One who has left, or never joined, receives nothing more. -/
theorem receive_left (h : ¬ t.IsLive k) : t.receive k = (.left, t) := by
  unfold receive
  split
  · next s found =>
    have gone : s.live = false := Bool.eq_false_iff.mpr fun live => h ⟨s, found, live⟩
    simp [gone]
  · rfl

/-- All that receiving can do. -/
theorem receive_cases (t : Topic ε) (k : Nat) :
    (∃ n e, t.subscribers[k]? = some ⟨n, true⟩ ∧ t.published[n]? = some e ∧
      t.receive k = (.event e, { t with subscribers := t.subscribers.set k ⟨n + 1, true⟩ })) ∨
    (∃ n, t.subscribers[k]? = some ⟨n, true⟩ ∧ t.published[n]? = none ∧
      t.receive k = (.nothing, t)) ∨
    (¬ t.IsLive k ∧ t.receive k = (.left, t)) := by
  by_cases live : t.IsLive k
  · obtain ⟨⟨n, -⟩, present, rfl⟩ := live
    cases next : t.published[n]? with
    | some e => exact .inl ⟨n, e, present, next, receive_event present next⟩
    | none => exact .inr (.inl ⟨n, present, next, receive_nothing present next⟩)
  · exact .inr (.inr ⟨live, receive_left live⟩)

/-- Receiving takes nothing from the record of all events. -/
@[simp] theorem published_receive (t : Topic ε) (subscriber : Nat) :
    (t.receive subscriber).2.published = t.published := by
  obtain ⟨n, e, -, -, h⟩ | ⟨n, -, -, h⟩ | ⟨-, h⟩ := t.receive_cases subscriber <;> rw [h]

@[simp] theorem length_subscribers_receive (t : Topic ε) (subscriber : Nat) :
    (t.receive subscriber).2.subscribers.length = t.subscribers.length := by
  obtain ⟨n, e, -, -, h⟩ | ⟨n, -, -, h⟩ | ⟨-, h⟩ := t.receive_cases subscriber <;> simp [h]

/-- Receiving concerns one subscriber only. -/
theorem getElem?_subscribers_receive_of_ne (hne : j ≠ k) :
    (t.receive j).2.subscribers[k]? = t.subscribers[k]? := by
  obtain ⟨n, e, -, -, h⟩ | ⟨n, -, -, h⟩ | ⟨-, h⟩ := t.receive_cases j <;> simp [h, hne]

/-- What is received was published. -/
theorem mem_published_of_receive {t : Topic ε} {subscriber : Nat} {e : ε}
    (h : (t.receive subscriber).1 = .event e) : e ∈ t.published := by
  obtain ⟨n, x, -, next, hx⟩ | ⟨n, -, -, hx⟩ | ⟨-, hx⟩ := t.receive_cases subscriber <;>
    rw [hx] at h <;> cases h
  exact List.mem_of_getElem? next

/-! ### Publishing and leaving -/

@[simp] theorem published_publish (t : Topic ε) (e : ε) :
    (t.publish e).2.published = t.published ++ [e] := rfl

theorem unsubscribe_of_some {s : Subscriber} (found : t.subscribers[k]? = some s) :
    t.unsubscribe k =
      (s.live, { t with subscribers := t.subscribers.set k { s with live := false } }) := by
  simp [unsubscribe, found]

theorem unsubscribe_of_none (found : t.subscribers[k]? = none) : t.unsubscribe k = (false, t) := by
  simp [unsubscribe, found]

@[simp] theorem published_unsubscribe (t : Topic ε) (subscriber : Nat) :
    (t.unsubscribe subscriber).2.published = t.published := by
  cases found : t.subscribers[subscriber]? with
  | some s => rw [unsubscribe_of_some found]
  | none => rw [unsubscribe_of_none found]

@[simp] theorem length_subscribers_unsubscribe (t : Topic ε) (subscriber : Nat) :
    (t.unsubscribe subscriber).2.subscribers.length = t.subscribers.length := by
  cases found : t.subscribers[subscriber]? with
  | some s => simp [unsubscribe_of_some found]
  | none => rw [unsubscribe_of_none found]

/-- Leaving concerns one subscriber only. -/
theorem getElem?_subscribers_unsubscribe_of_ne (hne : j ≠ k) :
    (t.unsubscribe j).2.subscribers[k]? = t.subscribers[k]? := by
  cases found : t.subscribers[j]? with
  | some s => simp [unsubscribe_of_some found, hne]
  | none => rw [unsubscribe_of_none found]

/-! ### Who is there -/

@[simp] theorem isLive_publish : (t.publish e).2.IsLive k ↔ t.IsLive k := Iff.rfl

/-- The new subscriber is there, with the others. -/
@[simp] theorem isLive_subscribe :
    t.subscribe.2.IsLive k ↔ t.IsLive k ∨ t.subscribers.length = k := by
  rcases Nat.lt_trichotomy k t.subscribers.length with lt | rfl | gt
  · simp [subscribe, IsLive, List.getElem?_append_left lt, Nat.ne_of_gt lt]
  · simp [subscribe, IsLive]
  · have absent : (t.subscribers ++ [⟨t.published.length, true⟩])[k]? = none :=
      List.getElem?_eq_none (by simpa using Nat.succ_le_of_lt gt)
    simp [subscribe, IsLive, absent, Nat.ne_of_lt gt, Nat.le_of_lt gt]

/-- Nobody leaves by receiving. -/
@[simp] theorem isLive_receive : (t.receive j).2.IsLive k ↔ t.IsLive k := by
  by_cases hj : j = k
  · subst hj
    obtain ⟨n, e, present, -, h⟩ | ⟨n, -, -, h⟩ | ⟨-, h⟩ := t.receive_cases j
    · have live := isLive_of_getElem? present
      rw [h, iff_true_right live]
      exact ⟨_, List.getElem?_set_self live.lt_length, rfl⟩
    · rw [h]
    · rw [h]
  · simp only [IsLive, getElem?_subscribers_receive_of_ne hj]

/-- One who leaves is no longer there. -/
@[simp] theorem isLive_unsubscribe :
    (t.unsubscribe j).2.IsLive k ↔ t.IsLive k ∧ j ≠ k := by
  by_cases hj : j = k
  · subst hj
    cases found : t.subscribers[j]? with
    | some s =>
      have lt := (List.getElem?_eq_some_iff.mp found).1
      simp [unsubscribe_of_some found, IsLive, lt]
    | none => simp [unsubscribe_of_none found, IsLive, found]
  · simp [IsLive, getElem?_subscribers_unsubscribe_of_ne hj, hj]

end Topic

end ContractFuzz
