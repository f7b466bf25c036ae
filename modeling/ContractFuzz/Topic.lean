/-!
# Topics

A channel between those who publish events and those who subscribe to them. The topic keeps one
record of all events, and for every subscriber the place up to which it has received them.

## Main definitions

* `Topic`, `Subscriber`.
* `Topic.subscribe`, `Topic.publish`, `Topic.receive`, `Topic.unsubscribe`.
* `Topic.pending`: what a subscriber has still to receive.
-/

namespace ContractFuzz

/-- A subscriber of a topic. -/
structure Subscriber where
  /-- The number of events that were published before the one to receive next. -/
  position : Nat
  /-- Whether it is still subscribed. -/
  live : Bool
deriving DecidableEq

/-- A channel for events of one type. -/
structure Topic (ε : Type) where
  /-- All events, in the order of publication. -/
  published : List ε
  /-- All subscribers, in the order of subscription. -/
  subscribers : List Subscriber

/-- What a subscriber gets when it asks for an event. -/
inductive Reception (ε : Type) where
  /-- The event to receive next. -/
  | event (e : ε)
  /-- There is none at the moment. -/
  | nothing
  /-- The subscriber has left. -/
  | left
deriving DecidableEq

namespace Topic

variable {ε : Type}

/-- A topic without events and subscribers. -/
def empty : Topic ε := ⟨[], []⟩

instance : Inhabited (Topic ε) := ⟨empty⟩

/-- Join the topic: events published from now on will be received. The answer is the number of
the new subscriber. -/
def subscribe (t : Topic ε) : Nat × Topic ε :=
  (t.subscribers.length,
    { t with subscribers := t.subscribers ++ [⟨t.published.length, true⟩] })

/-- The number of subscribers that have not left. -/
def liveCount (t : Topic ε) : Nat := t.subscribers.countP Subscriber.live

/-- Publish an event to all who have not left. The answer is their number. -/
def publish (e : ε) (t : Topic ε) : Nat × Topic ε :=
  (t.liveCount, { t with published := t.published ++ [e] })

/-- What a subscriber has still to receive, the next event first. -/
def pending (t : Topic ε) (subscriber : Nat) : List ε :=
  match t.subscribers[subscriber]? with
  | some s => if s.live then t.published.drop s.position else []
  | none => []

/-- Receive the next event, if there is one. -/
def receive (t : Topic ε) (subscriber : Nat) : Reception ε × Topic ε :=
  match t.subscribers[subscriber]? with
  | some s =>
    if s.live then
      match t.published[s.position]? with
      | some e =>
        (.event e, { t with
          subscribers := t.subscribers.set subscriber { s with position := s.position + 1 } })
      | none => (.nothing, t)
    else (.left, t)
  | none => (.left, t)

/-- Leave the topic. The answer tells whether the subscriber was there. -/
def unsubscribe (t : Topic ε) (subscriber : Nat) : Bool × Topic ε :=
  match t.subscribers[subscriber]? with
  | some s =>
    (s.live, { t with subscribers := t.subscribers.set subscriber { s with live := false } })
  | none => (false, t)

end Topic

end ContractFuzz
