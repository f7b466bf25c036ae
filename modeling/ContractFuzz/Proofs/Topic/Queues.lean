import ContractFuzz.Proofs.Topic.History
/-!
# Topics by queues

A topic can also be kept by queues: one channel for each subscriber, with the sending end held by
the topic and the receiving end by the subscriber. Publishing goes through the sending ends once,
puts the event into every queue whose receiving end is held, and gives up the sending ends of the
others. No record of all events is needed.

Both give the same answers to all steps, and what waits in the queue of a subscriber is what is
pending for it.

## Main definitions

* `Channel` : a queue between a topic and one subscriber.
* `QueuedTopic` : a topic that is kept by queues.
* `QueuedTopic.deliver` : the pass through the sending ends.

## Main results

* `QueuedTopic.history_eq`, `QueuedTopic.Represents.waiting` : queues and the record of all events
  agree.
* `Topic.history_exact` : what the steps on a topic lead to.
-/

namespace ContractFuzz

/-- A queue between a topic and one subscriber. -/
structure Channel (ε : Type) where
  /-- The events that were sent and not received, the oldest first. -/
  waiting : List ε
  /-- Whether the subscriber holds the receiving end. -/
  isOpen : Bool
deriving DecidableEq

/-- A topic that is kept by queues. -/
structure QueuedTopic (ε : Type) where
  /-- The channels of all subscribers, in the order of subscription. -/
  channels : List (Channel ε)
  /-- The subscribers of whose channels the topic holds the sending ends. -/
  senders : List Nat
deriving DecidableEq

namespace Channel

variable {ε : Type}

/-- Send an event, unless nobody can receive it. -/
def send (e : ε) (c : Channel ε) : Option (Channel ε) :=
  if c.isOpen then some { c with waiting := c.waiting ++ [e] } else none

/-- The channel after an event was sent, or not. -/
def sent (e : ε) (c : Channel ε) : Channel ε := (c.send e).getD c

end Channel

namespace QueuedTopic

open Topic (Step Answer)

variable {ε : Type}

/-- A topic without subscribers. -/
def empty : QueuedTopic ε := ⟨[], []⟩

/-- Whether a subscriber holds the receiving end of its channel. -/
def isOpen (channels : List (Channel ε)) (subscriber : Nat) : Bool :=
  channels[subscriber]?.any Channel.isOpen

/-- Go through sending ends, send an event through each of them, and keep those where this
succeeds. -/
def deliver (e : ε) : List Nat → List (Channel ε) → List Nat × List (Channel ε)
  | [], channels => ([], channels)
  | k :: senders, channels =>
    match channels[k]?.bind (Channel.send e) with
    | some c =>
      let (kept, channels) := deliver e senders (channels.set k c)
      (k :: kept, channels)
    | none => deliver e senders channels

/-- What waits in the queue of a subscriber. -/
def waiting (q : QueuedTopic ε) (subscriber : Nat) : List ε :=
  (q.channels[subscriber]?.map Channel.waiting).getD []

/-- The next event in the queue of a subscriber is taken out. -/
def receive (q : QueuedTopic ε) (subscriber : Nat) : Reception ε × QueuedTopic ε :=
  match q.channels[subscriber]? with
  | some ⟨e :: rest, true⟩ =>
    (.event e, { q with channels := q.channels.set subscriber ⟨rest, true⟩ })
  | some ⟨[], true⟩ => (.nothing, q)
  | some ⟨_, false⟩ | none => (.left, q)

/-- A subscriber gives up the receiving end, and what waits there. -/
def unsubscribe (q : QueuedTopic ε) (subscriber : Nat) : Bool × QueuedTopic ε :=
  (isOpen q.channels subscriber,
    { q with channels := q.channels.set subscriber ⟨[], false⟩ })

/-- One step. Publishing and counting give up the sending ends of those who have left. -/
def perform (q : QueuedTopic ε) : Step ε → Answer ε × QueuedTopic ε
  | .subscribe =>
    (.joined q.channels.length, ⟨q.channels ++ [⟨[], true⟩], q.senders ++ [q.channels.length]⟩)
  | .publish e =>
    let (kept, channels) := deliver e q.senders q.channels
    (.live kept.length, ⟨channels, kept⟩)
  | .count =>
    let kept := q.senders.filter (isOpen q.channels)
    (.live kept.length, { q with senders := kept })
  | .receive k => (.reception (q.receive k).1, (q.receive k).2)
  | .unsubscribe k => (.departure (q.unsubscribe k).1, (q.unsubscribe k).2)

/-- A new topic after some steps. -/
def after (steps : List (Step ε)) : QueuedTopic ε := Topic.stateAfter perform empty steps

/-- The steps with the answers that a new topic gives. -/
def history (steps : List (Step ε)) : List (Step ε × Answer ε) :=
  Topic.transcript perform empty steps

variable {channels : List (Channel ε)} {senders : List Nat} {e : ε} {k : Nat}

/-! ### The pass through the sending ends -/

/-- An event that can be sent arrives, and the channel stays open. -/
theorem send_of_eq_some {c : Channel ε} (h : channels[k]?.bind (Channel.send e) = some c) :
    k < channels.length ∧ isOpen channels k = true ∧ c.isOpen = true ∧
      channels[k]?.map (Channel.sent e) = some c := by
  obtain ⟨c', found, hsend⟩ := Option.bind_eq_some_iff.mp h
  have hopen : c'.isOpen = true := by
    by_contra hclosed
    simp [Channel.send, hclosed] at hsend
  simp only [Channel.send, hopen, if_true, Option.some.injEq] at hsend
  subst hsend
  refine ⟨(List.getElem?_eq_some_iff.mp found).1, ?_⟩
  simp [isOpen, found, hopen, Channel.sent, Channel.send]

/-- An event that cannot be sent changes nothing. -/
theorem send_of_eq_none (h : channels[k]?.bind (Channel.send e) = none) :
    isOpen channels k = false ∧ channels[k]?.map (Channel.sent e) = channels[k]? := by
  cases found : channels[k]? with
  | none => simp [isOpen, found]
  | some c =>
    have hsend : c.send e = none := by simpa [found] using h
    have hclosed : c.isOpen = false := by simpa [Channel.send] using hsend
    simp [isOpen, found, hclosed, Channel.sent, hsend]

/-- Sending opens and closes nothing. -/
theorem isOpen_set_of_send {c : Channel ε} (h : channels[k]?.bind (Channel.send e) = some c) :
    isOpen (channels.set k c) = isOpen channels := by
  obtain ⟨lt, hopen, hc, -⟩ := send_of_eq_some h
  funext j
  by_cases hj : k = j
  · subst hj
    rw [hopen, isOpen, List.getElem?_set_self lt, Option.any_some, hc]
  · rw [isOpen, isOpen, List.getElem?_set_ne hj]

/-- The sending ends that are kept are those of the subscribers that have not left. -/
theorem deliver_fst (e : ε) (senders : List Nat) (channels : List (Channel ε)) :
    (deliver e senders channels).1 = senders.filter (isOpen channels) := by
  induction senders generalizing channels with
  | nil => rfl
  | cons j senders ih =>
    rw [deliver]
    split
    · next c h => simp [ih, isOpen_set_of_send h, (send_of_eq_some h).2.1]
    · next h => simp [ih, (send_of_eq_none h).1]

/-- Every open channel whose sending end is held gets the event, once. -/
theorem getElem?_deliver (nodup : senders.Nodup) :
    (deliver e senders channels).2[k]? =
      if k ∈ senders then channels[k]?.map (Channel.sent e) else channels[k]? := by
  induction senders generalizing channels with
  | nil => rfl
  | cons j senders ih =>
    obtain ⟨hj, nodup⟩ := List.nodup_cons.mp nodup
    rw [deliver]
    split
    · next c h =>
      obtain ⟨lt, -, -, hc⟩ := send_of_eq_some h
      rw [ih nodup]
      by_cases hk : j = k
      · subst hk
        rw [if_neg hj, if_pos List.mem_cons_self, hc, List.getElem?_set_self lt]
      · simp [List.getElem?_set_ne hk, Ne.symm hk]
    · next h =>
      obtain ⟨-, hsame⟩ := send_of_eq_none h
      rw [ih nodup]
      by_cases hk : j = k
      · subst hk
        rw [if_neg hj, if_pos List.mem_cons_self, hsame]
      · simp [Ne.symm hk]

/-! ### Queues and the record of all events -/

/-- The channel of a subscriber, as the record of all events has it. -/
def channelOf (published : List ε) (s : Subscriber) : Channel ε :=
  if s.live then ⟨published.drop s.position, true⟩ else ⟨[], false⟩

theorem sent_channelOf {published : List ε} {s : Subscriber}
    (h : s.position ≤ published.length) :
    (channelOf published s).sent e = channelOf (published ++ [e]) s := by
  cases hlive : s.live <;>
    simp [channelOf, Channel.sent, Channel.send, hlive, List.drop_append_of_le_length h]

/-- The queues hold what the record of all events has for every subscriber. -/
structure Represents (q : QueuedTopic ε) (t : Topic ε) : Prop where
  /-- Every channel is that of its subscriber. -/
  channels_eq : q.channels = t.subscribers.map (channelOf t.published)
  /-- Nobody is beyond the record. -/
  le_length : ∀ s ∈ t.subscribers, s.position ≤ t.published.length
  /-- The sending ends are those of some of the channels, in order. -/
  sublist : q.senders.Sublist (List.range q.channels.length)
  /-- The sending ends of those who have not left are held. -/
  held : ∀ k, t.IsLive k → k ∈ q.senders

variable {q : QueuedTopic ε} {t : Topic ε}

theorem represents_empty : (empty : QueuedTopic ε).Represents .empty where
  channels_eq := rfl
  le_length _ hs := absurd hs List.not_mem_nil
  sublist := .slnil
  held _ live := absurd live.lt_length (Nat.not_lt_zero _)

theorem Represents.getElem?_channels (h : q.Represents t) (k : Nat) :
    q.channels[k]? = t.subscribers[k]?.map (channelOf t.published) := by
  rw [h.channels_eq, List.getElem?_map]

theorem Represents.isOpen_iff (h : q.Represents t) : isOpen q.channels k = true ↔ t.IsLive k := by
  rw [isOpen, h.getElem?_channels, Topic.IsLive]
  cases t.subscribers[k]? with
  | none => simp
  | some s => cases hlive : s.live <;> simp [channelOf, hlive]

/-- What waits for a subscriber is what is pending for it. -/
theorem Represents.waiting (h : q.Represents t) (k : Nat) : q.waiting k = t.pending k := by
  rw [QueuedTopic.waiting, Topic.pending, h.getElem?_channels]
  cases t.subscribers[k]? with
  | none => rfl
  | some s => cases hlive : s.live <;> simp [channelOf, hlive]

/-- The sending ends of all who have not left are kept, and no others. -/
theorem Represents.length_filter_senders (h : q.Represents t) :
    (q.senders.filter (isOpen q.channels)).length = t.liveCount := by
  refine Topic.length_eq_liveCount ((List.nodup_range.sublist h.sublist).filter _) fun k => ?_
  rw [List.mem_filter, h.isOpen_iff]
  exact and_iff_right_of_imp (h.held k)

/-- Sending ends of those who have left may be given up. -/
theorem Represents.filter_senders (h : q.Represents t) :
    Represents { q with senders := q.senders.filter (isOpen q.channels) } t where
  channels_eq := h.channels_eq
  le_length := h.le_length
  sublist := List.filter_sublist.trans h.sublist
  held k live := List.mem_filter.mpr ⟨h.held k live, h.isOpen_iff.mpr live⟩

/-- A channel changes with its subscriber. -/
theorem Represents.set (h : q.Represents t) {s : Subscriber} (s' : Subscriber)
    (found : t.subscribers[k]? = some s) (le_length : s'.position ≤ t.published.length)
    (stays : s'.live = true → s.live = true) :
    Represents { q with channels := q.channels.set k (channelOf t.published s') }
      { t with subscribers := t.subscribers.set k s' } where
  channels_eq := by simp [h.channels_eq, List.map_set]
  le_length x hx := by
    rcases List.mem_or_eq_of_mem_set hx with hx | rfl
    · exact h.le_length x hx
    · exact le_length
  sublist := by simpa using h.sublist
  held j := by
    rintro ⟨x, hx, hlive⟩
    apply h.held
    by_cases hj : k = j
    · subst hj
      have lt : k < t.subscribers.length := (List.getElem?_eq_some_iff.mp found).1
      obtain rfl : s' = x := by simpa [lt] using hx
      exact ⟨s, found, stays hlive⟩
    · exact ⟨x, by simpa [hj] using hx, hlive⟩

theorem Represents.subscribe (h : q.Represents t) :
    Represents ⟨q.channels ++ [⟨[], true⟩], q.senders ++ [q.channels.length]⟩ t.subscribe.2 where
  channels_eq := by simp [Topic.subscribe, h.channels_eq, channelOf]
  le_length s hs := by
    rcases List.mem_append.mp hs with hs | hs
    · exact h.le_length s hs
    · obtain rfl := List.mem_singleton.mp hs
      exact le_rfl
  sublist := by
    rw [List.length_append, List.length_singleton, List.range_succ]
    exact h.sublist.append (List.Sublist.refl _)
  held k hk := by
    rcases Topic.isLive_subscribe.mp hk with hk | rfl
    · exact List.mem_append_left _ (h.held k hk)
    · simp [h.channels_eq]

/-- The queue of every subscriber that has not left gets the event. -/
theorem Represents.channels_deliver (h : q.Represents t) (e : ε) :
    (deliver e q.senders q.channels).2 =
      t.subscribers.map (channelOf (t.published ++ [e])) := by
  refine List.ext_getElem? fun k => ?_
  rw [getElem?_deliver (List.nodup_range.sublist h.sublist), h.getElem?_channels,
    List.getElem?_map]
  cases found : t.subscribers[k]? with
  | none => simp
  | some s =>
    by_cases hlive : s.live = true
    · rw [if_pos (h.held k ⟨s, found, hlive⟩)]
      exact congrArg some (sent_channelOf (h.le_length s (List.mem_of_getElem? found)))
    · simp [channelOf, hlive, Channel.sent, Channel.send]

/-- Publishing. -/
theorem Represents.publish (h : q.Represents t) (e : ε) :
    Represents ⟨(deliver e q.senders q.channels).2, q.senders.filter (isOpen q.channels)⟩
      (t.publish e).2 where
  channels_eq := h.channels_deliver e
  le_length s hs := (h.le_length s hs).trans (by simp)
  sublist := by
    have hlength : (deliver e q.senders q.channels).2.length = q.channels.length := by
      rw [h.channels_deliver, h.channels_eq, List.length_map, List.length_map]
    rw [hlength]
    exact h.filter_senders.sublist
  held := h.filter_senders.held

theorem Represents.receive (h : q.Represents t) (k : Nat) :
    (q.receive k).1 = (t.receive k).1 ∧ (q.receive k).2.Represents (t.receive k).2 := by
  obtain ⟨n, e, present, next, received⟩ | ⟨n, present, next, received⟩ | ⟨absent, received⟩ :=
    t.receive_cases k
  · obtain ⟨lt, rfl⟩ := List.getElem?_eq_some_iff.mp next
    have channel : q.channels[k]? =
        some ⟨t.published[n] :: t.published.drop (n + 1), true⟩ := by
      rw [h.getElem?_channels, present, ← List.drop_eq_getElem_cons lt]
      rfl
    rw [received, QueuedTopic.receive, channel]
    exact ⟨rfl, h.set ⟨n + 1, true⟩ present lt fun _ => rfl⟩
  · have channel : q.channels[k]? = some ⟨[], true⟩ := by
      rw [h.getElem?_channels, present, Option.map_some, channelOf, if_pos rfl,
        List.drop_eq_nil_of_le (List.getElem?_eq_none_iff.mp next)]
    rw [received, QueuedTopic.receive, channel]
    exact ⟨rfl, h⟩
  · rw [received, QueuedTopic.receive]
    split
    · next channel => exact absurd (h.isOpen_iff.mp (by simp [isOpen, channel])) absent
    · next channel => exact absurd (h.isOpen_iff.mp (by simp [isOpen, channel])) absent
    · exact ⟨rfl, h⟩
    · exact ⟨rfl, h⟩

theorem Represents.unsubscribe (h : q.Represents t) (k : Nat) :
    (q.unsubscribe k).1 = (t.unsubscribe k).1 ∧
      (q.unsubscribe k).2.Represents (t.unsubscribe k).2 := by
  cases found : t.subscribers[k]? with
  | some s =>
    have channel : q.channels[k]? = some (channelOf t.published s) := by
      rw [h.getElem?_channels, found, Option.map_some]
    have le_length := h.le_length s (List.mem_of_getElem? found)
    rw [Topic.unsubscribe_of_some found]
    refine ⟨?_, h.set { s with live := false } found le_length nofun⟩
    cases hlive : s.live <;> simp [QueuedTopic.unsubscribe, isOpen, channel, channelOf, hlive]
  | none =>
    have channel : q.channels[k]? = none := by rw [h.getElem?_channels, found, Option.map_none]
    have same : q.channels.set k ⟨[], false⟩ = q.channels :=
      List.set_eq_of_length_le (List.getElem?_eq_none_iff.mp channel)
    rw [Topic.unsubscribe_of_none found, QueuedTopic.unsubscribe, same]
    exact ⟨by simp [isOpen, channel], h⟩

/-- Every step gives the same answer, and the queues hold what they should hold after it. -/
theorem Represents.perform (h : q.Represents t) (a : Step ε) :
    (q.perform a).1 = (t.perform a).1 ∧ (q.perform a).2.Represents (t.perform a).2 := by
  cases a with
  | subscribe =>
    have number : q.channels.length = t.subscribers.length := by rw [h.channels_eq, List.length_map]
    exact ⟨congrArg _ number, h.subscribe⟩
  | publish e =>
    have kept := deliver_fst e q.senders q.channels
    simp only [QueuedTopic.perform, kept, h.length_filter_senders]
    exact ⟨rfl, h.publish e⟩
  | count => exact ⟨congrArg _ h.length_filter_senders, h.filter_senders⟩
  | receive k => exact ⟨congrArg _ (h.receive k).1, (h.receive k).2⟩
  | unsubscribe k => exact ⟨congrArg _ (h.unsubscribe k).1, (h.unsubscribe k).2⟩

/-- The queues hold what is pending, whatever the steps were. -/
theorem represents_after (steps : List (Step ε)) : (after steps).Represents (Topic.after steps) :=
  Topic.related_stateAfter Represents (fun _ _ h a => (h.perform a).2) represents_empty steps

/-- The queues give the same answers to all steps. -/
theorem history_eq (steps : List (Step ε)) : history steps = Topic.history steps := by
  have same : (history steps).filterMap some = (Topic.history steps).filterMap some :=
    Topic.filterMap_transcript_eq Represents
      (fun _ _ h a => ⟨congrArg (fun answer => some (a, answer)) (h.perform a).1, (h.perform a).2⟩)
      represents_empty steps
  simpa only [List.filterMap_some] using same

end QueuedTopic

namespace Topic

variable {ε : Type}

/-- What the steps on a topic lead to.

The answers are those of queues that are filled and given up in one pass, and what is pending for
a subscriber is what waits in its queue. Who joins gets the next number, and as long as it does not
leave, what it has received, followed by what is pending, is what was published since, in order.
One who publishes or asks is told how many have joined and not left. Whether one subscriber leaves
makes no difference to what the others receive. -/
theorem history_exact (steps : List (Step ε)) :
    (QueuedTopic.history steps = history steps ∧
      ∀ k, (QueuedTopic.after steps).waiting k = (after steps).pending k) ∧
    (∀ before since, steps = before ++ .subscribe :: since →
      (history steps)[before.length]? = some (.subscribe, .joined (joins before)) ∧
        (.unsubscribe (joins before) ∉ since →
          receivedBy (joins before) (history steps) ++ (after steps).pending (joins before) =
            publishedIn since)) ∧
    (∀ before a later, steps = before ++ a :: later → (a = .count ∨ ∃ e, a = .publish e) →
      (history steps)[before.length]? = some (a, .live {k | Present k before}.ncard)) ∧
    ∀ before j later, steps = before ++ .unsubscribe j :: later → ∀ k ≠ j,
      receptions k (history steps) = receptions k (history (before ++ later)) := by
  refine ⟨⟨QueuedTopic.history_eq steps, (QueuedTopic.represents_after steps).waiting⟩, ?_, ?_, ?_⟩
  · rintro before since rfl
    refine ⟨?_, receivedBy_append_pending before⟩
    rw [getElem?_history, ← length_subscribers_after]
    rfl
  · rintro before a later rfl ha
    rw [getElem?_history, ← liveCount_after]
    obtain rfl | ⟨e, rfl⟩ := ha <;> rfl
  · rintro before j later rfl k hk
    exact receptions_unsubscribe before later hk.symm

/-- Two subscribers, the first of which leaves between two events. -/
def firstLeaves : List (Step Nat) :=
  [.subscribe, .subscribe, .publish 7, .receive 1, .unsubscribe 0, .publish 8, .publish 9,
    .receive 1, .count]

/-- The second one has two of three events, as if the first one had stayed. -/
theorem history_exact_firstLeaves :
    Step.unsubscribe 1 ∉ firstLeaves ∧
      receivedBy 1 (history firstLeaves) ++ (after firstLeaves).pending 1 = [7, 8, 9] ∧
      receptions 1 (history firstLeaves) = receptions 1 (history (firstLeaves.eraseIdx 4)) := by
  have stays : Step.unsubscribe 1 ∉ firstLeaves := by decide
  obtain ⟨-, received, -, others⟩ := history_exact firstLeaves
  refine ⟨stays, ?_, others (firstLeaves.take 4) 0 (firstLeaves.drop 5) rfl 1 (by decide)⟩
  exact (received [.subscribe] _ rfl).2 fun leaves =>
    stays (List.mem_cons_of_mem _ (List.mem_cons_of_mem _ leaves))

end Topic

end ContractFuzz
