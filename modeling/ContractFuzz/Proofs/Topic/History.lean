import ContractFuzz.Proofs.Topic
import Mathlib.Data.Set.Card
/-!
# Histories of topics

Publishers and subscribers use a topic by steps in any order: someone joins, an event is published,
a subscriber receives or leaves, or someone asks how many there are. The history of a topic is made
of these steps and their answers.

What a subscriber has received, followed by what is pending for it, is what was published since it
joined, in that order. This does not depend on who else joins, receives or leaves.

## Main definitions

* `Topic.Step`, `Topic.Answer` : what users do, and what they are told.
* `Topic.after`, `Topic.history` : the topic after some steps, and the steps with their answers.
* `Topic.publishedIn`, `Topic.receivedBy` : the events of steps, and those that a subscriber got.
* `Topic.Present` : a subscriber that has joined and not left, by the steps alone.

## Main results

* `Topic.receivedBy_append_pending` : no event is lost, received twice or out of order.
* `Topic.liveCount_after` : how many subscribers there are.
* `Topic.receptions_unsubscribe` : one who leaves changes nothing for the others.
-/

namespace ContractFuzz

/-- The event of a reception, if there is one. -/
def Reception.event? {ε : Type} : Reception ε → Option ε
  | .event e => some e
  | .nothing | .left => none

namespace Topic

variable {ε : Type}

/-! ### Steps and their answers -/

/-- What the users of a topic do. -/
inductive Step (ε : Type) where
  /-- Somebody joins. -/
  | subscribe
  /-- An event is published. -/
  | publish (e : ε)
  /-- Somebody asks how many subscribers there are. -/
  | count
  /-- A subscriber asks for the next event. -/
  | receive (subscriber : Nat)
  /-- A subscriber leaves. -/
  | unsubscribe (subscriber : Nat)
deriving DecidableEq

/-- What they are told. -/
inductive Answer (ε : Type) where
  /-- The number of the new subscriber. -/
  | joined (subscriber : Nat)
  /-- How many subscribers have not left. -/
  | live (count : Nat)
  /-- What a subscriber receives. -/
  | reception (r : Reception ε)
  /-- Whether the one who leaves was there. -/
  | departure (present : Bool)
deriving DecidableEq

/-- One step. -/
def perform (t : Topic ε) : Step ε → Answer ε × Topic ε
  | .subscribe => (.joined t.subscribe.1, t.subscribe.2)
  | .publish e => (.live (t.publish e).1, (t.publish e).2)
  | .count => (.live t.liveCount, t)
  | .receive k => (.reception (t.receive k).1, (t.receive k).2)
  | .unsubscribe k => (.departure (t.unsubscribe k).1, (t.unsubscribe k).2)

section Machine

variable {σ τ β : Type} (step : σ → Step ε → Answer ε × σ)

/-- Where steps lead. -/
def stateAfter (s : σ) (steps : List (Step ε)) : σ := steps.foldl (fun s a => (step s a).2) s

/-- Steps, each with its answer. -/
def transcript (s : σ) : List (Step ε) → List (Step ε × Answer ε)
  | [] => []
  | a :: rest => (a, (step s a).1) :: transcript (step s a).2 rest

@[simp] theorem stateAfter_cons (s : σ) (a : Step ε) (rest : List (Step ε)) :
    stateAfter step s (a :: rest) = stateAfter step (step s a).2 rest := rfl

theorem stateAfter_append (s : σ) (before later : List (Step ε)) :
    stateAfter step s (before ++ later) = stateAfter step (stateAfter step s before) later :=
  List.foldl_append

@[simp] theorem length_transcript (s : σ) (steps : List (Step ε)) :
    (transcript step s steps).length = steps.length := by
  induction steps generalizing s with
  | nil => rfl
  | cons a rest ih => simp [transcript, ih]

theorem transcript_append (s : σ) (before later : List (Step ε)) :
    transcript step s (before ++ later) =
      transcript step s before ++ transcript step (stateAfter step s before) later := by
  induction before generalizing s with
  | nil => rfl
  | cons a before ih => simp [transcript, ih]

/-- States that are related throughout show the same of their answers. -/
theorem filterMap_transcript_eq {step : σ → Step ε → Answer ε × σ}
    {step' : τ → Step ε → Answer ε × τ} (related : σ → τ → Prop)
    {shown : Step ε × Answer ε → Option β}
    (preserved : ∀ s s', related s s' → ∀ a,
      shown (a, (step s a).1) = shown (a, (step' s' a).1) ∧ related (step s a).2 (step' s' a).2)
    {s : σ} {s' : τ} (h : related s s') (steps : List (Step ε)) :
    (transcript step s steps).filterMap shown = (transcript step' s' steps).filterMap shown := by
  induction steps generalizing s s' with
  | nil => rfl
  | cons a rest ih =>
    obtain ⟨same, next⟩ := preserved s s' h a
    rw [transcript, transcript, List.filterMap_cons, List.filterMap_cons, same, ih next]

theorem related_stateAfter {step : σ → Step ε → Answer ε × σ}
    {step' : τ → Step ε → Answer ε × τ} (related : σ → τ → Prop)
    (preserved : ∀ s s', related s s' → ∀ a, related (step s a).2 (step' s' a).2)
    {s : σ} {s' : τ} (h : related s s') (steps : List (Step ε)) :
    related (stateAfter step s steps) (stateAfter step' s' steps) := by
  induction steps generalizing s s' with
  | nil => exact h
  | cons a rest ih => exact ih (preserved s s' h a)

end Machine

/-- A new topic after some steps. -/
def after (steps : List (Step ε)) : Topic ε := stateAfter perform empty steps

/-- The steps with the answers that a new topic gives. -/
def history (steps : List (Step ε)) : List (Step ε × Answer ε) := transcript perform empty steps

theorem after_append (before later : List (Step ε)) :
    after (before ++ later) = stateAfter perform (after before) later :=
  stateAfter_append ..

theorem history_append (before later : List (Step ε)) :
    history (before ++ later) = history before ++ transcript perform (after before) later :=
  transcript_append ..

/-- Every step is answered by the topic that the steps before it lead to. -/
theorem getElem?_history (before later : List (Step ε)) (a : Step ε) :
    (history (before ++ a :: later))[before.length]? = some (a, ((after before).perform a).1) := by
  rw [history_append, List.getElem?_append_right (by simp [history])]
  simp [history, transcript]

/-! ### What steps and histories say -/

/-- How many have joined. The next one gets this number. -/
def joins (steps : List (Step ε)) : Nat := steps.countP fun a => a matches .subscribe

/-- The event that a step publishes. -/
def Step.event? : Step ε → Option ε
  | .publish e => some e
  | _ => none

/-- The events that are published, in order. -/
def publishedIn (steps : List (Step ε)) : List ε := steps.filterMap Step.event?

/-- What a subscriber is told when it asks for an event. -/
def receptionOf (k : Nat) : Step ε × Answer ε → Option (Reception ε)
  | (.receive j, .reception r) => if j = k then some r else none
  | _ => none

/-- All that a subscriber is told, in order. -/
def receptions (k : Nat) (h : List (Step ε × Answer ε)) : List (Reception ε) :=
  h.filterMap (receptionOf k)

/-- The events that a subscriber receives, in order. -/
def receivedBy (k : Nat) (h : List (Step ε × Answer ε)) : List ε :=
  (receptions k h).filterMap Reception.event?

/-- The subscriber joined at one of the steps, and left at none of those that came later. -/
def Present (k : Nat) (steps : List (Step ε)) : Prop :=
  ∃ before since, steps = before ++ .subscribe :: since ∧ joins before = k ∧
    .unsubscribe k ∉ since

variable {t t' : Topic ε} {steps since : List (Step ε)} {a : Step ε} {j k n : Nat}

theorem joins_append (before later : List (Step ε)) :
    joins (before ++ later) = joins before + joins later := List.countP_append

@[simp] theorem publishedIn_singleton : publishedIn [a] = a.event?.toList := by
  cases a <;> rfl

theorem publishedIn_cons : publishedIn (a :: steps) = publishedIn [a] ++ publishedIn steps :=
  List.filterMap_append (l := [a])

@[simp] theorem receivedBy_singleton (x : Step ε × Answer ε) :
    receivedBy k [x] = ((receptionOf k x).bind Reception.event?).toList := by
  rw [receivedBy, receptions, List.filterMap_filterMap, List.filterMap_cons]
  cases (receptionOf k x).bind Reception.event? <;> rfl

theorem receivedBy_append (h h' : List (Step ε × Answer ε)) :
    receivedBy k (h ++ h') = receivedBy k h ++ receivedBy k h' := by
  simp [receivedBy, receptions]

theorem receivedBy_transcript_cons :
    receivedBy k (transcript perform t (a :: steps)) =
      receivedBy k [(a, (t.perform a).1)] ++
        receivedBy k (transcript perform (t.perform a).2 steps) :=
  receivedBy_append [_] _

theorem length_subscribers_perform (t : Topic ε) (a : Step ε) :
    (t.perform a).2.subscribers.length = t.subscribers.length + joins [a] := by
  cases a <;> simp [perform, subscribe, publish, joins]

@[simp] theorem length_subscribers_after (steps : List (Step ε)) :
    (after steps).subscribers.length = joins steps := by
  induction steps using List.reverseRecOn with
  | nil => rfl
  | append_singleton steps a ih =>
    rw [after_append, joins_append, ← ih]
    exact length_subscribers_perform _ a

/-! ### No event is lost, received twice or out of order -/

/-- The subscriber is there, and `n` is the number of events before the one to receive next. -/
structure IsAt (t : Topic ε) (k n : Nat) : Prop where
  /-- It is there. -/
  present : t.subscribers[k]? = some ⟨n, true⟩
  /-- Its place is not beyond the record of all events. -/
  le_length : n ≤ t.published.length

theorem IsAt.pending (h : t.IsAt k n) : t.pending k = t.published.drop n := by
  simp [Topic.pending, h.present]

/-- A subscriber stays at its place while others receive, join or leave and events are
published. -/
theorem IsAt.mono (h : t.IsAt k n) (others : t'.subscribers[k]? = t.subscribers[k]?)
    (published : t.published <+: t'.published) : t'.IsAt k n :=
  ⟨others.trans h.present, h.le_length.trans published.length_le⟩

/-- A subscriber that asks gets the next of the events that are pending, or none when there is
none. -/
theorem IsAt.receive (h : t.IsAt k n) :
    ∃ m, (t.receive k).2.IsAt k m ∧
      (t.receive k).1.event?.toList ++ t.published.drop m = t.published.drop n := by
  cases next : t.published[n]? with
  | some e =>
    obtain ⟨lt, rfl⟩ := List.getElem?_eq_some_iff.mp next
    rw [receive_event h.present next]
    refine ⟨n + 1, ⟨?_, lt⟩, (List.drop_eq_getElem_cons lt).symm⟩
    exact List.getElem?_set_self (isLive_of_getElem? h.present).lt_length
  | none =>
    rw [receive_nothing h.present next]
    exact ⟨n, h, rfl⟩

/-- A step gives a subscriber the next of the events that are pending or just published, or none
of them. -/
theorem IsAt.perform (h : t.IsAt k n) (stays : a ≠ .unsubscribe k) :
    ∃ m, (t.perform a).2.IsAt k m ∧
      receivedBy k [(a, (t.perform a).1)] ++ (t.perform a).2.published.drop m =
        t.published.drop n ++ publishedIn [a] := by
  cases a with
  | subscribe =>
    have kept : (t.subscribers ++ [⟨t.published.length, true⟩])[k]? = t.subscribers[k]? :=
      List.getElem?_append_left (isLive_of_getElem? h.present).lt_length
    exact ⟨n, h.mono kept List.prefix_rfl, (List.append_nil _).symm⟩
  | publish e =>
    exact ⟨n, h.mono rfl (List.prefix_append ..), List.drop_append_of_le_length h.le_length⟩
  | count => exact ⟨n, h, (List.append_nil _).symm⟩
  | receive j =>
    have same := t.published_receive j
    by_cases hj : j = k
    · subst hj
      obtain ⟨m, isAt, received⟩ := h.receive
      exact ⟨m, isAt, by simpa [Topic.perform, receptionOf, Step.event?]⟩
    · refine ⟨n, h.mono (getElem?_subscribers_receive_of_ne hj) (same ▸ List.prefix_rfl), ?_⟩
      simp [Topic.perform, receptionOf, hj, Step.event?]
  | unsubscribe j =>
    have hj : j ≠ k := fun hj => stays (congrArg _ hj)
    have same := t.published_unsubscribe j
    refine ⟨n, h.mono (getElem?_subscribers_unsubscribe_of_ne hj) (same ▸ List.prefix_rfl), ?_⟩
    simp [Topic.perform, receptionOf, Step.event?]

/-- A subscriber that stays gets what is pending and what is published later, in order. -/
theorem IsAt.stateAfter (h : t.IsAt k n) (stays : .unsubscribe k ∉ steps) :
    ∃ m, (stateAfter Topic.perform t steps).IsAt k m ∧
      receivedBy k (transcript Topic.perform t steps) ++
          (stateAfter Topic.perform t steps).published.drop m =
        t.published.drop n ++ publishedIn steps := by
  induction steps generalizing t n with
  | nil => exact ⟨n, h, (List.append_nil _).symm⟩
  | cons a rest ih =>
    obtain ⟨m, isAt, first⟩ := h.perform (List.ne_of_not_mem_cons stays).symm
    obtain ⟨l, isAt', others⟩ := ih isAt (List.not_mem_of_not_mem_cons stays)
    refine ⟨l, isAt', ?_⟩
    rw [receivedBy_transcript_cons, publishedIn_cons, List.append_assoc, stateAfter_cons, others,
      ← List.append_assoc, first, List.append_assoc]

/-- Nobody receives anything before joining. -/
theorem receivedBy_transcript_eq_nil (h : t.subscribers.length + joins steps ≤ k) :
    receivedBy k (transcript perform t steps) = [] := by
  induction steps generalizing t with
  | nil => rfl
  | cons a rest ih =>
    have hjoins : joins (a :: rest) = joins [a] + joins rest := joins_append [a] rest
    have absent : ¬ t.IsLive k := fun live => by have := live.lt_length; omega
    rw [receivedBy_transcript_cons, ih (by rw [length_subscribers_perform]; omega),
      List.append_nil]
    cases a with
    | receive j =>
      by_cases hj : j = k
      · simp [perform, receptionOf, hj, receive_left absent, Reception.event?]
      · simp [perform, receptionOf, hj]
    | _ => rfl

/-- What a subscriber has received, followed by what is pending for it, is what was published since
it joined. -/
theorem receivedBy_append_pending (before : List (Step ε))
    (stays : .unsubscribe (joins before) ∉ since) :
    receivedBy (joins before) (history (before ++ .subscribe :: since)) ++
        (after (before ++ .subscribe :: since)).pending (joins before) =
      publishedIn since := by
  have joined : (after before).subscribe.2.IsAt (joins before) (after before).published.length :=
    ⟨by simp [subscribe, ← length_subscribers_after], le_rfl⟩
  obtain ⟨m, isAt, received⟩ := joined.stateAfter stays
  have earlier : receivedBy (joins before) (history before) = [] :=
    receivedBy_transcript_eq_nil (by simp [empty])
  rw [history_append, after_append, receivedBy_append, earlier, List.nil_append,
    stateAfter_cons, receivedBy_transcript_cons]
  change receivedBy _ (transcript perform (after before).subscribe.2 since) ++
    Topic.pending (stateAfter perform (after before).subscribe.2 since) _ = _
  rw [isAt.pending, received]
  simp [subscribe]

/-! ### How many there are -/

/-- Presence after one more step. -/
theorem present_concat_iff :
    Present k (steps ++ [a]) ↔
      Present k steps ∧ a ≠ .unsubscribe k ∨ a = .subscribe ∧ joins steps = k := by
  constructor
  · rintro ⟨before, since, heq, rfl, stays⟩
    rcases since.eq_nil_or_concat with rfl | ⟨since, last, rfl⟩
    · obtain ⟨rfl, last⟩ := List.append_inj' heq rfl
      exact .inr ⟨List.singleton_inj.mp last, rfl⟩
    · rw [List.concat_eq_append, ← List.cons_append, ← List.append_assoc] at heq
      obtain ⟨rfl, hlast⟩ := List.append_inj' heq rfl
      obtain rfl := List.singleton_inj.mp hlast
      simp only [List.concat_eq_append, List.mem_append, List.mem_singleton, not_or] at stays
      exact .inl ⟨⟨before, since, rfl, rfl, stays.1⟩, fun h => stays.2 h.symm⟩
  · rintro (⟨⟨before, since, rfl, rfl, stays⟩, hne⟩ | ⟨rfl, rfl⟩)
    · exact ⟨before, since ++ [a], by simp, rfl, by simp [stays, hne.symm]⟩
    · exact ⟨steps, [], rfl, rfl, List.not_mem_nil⟩

/-- A step brings in one subscriber, or lets one go, or neither. -/
theorem isLive_perform_iff :
    (t.perform a).2.IsLive k ↔
      t.IsLive k ∧ a ≠ .unsubscribe k ∨ a = .subscribe ∧ t.subscribers.length = k := by
  cases a <;> simp [perform]

/-- The subscribers that have joined and not left are there. -/
theorem isLive_after_iff : (after steps).IsLive k ↔ Present k steps := by
  induction steps using List.reverseRecOn with
  | nil => simp [after, stateAfter, empty, IsLive, Present]
  | append_singleton steps a ih =>
    rw [after_append, present_concat_iff, ← ih, ← length_subscribers_after]
    exact isLive_perform_iff

/-- A list of all subscribers that are there is as long as there are subscribers. -/
theorem length_eq_liveCount {numbers : List Nat} (nodup : numbers.Nodup)
    (h : ∀ k, k ∈ numbers ↔ t.IsLive k) : numbers.length = t.liveCount := by
  have perm : numbers.Perm (t.subscribers.findIdxs Subscriber.live) := by
    refine (List.perm_ext_iff_of_nodup nodup List.nodup_findIdxs).mpr fun k => ?_
    rw [h, List.mem_findIdxs_iff_exists_getElem_pos]
    simp [IsLive, List.getElem?_eq_some_iff]
  rw [perm.length_eq, List.length_findIdxs, liveCount]

theorem ncard_isLive (t : Topic ε) : {k | t.IsLive k}.ncard = t.liveCount := by
  classical
  have finite : {k | t.IsLive k}.Finite :=
    (Set.finite_lt_nat t.subscribers.length).subset fun k => IsLive.lt_length
  rw [Set.ncard_eq_toFinset_card _ finite, ← Finset.length_toList]
  exact length_eq_liveCount (Finset.nodup_toList _) (by simp)

/-- As many subscribers are there as have joined and not left. -/
theorem liveCount_after (steps : List (Step ε)) :
    (after steps).liveCount = {k | Present k steps}.ncard := by
  simp only [← isLive_after_iff, ncard_isLive]

/-! ### One subscriber among others -/

/-- Two topics that one subscriber cannot tell apart. -/
structure SameFor (k : Nat) (t t' : Topic ε) : Prop where
  /-- The same events were published. -/
  published : t.published = t'.published
  /-- The same number have joined. -/
  length : t.subscribers.length = t'.subscribers.length
  /-- The subscriber is at the same place. -/
  subscriber : t.subscribers[k]? = t'.subscribers[k]?

theorem SameFor.symm (h : SameFor k t t') : SameFor k t' t :=
  ⟨h.published.symm, h.length.symm, h.subscriber.symm⟩

theorem SameFor.trans {t'' : Topic ε} (h : SameFor k t t') (h' : SameFor k t' t'') :
    SameFor k t t'' :=
  ⟨h.published.trans h'.published, h.length.trans h'.length, h.subscriber.trans h'.subscriber⟩

theorem sameFor_receive (t : Topic ε) (hne : j ≠ k) : SameFor k (t.receive j).2 t :=
  ⟨t.published_receive j, t.length_subscribers_receive j, getElem?_subscribers_receive_of_ne hne⟩

theorem sameFor_unsubscribe (t : Topic ε) (hne : j ≠ k) : SameFor k (t.unsubscribe j).2 t :=
  ⟨t.published_unsubscribe j, t.length_subscribers_unsubscribe j,
    getElem?_subscribers_unsubscribe_of_ne hne⟩

/-- The subscriber receives the same from both topics. -/
theorem SameFor.receive_self (h : SameFor k t t') :
    (t.receive k).1 = (t'.receive k).1 ∧ SameFor k (t.receive k).2 (t'.receive k).2 := by
  obtain ⟨n, e, present, next, received⟩ | ⟨n, present, next, received⟩ | ⟨absent, received⟩ :=
    t.receive_cases k
  · have received' := receive_event (h.subscriber ▸ present) (h.published ▸ next)
    rw [received, received']
    exact ⟨rfl, h.published, by simp [h.length], by simp [List.getElem?_set, h.length]⟩
  · have received' := receive_nothing (h.subscriber ▸ present) (h.published ▸ next)
    rw [received, received']
    exact ⟨rfl, h⟩
  · have absent' : ¬ t'.IsLive k := by rwa [IsLive, ← h.subscriber]
    rw [received, receive_left absent']
    exact ⟨rfl, h⟩

/-- The subscriber leaves both topics. -/
theorem SameFor.unsubscribe_self (h : SameFor k t t') :
    SameFor k (t.unsubscribe k).2 (t'.unsubscribe k).2 := by
  cases found : t.subscribers[k]? with
  | some s =>
    rw [unsubscribe_of_some found, unsubscribe_of_some (h.subscriber ▸ found)]
    exact ⟨h.published, by simp [h.length], by simp [List.getElem?_set, h.length]⟩
  | none => rwa [unsubscribe_of_none found, unsubscribe_of_none (h.subscriber ▸ found)]

/-- No step tells the topics apart. -/
theorem SameFor.perform (h : SameFor k t t') (a : Step ε) :
    receptionOf k (a, (t.perform a).1) = receptionOf k (a, (t'.perform a).1) ∧
      SameFor k (t.perform a).2 (t'.perform a).2 := by
  cases a with
  | subscribe =>
    refine ⟨rfl, h.published, by simp [Topic.perform, subscribe, h.length], ?_⟩
    simp [Topic.perform, subscribe, List.getElem?_append, h.published, h.length, h.subscriber]
  | publish e => exact ⟨rfl, congrArg (· ++ [e]) h.published, h.length, h.subscriber⟩
  | count => exact ⟨rfl, h⟩
  | receive j =>
    by_cases hj : j = k
    · subst hj
      obtain ⟨same, next⟩ := h.receive_self
      exact ⟨by simp [Topic.perform, receptionOf, same], next⟩
    · refine ⟨by simp [Topic.perform, receptionOf, hj], ?_⟩
      exact (sameFor_receive t hj).trans (h.trans (sameFor_receive t' hj).symm)
  | unsubscribe j =>
    by_cases hj : j = k
    · subst hj
      exact ⟨rfl, h.unsubscribe_self⟩
    · exact ⟨rfl, (sameFor_unsubscribe t hj).trans (h.trans (sameFor_unsubscribe t' hj).symm)⟩

/-- The others are told the same whether one leaves or stays. -/
theorem receptions_unsubscribe (before later : List (Step ε)) (hne : j ≠ k) :
    receptions k (history (before ++ .unsubscribe j :: later)) =
      receptions k (history (before ++ later)) := by
  have same : receptions k (transcript perform ((after before).unsubscribe j).2 later) =
      receptions k (transcript perform (after before) later) :=
    filterMap_transcript_eq (SameFor k) (fun _ _ h a => h.perform a)
      (sameFor_unsubscribe _ hne) later
  rw [history_append, history_append, receptions, receptions, List.filterMap_append,
    List.filterMap_append]
  exact congrArg _ same

end Topic

end ContractFuzz
