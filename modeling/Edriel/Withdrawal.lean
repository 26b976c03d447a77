import Edriel.Announcement
import Edriel.QosRouting
import Edriel.ReliablePublisher

namespace Edriel

open Proto3 Std

namespace Node

variable {N : Nat} [NeZero N]

def publishersAt (n : Node N) (key : Bytes) : ExtTreeSet Identity :=
  ((n.topic? key).map (·.publishers)).getD ∅

def subscribersAt (n : Node N) (key : Bytes) : ExtTreeSet Identity :=
  ((n.topic? key).map (·.subscribers)).getD ∅

def callbacksAt (n : Node N) (key : Bytes) : List Callback :=
  ((n.topic? key).map (·.callbacks)).getD []

theorem remaining_of_opening {p : ReliablePublisher} {n : Node N}
    {topicName messageType payload : Bytes} {c : Call}
    (h : p.Opening n topicName messageType payload c) :
    c.remaining = (n.subscribersAt (makeCompositeKey topicName messageType)).toList := by
  obtain ⟨entry, hentry, hremaining⟩ := h.recorded
  have hkey : c.data.key = makeCompositeKey topicName messageType := by
    rw [h.data]
    rfl
  rw [hkey] at hentry
  rw [hremaining, subscribersAt, hentry]
  rfl

theorem callbacksAt_subscribe (n : Node N) (topicName : Bytes) (T : MessageName) (invoke : Nat) :
    (n.subscribe topicName T (some invoke)).callbacksAt
        (makeCompositeKey topicName T.fullName) =
      if (n.topic? (makeCompositeKey topicName T.fullName)).isSome then
        n.callbacksAt (makeCompositeKey topicName T.fullName) ++ [⟨T.fullName, invoke⟩]
      else [] := by
  cases hentry : n.topic? (makeCompositeKey topicName T.fullName) with
  | none =>
      have hsame : n.subscribe topicName T (some invoke) = n := by
        rw [subscribe, hentry]
      rw [hsame, callbacksAt, hentry]
      rfl
  | some entry =>
      have hpushed : n.subscribe topicName T (some invoke) = n.pushCallback topicName T invoke := by
        rw [subscribe, hentry]
      rw [hpushed, callbacksAt, pushCallback, topic?_updateTopic, if_pos rfl, callbacksAt, hentry]
      rfl

theorem subscribersAt_registerPublisherTopic (n : Node N) (topicName : Bytes) (T : MessageName)
    (reliable : Bool) :
    (n.registerPublisherTopic topicName T reliable).2.subscribersAt
        (makeCompositeKey topicName T.fullName) =
      n.subscribersAt (makeCompositeKey topicName T.fullName) := by
  rw [registerPublisherTopic, registerTopic, subscribersAt, topic?_updateTopic, if_pos rfl,
    subscribersAt]
  cases n.topic? (makeCompositeKey topicName T.fullName) with
  | none => rfl
  | some entry => rfl

/-- Withdrawing as a publisher leaves everything else as it was.  `subscribed` says whether
the node is subscribed to the topic. -/
structure ForgetsNothingElse (n : Node N) (topicName : Bytes) (T : MessageName)
    (subscribed : Bool) : Prop where
  publishers : (n.unregisterPublisherTopic topicName T).publishersAt
      (makeCompositeKey topicName T.fullName) =
    n.publishersAt (makeCompositeKey topicName T.fullName)
  subscribers : (n.unregisterPublisherTopic topicName T).subscribersAt
      (makeCompositeKey topicName T.fullName) =
    n.subscribersAt (makeCompositeKey topicName T.fullName)
  callbacks : (n.unregisterPublisherTopic topicName T).callbacksAt
      (makeCompositeKey topicName T.fullName) =
    n.callbacksAt (makeCompositeKey topicName T.fullName)
  subscription : subscribed = true → ∀ invoke,
    (n.subscribe topicName T (some invoke)).callbacksAt
        (makeCompositeKey topicName T.fullName) =
      ((n.unregisterPublisherTopic topicName T).subscribe topicName T (some invoke)).callbacksAt
        (makeCompositeKey topicName T.fullName)
  reliableSubscriptions : (n.unregisterPublisherTopic topicName T).reliableSubscribedTopics =
    n.reliableSubscribedTopics
  others : ∀ key, makeCompositeKey topicName T.fullName ≠ key →
    (n.unregisterPublisherTopic topicName T).topic? key = n.topic? key
  fanOut : ∀ reliable, ((n.unregisterPublisherTopic topicName T).registerPublisherTopic
      topicName T reliable).2.subscribersAt (makeCompositeKey topicName T.fullName) =
    n.subscribersAt (makeCompositeKey topicName T.fullName)

/-- The entry has local callbacks, which keep it, or nothing that goes with it. -/
def Disposable (n : Node N) (topicName : Bytes) (T : MessageName) (subscribed : Bool) : Prop :=
  ∀ entry, n.topic? (makeCompositeKey topicName T.fullName) = some entry →
    entry.callbacks ≠ [] ∨
      entry.publishers = ∅ ∧ entry.subscribers = ∅ ∧ subscribed = false

theorem topic?_unregisterPublisherTopic (n : Node N) (topicName : Bytes) (T : MessageName)
    (key : Bytes) :
    (n.unregisterPublisherTopic topicName T).topic? key =
      if makeCompositeKey topicName T.fullName = key then
        (n.topic? key).bind fun entry => if entry.callbacks.isEmpty then none else some entry
      else n.topic? key := by
  rw [unregisterPublisherTopic, topic?_alterTopic]
  split_ifs with hkey
  · rw [hkey]
  · rfl

theorem topic?_unregisterPublisherTopic_self (n : Node N) (topicName : Bytes)
    (T : MessageName) :
    (n.unregisterPublisherTopic topicName T).topic? (makeCompositeKey topicName T.fullName) =
      (n.topic? (makeCompositeKey topicName T.fullName)).bind fun entry =>
        if entry.callbacks.isEmpty then none else some entry := by
  rw [topic?_unregisterPublisherTopic, if_pos rfl]

/-- A withdrawal that keeps the entry, or finds none, changes no entry at all. -/
theorem forgetsNothingElse_of_kept {n : Node N} {topicName : Bytes} {T : MessageName}
    (hkept : (n.unregisterPublisherTopic topicName T).topic?
        (makeCompositeKey topicName T.fullName) =
      n.topic? (makeCompositeKey topicName T.fullName)) (subscribed : Bool) :
    n.ForgetsNothingElse topicName T subscribed := by
  refine ⟨?_, ?_, ?_, ?_, rfl, ?_, ?_⟩
  · rw [publishersAt, hkept, publishersAt]
  · rw [subscribersAt, hkept, subscribersAt]
  · rw [callbacksAt, hkept, callbacksAt]
  · intro _ invoke
    rw [callbacksAt_subscribe, callbacksAt_subscribe, hkept, callbacksAt, callbacksAt, hkept]
  · intro key hkey
    rw [topic?_unregisterPublisherTopic, if_neg hkey]
  · intro reliable
    rw [subscribersAt_registerPublisherTopic, subscribersAt, hkept, subscribersAt]

theorem forgetsNothingElse_iff (n : Node N) (topicName : Bytes) (T : MessageName)
    (subscribed : Bool) :
    n.ForgetsNothingElse topicName T subscribed ↔ n.Disposable topicName T subscribed := by
  have hafter := n.topic?_unregisterPublisherTopic_self topicName T
  cases hentry : n.topic? (makeCompositeKey topicName T.fullName) with
  | none =>
      rw [hentry, Option.bind_none] at hafter
      refine iff_of_true (forgetsNothingElse_of_kept (hafter.trans hentry.symm) subscribed) ?_
      intro entry hsome
      rw [hentry] at hsome
      cases hsome
  | some entry =>
      rw [hentry, Option.bind_some] at hafter
      have hdisposable : n.Disposable topicName T subscribed ↔
          entry.callbacks ≠ [] ∨
            entry.publishers = ∅ ∧ entry.subscribers = ∅ ∧ subscribed = false := by
        constructor
        · exact fun h => h entry hentry
        · intro h entry' hsome
          obtain rfl := Option.some.inj (hentry.symm.trans hsome)
          exact h
      rw [hdisposable]
      by_cases hcallbacks : entry.callbacks = []
      · -- the entry goes, and whatever it held with it
        rw [hcallbacks, if_pos List.isEmpty_nil] at hafter
        have hpublishers : n.publishersAt (makeCompositeKey topicName T.fullName) =
            entry.publishers := by rw [publishersAt, hentry]; rfl
        have hsubscribers : n.subscribersAt (makeCompositeKey topicName T.fullName) =
            entry.subscribers := by rw [subscribersAt, hentry]; rfl
        have hnone : n.callbacksAt (makeCompositeKey topicName T.fullName) = [] := by
          rw [callbacksAt, hentry]
          exact hcallbacks
        rw [or_iff_right (not_not_intro hcallbacks)]
        constructor
        · intro h
          refine ⟨?_, ?_, ?_⟩
          · rw [← hpublishers, ← h.publishers, publishersAt, hafter]
            rfl
          · rw [← hsubscribers, ← h.subscribers, subscribersAt, hafter]
            rfl
          · rw [← Bool.not_eq_true]
            intro hsubscribed
            have hlost := h.subscription hsubscribed 0
            rw [callbacksAt_subscribe, callbacksAt_subscribe, hentry, hafter, hnone] at hlost
            cases hlost
        · rintro ⟨hnoPublishers, hnoSubscribers, hunsubscribed⟩
          refine ⟨?_, ?_, ?_, ?_, rfl, ?_, ?_⟩
          · rw [hpublishers, hnoPublishers, publishersAt, hafter]
            rfl
          · rw [hsubscribers, hnoSubscribers, subscribersAt, hafter]
            rfl
          · rw [hnone, callbacksAt, hafter]
            rfl
          · intro hsubscribed
            rw [hunsubscribed] at hsubscribed
            cases hsubscribed
          · intro key hkey
            rw [topic?_unregisterPublisherTopic, if_neg hkey]
          · intro reliable
            rw [subscribersAt_registerPublisherTopic, hsubscribers, hnoSubscribers, subscribersAt,
              hafter]
            rfl
      · have hnonempty : entry.callbacks.isEmpty ≠ true :=
          fun h => hcallbacks (List.isEmpty_iff.mp h)
        rw [if_neg hnonempty] at hafter
        exact iff_of_true (forgetsNothingElse_of_kept (hafter.trans hentry.symm) subscribed)
          (Or.inl hcallbacks)

def noteOwnSubscription (topicName : Bytes) (T : MessageName) (subscribed : Bool) :
    Operation → Bool
  | .registerSubscriberTopic topicName' T' _ =>
      subscribed || decide (topicName' = topicName ∧ T' = T)
  | .registerSubscriberTopicWith topicName' T' callback _ =>
      subscribed || (callback.isSome && decide (topicName' = topicName ∧ T' = T))
  | .unregisterSubscriberTopic topicName' T' =>
      subscribed && !decide (topicName' = topicName ∧ T' = T)
  | _ => subscribed

/-- The node has subscribed to a topic and not unsubscribed since. -/
def subscribedAfter (topicName : Bytes) (T : MessageName) (ops : List Operation) : Bool :=
  ops.foldl (noteOwnSubscription topicName T) false

end Node

open Node

/-- In any state that a node comes to, withdrawing as a publisher forgets nothing else exactly
when the entry is kept for its callbacks, or holds neither a peer nor a subscription. -/
theorem withdrawal_forgets_iff {N : Nat} [NeZero N] (me : Identity) (config : Config)
    (ops : List Operation) (topicName : Bytes) (T : MessageName) :
    ((Node.fresh me config : Node N).run ops).ForgetsNothingElse topicName T
        (subscribedAfter topicName T ops) ↔
      ((Node.fresh me config : Node N).run ops).Disposable topicName T
        (subscribedAfter topicName T ops) :=
  forgetsNothingElse_iff _ topicName T _

/-- A publisher of the topic `t` hears of subscriber 7. -/
def heardSubscriber : List Operation :=
  [.registerPublisherTopic [116] typeT true, .announcement ⟨7, 7, 7⟩ [116] [84] false]

/-- The entry that it withdraws from. -/
def heardEntry : TopicEntry :=
  { topicName := [116]
    messageType := [84]
    reliable := true
    subscribers := (∅ : ExtTreeSet Identity).insert ⟨7, 7, 7⟩ }

theorem topic?_heardSubscriber :
    ((Node.fresh ⟨1, 1, 1⟩ {} : Node 1).run heardSubscriber).topic?
      (makeCompositeKey [116] [84]) = some heardEntry := by
  rfl

theorem subscriber_forgotten :
    ¬ ((Node.fresh ⟨1, 1, 1⟩ {} : Node 1).run heardSubscriber).ForgetsNothingElse [116] typeT
      (subscribedAfter [116] typeT heardSubscriber) := by
  rw [forgetsNothingElse_iff]
  intro hdisposable
  rcases hdisposable _ topic?_heardSubscriber with hcallbacks | ⟨-, hsubscribers, -⟩
  · exact hcallbacks rfl
  · have hmem : (⟨7, 7, 7⟩ : Identity) ∈ heardEntry.subscribers :=
      ExtTreeSet.mem_insert_self
    rw [hsubscribers] at hmem
    exact ExtTreeSet.not_mem_empty hmem

/-- The node has a callback for its own topic, beside the subscriber that it has heard of. -/
def heardAndSubscribed : List Operation :=
  heardSubscriber ++ [.registerSubscriberTopicWith [116] typeT (some 5) true]

/-- The callback keeps the entry, with the peer in it. -/
theorem subscribed_forgets_nothing :
    (((Node.fresh ⟨1, 1, 1⟩ {} : Node 1).run heardAndSubscribed).topic?
      (makeCompositeKey [116] [84])).map (fun entry => (entry.callbacks, entry.subscribers.toList)) =
        some ([⟨[84], 5⟩], [⟨7, 7, 7⟩]) ∧
    ((Node.fresh ⟨1, 1, 1⟩ {} : Node 1).run heardAndSubscribed).ForgetsNothingElse [116] typeT
      (subscribedAfter [116] typeT heardAndSubscribed) := by
  have hheld : (((Node.fresh ⟨1, 1, 1⟩ {} : Node 1).run heardAndSubscribed).topic?
      (makeCompositeKey [116] [84])).map (fun entry => (entry.callbacks, entry.subscribers.toList)) =
        some ([⟨[84], 5⟩], [⟨7, 7, 7⟩]) := by
    rfl
  refine ⟨hheld, (withdrawal_forgets_iff _ _ _ _ _).mpr ?_⟩
  intro entry hentry
  have hentry' : ((Node.fresh ⟨1, 1, 1⟩ {} : Node 1).run heardAndSubscribed).topic?
      (makeCompositeKey [116] [84]) = some entry := hentry
  rw [hentry', Option.map_some] at hheld
  obtain ⟨hcallbacks, -⟩ := Prod.mk.inj (Option.some.inj hheld)
  refine Or.inl ?_
  rw [hcallbacks]
  exact List.cons_ne_nil _ _

end Edriel
