import Edriel.Announcement

namespace Edriel

open Proto3 Std

inductive SendPath where
  | publishReliable (topicName messageType payload : Bytes)
  | publishData (topicName messageType payload : Bytes)
deriving DecidableEq

/-- The operations of a node that touch its registry.  A cleanup reads the clock
anew for each participant. -/
inductive Operation where
  | registerPublisherTopic (topicName : Bytes) (T : MessageName) (reliable : Bool)
  | registerSubscriberTopic (topicName : Bytes) (T : MessageName) (reliable : Bool)
  | registerSubscriberTopicWith (topicName : Bytes) (T : MessageName)
      (callback : Option Nat) (reliable : Bool)
  | subscribe (topicName : Bytes) (T : MessageName) (callback : Option Nat)
  | unregisterPublisherTopic (topicName : Bytes) (T : MessageName)
  | unregisterSubscriberTopic (topicName : Bytes) (T : MessageName)
  | heartbeat (now : Int) (sender : Identity) (endpoints : List Endpoint)
  | announcement (sender : Identity) (topicName messageType : Bytes) (isPublisher : Bool)
  | removeTimedOutParticipants (now : UInt64 → Int)

namespace Node

variable {N : Nat} [NeZero N]

def reliableAt (n : Node N) (key : Bytes) : Bool :=
  (n.topic? key).any (·.reliable)

/-- Routes a message by the QoS of its topic; nothing is sent when `message`
failed to serialise. -/
def sendMessage (n : Node N) (topicName : Bytes) (T : MessageName)
    (message : Option Bytes) : Option SendPath :=
  match message with
  | none => none
  | some payload =>
      if n.reliableAt (makeCompositeKey topicName T.fullName) then
        some (.publishReliable topicName T.fullName payload)
      else some (.publishData topicName T.fullName payload)

def apply (n : Node N) : Operation → Node N
  | .registerPublisherTopic topicName T reliable =>
      (n.registerPublisherTopic topicName T reliable).2
  | .registerSubscriberTopic topicName T reliable =>
      (n.registerSubscriberTopic topicName T reliable).2
  | .registerSubscriberTopicWith topicName T callback reliable =>
      (n.registerSubscriberTopicWith topicName T callback reliable).2
  | .subscribe topicName T callback => n.subscribe topicName T callback
  | .unregisterPublisherTopic topicName T => n.unregisterPublisherTopic topicName T
  | .unregisterSubscriberTopic topicName T => n.unregisterSubscriberTopic topicName T
  | .heartbeat now sender endpoints => n.handleParticipantHeartbeat now sender endpoints
  | .announcement sender topicName messageType isPublisher =>
      n.handleTopicAnnouncement sender topicName messageType isPublisher
  | .removeTimedOutParticipants now => n.removeTimedOutParticipants now

def run (n : Node N) (ops : List Operation) : Node N :=
  ops.foldl apply n

theorem run_concat (n : Node N) (ops : List Operation) (op : Operation) :
    n.run (ops ++ [op]) = (n.run ops).apply op := by
  rw [run, run, List.foldl_append, List.foldl_cons, List.foldl_nil]

/-- An operation reaches the registry and the reliable subscriptions; of the rest of the
node, only a cleanup changes anything, and that in the receiver. -/
theorem exists_apply_eq (n : Node N) (op : Operation) :
    ∃ shards topics receiver,
      n.apply op = { n with shards, reliableSubscribedTopics := topics, receiver } ∧
        ((∀ now, op ≠ .removeTimedOutParticipants now) → receiver = n.receiver) := by
  cases op with
  | registerPublisherTopic topicName T reliable => exact ⟨_, _, _, rfl, fun _ => rfl⟩
  | registerSubscriberTopic topicName T reliable =>
      cases reliable <;> exact ⟨_, _, _, rfl, fun _ => rfl⟩
  | registerSubscriberTopicWith topicName T callback reliable =>
      cases callback with
      | none => exact ⟨_, _, _, rfl, fun _ => rfl⟩
      | some invoke => cases reliable <;> exact ⟨_, _, _, rfl, fun _ => rfl⟩
  | subscribe topicName T callback =>
      cases callback with
      | none => exact ⟨_, _, _, rfl, fun _ => rfl⟩
      | some invoke =>
          rw [apply, subscribe]
          split <;> exact ⟨_, _, _, rfl, fun _ => rfl⟩
  | unregisterPublisherTopic topicName T => exact ⟨_, _, _, rfl, fun _ => rfl⟩
  | unregisterSubscriberTopic topicName T =>
      rw [apply, unregisterSubscriberTopic]
      split <;> exact ⟨_, _, _, rfl, fun _ => rfl⟩
  | heartbeat now sender endpoints =>
      rw [apply, handleParticipantHeartbeat]
      split <;> exact ⟨_, _, _, rfl, fun _ => rfl⟩
  | announcement sender topicName messageType isPublisher =>
      rw [apply, handleTopicAnnouncement]
      split <;> exact ⟨_, _, _, rfl, fun _ => rfl⟩
  | removeTimedOutParticipants now => exact ⟨_, _, _, rfl, fun h => absurd rfl (h now)⟩

theorem selfParticipant_apply (n : Node N) (op : Operation) :
    (n.apply op).selfParticipant = n.selfParticipant := by
  obtain ⟨shards, topics, receiver, happly, -⟩ := n.exists_apply_eq op
  rw [happly]

theorem config_apply (n : Node N) (op : Operation) : (n.apply op).config = n.config := by
  obtain ⟨shards, topics, receiver, happly, -⟩ := n.exists_apply_eq op
  rw [happly]

theorem receiver_apply (n : Node N) {op : Operation}
    (h : ∀ now, op ≠ .removeTimedOutParticipants now) : (n.apply op).receiver = n.receiver := by
  obtain ⟨shards, topics, receiver, happly, hreceiver⟩ := n.exists_apply_eq op
  rw [happly, hreceiver h]

theorem reliableAt_updateTopic (n : Node N) (key key' : Bytes)
    (f : TopicEntry → TopicEntry) :
    (n.updateTopic key f).reliableAt key' =
      if key = key' then (f ((n.topic? key).getD {})).reliable else n.reliableAt key' := by
  rw [reliableAt, topic?_updateTopic]
  split
  · rfl
  · rfl

theorem reliableAt_updateTopic_of_keep (n : Node N) (key key' : Bytes)
    {f : TopicEntry → TopicEntry} (hf : ∀ entry, (f entry).reliable = entry.reliable) :
    (n.updateTopic key f).reliableAt key' = n.reliableAt key' := by
  rw [reliableAt_updateTopic]
  split
  · rename_i hkey
    subst hkey
    rw [hf, reliableAt]
    cases n.topic? key <;> rfl
  · rfl

theorem reliableAt_registerTopic (n : Node N) (topicName : Bytes) (T : MessageName)
    (reliable : Bool) (key : Bytes) :
    (n.registerTopic topicName T reliable).reliableAt key =
      if makeCompositeKey topicName T.fullName = key then reliable
      else n.reliableAt key := by
  rw [registerTopic, reliableAt_updateTopic]

@[simp] theorem reliableAt_pushCallback (n : Node N) (topicName : Bytes)
    (T : MessageName) (invoke : Nat) (key : Bytes) :
    (n.pushCallback topicName T invoke).reliableAt key = n.reliableAt key :=
  reliableAt_updateTopic_of_keep n _ key fun _ => rfl

@[simp] theorem reliableAt_noteReliableSubscription (n : Node N) (key key' : Bytes)
    (reliable : Bool) :
    (n.noteReliableSubscription key reliable).reliableAt key' = n.reliableAt key' := by
  rw [noteReliableSubscription]
  split <;> rfl

theorem reliableAt_registerSubscriberTopic (n : Node N) (topicName : Bytes)
    (T : MessageName) (reliable : Bool) (key : Bytes) :
    (n.registerSubscriberTopic topicName T reliable).2.reliableAt key =
      if makeCompositeKey topicName T.fullName = key then reliable
      else n.reliableAt key := by
  rw [registerSubscriberTopic, reliableAt_noteReliableSubscription,
    reliableAt_registerTopic]

theorem reliableAt_registerSubscriberTopicWith (n : Node N) (topicName : Bytes)
    (T : MessageName) (callback : Option Nat) (reliable : Bool) (key : Bytes) :
    (n.registerSubscriberTopicWith topicName T callback reliable).2.reliableAt key =
      if makeCompositeKey topicName T.fullName = key ∧ callback.isSome then reliable
      else n.reliableAt key := by
  cases callback with
  | none => simp [registerSubscriberTopicWith]
  | some invoke =>
      rw [registerSubscriberTopicWith, reliableAt_registerSubscriberTopic,
        reliableAt_noteReliableSubscription, reliableAt_pushCallback,
        reliableAt_registerTopic]
      by_cases hkey : makeCompositeKey topicName T.fullName = key <;> simp [hkey]

theorem reliableAt_subscribe (n : Node N) (topicName : Bytes) (T : MessageName)
    (callback : Option Nat) (key : Bytes) :
    (n.subscribe topicName T callback).reliableAt key = n.reliableAt key := by
  cases callback with
  | none => rfl
  | some invoke =>
      simp only [subscribe]
      split
      · rfl
      · rw [reliableAt_pushCallback]

theorem reliableAt_unregisterPublisherTopic_of_ne (n : Node N) (topicName : Bytes)
    (T : MessageName) {key : Bytes} (hne : makeCompositeKey topicName T.fullName ≠ key) :
    (n.unregisterPublisherTopic topicName T).reliableAt key = n.reliableAt key := by
  rw [reliableAt, unregisterPublisherTopic, topic?_alterTopic, if_neg hne, reliableAt]

/-- The entry survives the loss of the local subscription only as the record of
remote peers. -/
theorem reliableAt_unregisterSubscriberTopic (n : Node N) (topicName : Bytes)
    (T : MessageName) (key : Bytes) :
    (n.unregisterSubscriberTopic topicName T).reliableAt key =
      if makeCompositeKey topicName T.fullName = key then
        (n.topic? key).any fun entry =>
          entry.reliable && !(entry.publishers.isEmpty && entry.subscribers.isEmpty)
      else n.reliableAt key := by
  rw [unregisterSubscriberTopic]
  split
  · rename_i hnone
    split
    · rename_i hkey
      subst hkey
      rw [reliableAt, hnone]
      rfl
    · rfl
  · change ((n.alterTopic _ _).topic? key).any _ = _
    rw [topic?_alterTopic]
    split
    · rename_i hkey
      subst hkey
      cases n.topic? (makeCompositeKey topicName T.fullName) with
      | none => rfl
      | some entry =>
          rw [Option.bind_some, Option.any_some]
          split
          · rename_i hempty
            simp [hempty]
          · rename_i hsome
            simp [hsome]
    · rfl

theorem reliableAt_handleTopicAnnouncement (n : Node N) (sender : Identity)
    (topicName messageType : Bytes) (isPublisher : Bool) (key : Bytes) :
    (n.handleTopicAnnouncement sender topicName messageType isPublisher).reliableAt key =
      n.reliableAt key := by
  rw [handleTopicAnnouncement]
  split
  · rfl
  · refine reliableAt_updateTopic_of_keep n _ key fun entry => ?_
    cases isPublisher <;> rfl

theorem reliableAt_handleParticipantHeartbeat (n : Node N) (now : Int)
    (sender : Identity) (endpoints : List Endpoint) (key : Bytes) :
    (n.handleParticipantHeartbeat now sender endpoints).reliableAt key =
      n.reliableAt key := by
  rw [reliableAt, topic?_handleParticipantHeartbeat, reliableAt]

/-- Something keeps the entry through a cleanup: a local callback, or a peer that
is not stale. -/
def Survives (n : Node N) (now : UInt64 → Int) (entry : TopicEntry) : Bool :=
  (purge (n.staleParticipants now) entry).isSome

theorem reliableAt_removeTimedOutParticipants (n : Node N) (now : UInt64 → Int)
    (key : Bytes) :
    (n.removeTimedOutParticipants now).reliableAt key =
      (n.topic? key).any fun entry => entry.reliable && n.Survives now entry := by
  rw [reliableAt, topic?_removeTimedOutParticipants]
  cases n.topic? key with
  | none => rfl
  | some entry =>
      rw [Option.bind_some, Option.any_some, Survives, purge]
      split <;> simp

/-- The latest publisher registration of the topic was reliable and has not been
taken back. -/
def latestReliable (topicName : Bytes) (T : MessageName) (ops : List Operation) : Bool :=
  ops.foldl (fun latest op =>
    match op with
    | .registerPublisherTopic topicName' T' reliable =>
        if topicName' = topicName ∧ T' = T then reliable else latest
    | .unregisterPublisherTopic topicName' T' =>
        if topicName' = topicName ∧ T' = T then false else latest
    | _ => latest) false

/-- The operation leaves a reliable entry of the topic alone: it does not
register the same topic as a best-effort subscription, does not unregister a
subscription whose entry tracks no peer, and does not clean up an entry with no
callback and no live peer. -/
def Spares (n : Node N) (topicName : Bytes) (T : MessageName) : Operation → Prop
  | .registerSubscriberTopic topicName' T' reliable =>
      topicName' = topicName ∧ T' = T → reliable = true
  | .registerSubscriberTopicWith topicName' T' callback reliable =>
      (topicName' = topicName ∧ T' = T) ∧ callback.isSome → reliable = true
  | .unregisterSubscriberTopic topicName' T' =>
      topicName' = topicName ∧ T' = T →
        ∀ entry ∈ n.topic? (makeCompositeKey topicName T.fullName),
          (!(entry.publishers.isEmpty && entry.subscribers.isEmpty)) = true
  | .removeTimedOutParticipants now =>
      ∀ entry ∈ n.topic? (makeCompositeKey topicName T.fullName),
        n.Survives now entry = true
  | _ => True

theorem latestReliable_concat (topicName : Bytes) (T : MessageName)
    (ops : List Operation) (op : Operation) :
    latestReliable topicName T (ops ++ [op]) =
      match op with
      | .registerPublisherTopic topicName' T' reliable =>
          if topicName' = topicName ∧ T' = T then reliable
          else latestReliable topicName T ops
      | .unregisterPublisherTopic topicName' T' =>
          if topicName' = topicName ∧ T' = T then false
          else latestReliable topicName T ops
      | _ => latestReliable topicName T ops := by
  rw [latestReliable, List.foldl_append, List.foldl_cons, List.foldl_nil]
  rfl

/-- An operation on a reliable topic keeps it reliable exactly when it spares it. -/
theorem reliableAt_apply_iff_spares (n : Node N) {topicName : Bytes} {T : MessageName}
    {ops : List Operation} (op : Operation)
    (hreliable : n.reliableAt (makeCompositeKey topicName T.fullName) = true)
    (hbefore : latestReliable topicName T ops = true)
    (hlatest : latestReliable topicName T (ops ++ [op]) = true) :
    (n.apply op).reliableAt (makeCompositeKey topicName T.fullName) = true ↔
      n.Spares topicName T op := by
  obtain ⟨entry, hentry, hbit⟩ : ∃ entry, n.topic? (makeCompositeKey topicName T.fullName) =
      some entry ∧ entry.reliable = true := by
    simpa [reliableAt, Option.any_eq_true] using hreliable
  rw [latestReliable_concat, hbefore] at hlatest
  cases op with
  | registerPublisherTopic topicName' T' reliable =>
      simp only [apply, registerPublisherTopic, reliableAt_registerTopic,
        makeCompositeKey_inj, hreliable, Spares, iff_true]
      exact hlatest
  | registerSubscriberTopic topicName' T' reliable =>
      simp only [apply, reliableAt_registerSubscriberTopic, makeCompositeKey_inj,
        hreliable, Spares]
      split_ifs with hpair <;> simp [hpair]
  | registerSubscriberTopicWith topicName' T' callback reliable =>
      simp only [apply, reliableAt_registerSubscriberTopicWith, makeCompositeKey_inj,
        hreliable, Spares]
      split_ifs with hpair <;> simp [hpair]
  | subscribe topicName' T' callback =>
      simp only [apply, reliableAt_subscribe, hreliable, Spares]
  | unregisterPublisherTopic topicName' T' =>
      have hpair : ¬ (topicName' = topicName ∧ T' = T) := by
        intro hpair
        simp [hpair] at hlatest
      have hne := makeCompositeKey_inj.not.mpr hpair
      simp only [apply, reliableAt_unregisterPublisherTopic_of_ne n topicName' T' hne,
        hreliable, Spares]
  | unregisterSubscriberTopic topicName' T' =>
      simp only [apply, reliableAt_unregisterSubscriberTopic, makeCompositeKey_inj,
        hreliable, Spares, hentry, Option.any_some, hbit, Bool.true_and,
        Option.mem_some_iff, forall_eq']
      split_ifs with hpair <;> simp [hpair]
  | heartbeat now sender endpoints =>
      simp only [apply, reliableAt_handleParticipantHeartbeat, hreliable, Spares]
  | announcement sender topicName' messageType isPublisher =>
      simp only [apply, reliableAt_handleTopicAnnouncement, hreliable, Spares]
  | removeTimedOutParticipants now =>
      simp only [apply, reliableAt_removeTimedOutParticipants, hentry, Option.any_some,
        hbit, Bool.true_and, Spares, Option.mem_some_iff, forall_eq']

theorem reliableAt_apply_of_registered (n : Node N) {topicName : Bytes} {T : MessageName}
    {ops : List Operation} (op : Operation)
    (hbefore : latestReliable topicName T ops = false)
    (hlatest : latestReliable topicName T (ops ++ [op]) = true) :
    (n.apply op).reliableAt (makeCompositeKey topicName T.fullName) = true := by
  rw [latestReliable_concat, hbefore] at hlatest
  cases op with
  | registerPublisherTopic topicName' T' reliable =>
      obtain ⟨hpair, rfl⟩ : (topicName' = topicName ∧ T' = T) ∧ reliable = true := by
        simpa using hlatest
      simp only [apply, registerPublisherTopic, reliableAt_registerTopic,
        makeCompositeKey_inj, if_pos hpair]
  | unregisterPublisherTopic topicName' T' => simp at hlatest
  | _ => simp at hlatest

/-- The topic takes the reliable path at the end of every initial part of the run
that leaves its latest publisher registration reliable. -/
def StaysReliable (n : Node N) (topicName : Bytes) (T : MessageName)
    (ops : List Operation) : Prop :=
  ∀ before after payload, ops = before ++ after →
    latestReliable topicName T before = true →
      (n.run before).sendMessage topicName T (some payload) =
        some (.publishReliable topicName T.fullName payload)

def AllSpare (n : Node N) (topicName : Bytes) (T : MessageName)
    (ops : List Operation) : Prop :=
  ∀ before op after, ops = before ++ op :: after →
    latestReliable topicName T before = true →
      latestReliable topicName T (before ++ [op]) = true →
        (n.run before).Spares topicName T op

theorem sendMessage_eq_publishReliable_iff (n : Node N) (topicName : Bytes)
    (T : MessageName) (payload : Bytes) :
    n.sendMessage topicName T (some payload) =
        some (.publishReliable topicName T.fullName payload) ↔
      n.reliableAt (makeCompositeKey topicName T.fullName) = true := by
  rw [sendMessage]
  split <;> simp_all

/-- A run keeps a reliable publisher topic on the reliable path throughout
exactly when every operation spares it. -/
theorem staysReliable_iff (n : Node N) (topicName : Bytes) (T : MessageName)
    (ops : List Operation) :
    n.StaysReliable topicName T ops ↔ n.AllSpare topicName T ops := by
  constructor
  · intro hstays before op after hsplit hbefore hlatest
    have hprev := (sendMessage_eq_publishReliable_iff _ topicName T []).mp
      (hstays before (op :: after) [] hsplit hbefore)
    have hnext := (sendMessage_eq_publishReliable_iff _ topicName T []).mp
      (hstays (before ++ [op]) after [] (by simp [hsplit]) hlatest)
    rw [run_concat] at hnext
    exact (reliableAt_apply_iff_spares _ op hprev hbefore hlatest).mp hnext
  · intro hspare before after payload hsplit hlatest
    rw [sendMessage_eq_publishReliable_iff]
    clear payload
    induction before using List.reverseRecOn generalizing after with
    | nil => simp [latestReliable] at hlatest
    | append_singleton before op ih =>
        have hcut : ops = before ++ op :: after := by simpa using hsplit
        rw [run_concat]
        cases hbefore : latestReliable topicName T before with
        | false => exact reliableAt_apply_of_registered _ op hbefore hlatest
        | true =>
            exact (reliableAt_apply_iff_spares _ op (ih _ hcut hbefore) hbefore hlatest).mpr
              (hspare before op after hcut hbefore hlatest)

/-- A subscriber is heard of and the node subscribes reliably, which spares the topic; then it
subscribes as best-effort. -/
def downgraded : List Operation :=
  [.registerPublisherTopic [116] typeT true, .announcement ⟨7, 7, 7⟩ [116] [84] false,
    .registerSubscriberTopic [116] typeT true, .registerSubscriberTopic [116] typeT false]

theorem staysReliable_iff_one_shard :
    (∀ k, StaysReliable (N := 1) { selfParticipant := ⟨1, 0, 3⟩ } [116] typeT
        (downgraded.take k) ↔
      AllSpare (N := 1) { selfParticipant := ⟨1, 0, 3⟩ } [116] typeT (downgraded.take k)) ∧
    ¬ AllSpare (N := 1) { selfParticipant := ⟨1, 0, 3⟩ } [116] typeT downgraded := by
  refine ⟨fun k => staysReliable_iff _ _ _ _, fun hspare => ?_⟩
  have hstays := (staysReliable_iff _ _ _ _).mpr hspare
  have hroute := hstays downgraded [] [1] (List.append_nil _).symm (by decide)
  revert hroute
  decide

/-- A best-effort subscription on the publisher's own node downgrades the topic. -/
theorem staysReliable_subscriber_fails :
    ¬ StaysReliable (N := 1) { selfParticipant := ⟨1, 0, 3⟩ } [116] typeT
      [.registerPublisherTopic [116] typeT true,
        .registerSubscriberTopic [116] typeT false] := by
  intro hstays
  have hroute := hstays _ [] [1] (List.append_nil _).symm (by decide)
  revert hroute
  decide

end Node

end Edriel
