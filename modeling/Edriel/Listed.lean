import Edriel.QosRouting

namespace Edriel

open Proto3 Std

/-- The publishers of an entry, or its subscribers. -/
def TopicEntry.side (isPublisher : Bool) (e : TopicEntry) : ExtTreeSet Identity :=
  if isPublisher then e.publishers else e.subscribers

/-- A change that leaves both sides of the entry as they are. -/
def TopicEntry.SameSides (e e' : TopicEntry) : Prop :=
  e'.publishers = e.publishers ∧ e'.subscribers = e.subscribers

theorem TopicEntry.SameSides.side {e e' : TopicEntry} (h : e.SameSides e') (isPublisher : Bool) :
    e'.side isPublisher = e.side isPublisher := by
  rw [TopicEntry.side, TopicEntry.side, h.1, h.2]

theorem TopicEntry.not_mem_side_empty (isPublisher : Bool) (p : Identity) :
    p ∉ ({} : TopicEntry).side isPublisher := by
  cases isPublisher <;> exact ExtTreeSet.not_mem_empty

namespace Node

variable {N : Nat} [NeZero N]

/-- `p` stands on one side of the entry that shard `i` has under the key. -/
def ListedAt (n : Node N) (i : Fin N) (key : Bytes) (isPublisher : Bool) (p : Identity) : Prop :=
  ∃ e, (n.shards i).topics[key]? = some e ∧ p ∈ e.side isPublisher

omit [NeZero N] in
theorem shards_noteReliableSubscription (n : Node N) (key : Bytes) (reliable : Bool) :
    (n.noteReliableSubscription key reliable).shards = n.shards := by
  rw [noteReliableSubscription]
  split <;> rfl

variable {n : Node N} {i : Fin N} {key : Bytes} {side : Bool} {p : Identity}

theorem listedAt_alterTopic {key' : Bytes} {f : Option TopicEntry → Option TopicEntry}
    (hf : ∀ old entry, f old = some entry → p ∈ entry.side side →
      ∃ e, old = some e ∧ p ∈ e.side side)
    (h : (n.alterTopic key' f).ListedAt i key side p) : n.ListedAt i key side p := by
  obtain ⟨e, he, hp⟩ := h
  simp only [alterTopic, Function.update_apply] at he
  split at he
  · rename_i hi
    subst hi
    rw [ExtTreeMap.getElem?_alter] at he
    split at he
    · rename_i hkey
      obtain rfl := LawfulEqOrd.compare_eq_iff_eq.mp hkey
      exact hf _ e he hp
    · exact ⟨e, he, hp⟩
  · exact ⟨e, he, hp⟩

theorem listedAt_updateTopic {key' : Bytes} {f : TopicEntry → TopicEntry}
    (hf : ∀ entry : TopicEntry, entry.SameSides (f entry))
    (h : (n.updateTopic key' f).ListedAt i key side p) : n.ListedAt i key side p := by
  refine listedAt_alterTopic (fun old entry hentry hp => ?_) h
  obtain rfl := Option.some.inj hentry
  rw [(hf _).side] at hp
  cases old with
  | none => exact absurd hp (TopicEntry.not_mem_side_empty side p)
  | some e => exact ⟨e, rfl, hp⟩

theorem listedAt_alterTopic_bind {key' : Bytes} {g : TopicEntry → Option TopicEntry}
    (hg : ∀ e entry, g e = some entry → e.SameSides entry)
    (h : (n.alterTopic key' fun old => old.bind g).ListedAt i key side p) :
    n.ListedAt i key side p := by
  refine listedAt_alterTopic (fun old entry hentry hp => ?_) h
  obtain ⟨e, hold, hkept⟩ := Option.bind_eq_some_iff.mp hentry
  rw [(hg e entry hkept).side] at hp
  exact ⟨e, hold, hp⟩

theorem listedAt_registerTopic {topicName : Bytes} {T : MessageName} {reliable : Bool}
    (h : (n.registerTopic topicName T reliable).ListedAt i key side p) :
    n.ListedAt i key side p := by
  refine listedAt_updateTopic ?_ h
  exact fun _ => ⟨rfl, rfl⟩

theorem listedAt_pushCallback {topicName : Bytes} {T : MessageName} {invoke : Nat}
    (h : (n.pushCallback topicName T invoke).ListedAt i key side p) :
    n.ListedAt i key side p := by
  refine listedAt_updateTopic ?_ h
  exact fun _ => ⟨rfl, rfl⟩

theorem listedAt_registerSubscriberTopic {topicName : Bytes} {T : MessageName}
    {reliable : Bool}
    (h : (n.registerSubscriberTopic topicName T reliable).2.ListedAt i key side p) :
    n.ListedAt i key side p := by
  rw [registerSubscriberTopic, ListedAt, shards_noteReliableSubscription] at h
  exact listedAt_registerTopic h

theorem listedAt_unregisterPublisherTopic {topicName : Bytes} {T : MessageName}
    (h : (n.unregisterPublisherTopic topicName T).ListedAt i key side p) :
    n.ListedAt i key side p := by
  refine listedAt_alterTopic_bind (fun e entry hkept => ?_) h
  split at hkept
  · cases hkept
  · obtain rfl := Option.some.inj hkept
    exact ⟨rfl, rfl⟩

theorem listedAt_unregisterSubscriberTopic {topicName : Bytes} {T : MessageName}
    (h : (n.unregisterSubscriberTopic topicName T).ListedAt i key side p) :
    n.ListedAt i key side p := by
  rw [unregisterSubscriberTopic] at h
  split at h
  · exact h
  · refine listedAt_alterTopic_bind (fun e entry hkept => ?_) h
    split at hkept
    · cases hkept
    · obtain rfl := Option.some.inj hkept
      exact ⟨rfl, rfl⟩

theorem listedAt_handleTopicAnnouncement {sender : Identity} {topicName messageType : Bytes}
    {isPublisher : Bool}
    (h : (n.handleTopicAnnouncement sender topicName messageType isPublisher).ListedAt
      i key side p) : n.ListedAt i key side p ∨ p = sender := by
  by_cases hsender : p = sender
  · exact .inr hsender
  · rw [handleTopicAnnouncement] at h
    split at h
    · exact .inl h
    · refine .inl (listedAt_alterTopic (fun old entry hentry hp => ?_) h)
      obtain rfl := Option.some.inj hentry
      have hkept : p ∈ (old.getD {}).side side := by
        cases isPublisher <;> cases side <;>
          simp only [TopicEntry.side, if_true, Bool.false_eq_true, if_false,
            ExtTreeSet.mem_insert, LawfulEqOrd.compare_eq_iff_eq, Ne.symm hsender,
            false_or] at hp ⊢ <;> exact hp
      cases old with
      | none => exact absurd hkept (TopicEntry.not_mem_side_empty side p)
      | some e => exact ⟨e, rfl, hkept⟩

theorem listedAt_handleParticipantHeartbeat {now : Int} {sender : Identity}
    {endpoints : List Endpoint}
    (h : (n.handleParticipantHeartbeat now sender endpoints).ListedAt i key side p) :
    n.ListedAt i key side p := by
  rw [handleParticipantHeartbeat] at h
  split at h
  · exact h
  · obtain ⟨e, he, hp⟩ := h
    refine ⟨e, ?_, hp⟩
    simp only [alterParticipant, Function.update_apply] at he
    split at he
    · rename_i hi
      exact hi ▸ he
    · exact he

omit [NeZero N] in
theorem listedAt_removeTimedOutParticipants {now : UInt64 → Int}
    (h : (n.removeTimedOutParticipants now).ListedAt i key side p) :
    n.ListedAt i key side p := by
  obtain ⟨e, he, hp⟩ := h
  simp only [removeTimedOutParticipants] at he
  rw [ExtTreeMap.getElem?_filterMap'] at he
  obtain ⟨old, hold, hpurge⟩ := Option.bind_eq_some_iff.mp he
  rw [purge] at hpurge
  split at hpurge
  · cases hpurge
  · obtain rfl := Option.some.inj hpurge
    refine ⟨old, hold, ?_⟩
    cases side with
    | true => exact ExtTreeSet.mem_of_mem_filter hp
    | false => exact ExtTreeSet.mem_of_mem_filter hp

/-- Only an announcement adds to an entry, and only its sender. -/
theorem listedAt_apply {op : Operation} (h : (n.apply op).ListedAt i key side p) :
    n.ListedAt i key side p ∨
      ∃ topicName messageType isPublisher,
        op = .announcement p topicName messageType isPublisher := by
  cases op with
  | registerPublisherTopic topicName T reliable => exact .inl (listedAt_registerTopic h)
  | registerSubscriberTopic topicName T reliable =>
      exact .inl (listedAt_registerSubscriberTopic h)
  | registerSubscriberTopicWith topicName T callback reliable =>
      cases callback with
      | none => exact .inl h
      | some invoke =>
          have hpushed := listedAt_registerSubscriberTopic h
          rw [ListedAt, shards_noteReliableSubscription] at hpushed
          exact .inl (listedAt_registerTopic (listedAt_pushCallback hpushed))
  | subscribe topicName T callback =>
      cases callback with
      | none => exact .inl h
      | some invoke =>
          rw [apply, subscribe] at h
          split at h
          · exact .inl h
          · exact .inl (listedAt_pushCallback h)
  | unregisterPublisherTopic topicName T =>
      exact .inl (listedAt_unregisterPublisherTopic h)
  | unregisterSubscriberTopic topicName T =>
      exact .inl (listedAt_unregisterSubscriberTopic h)
  | heartbeat now sender endpoints => exact .inl (listedAt_handleParticipantHeartbeat h)
  | announcement sender topicName messageType isPublisher =>
      rcases listedAt_handleTopicAnnouncement h with h | rfl
      · exact .inl h
      · exact .inr ⟨topicName, messageType, isPublisher, rfl⟩
  | removeTimedOutParticipants now => exact .inl (listedAt_removeTimedOutParticipants h)

end Node

end Edriel
