import Edriel.QosRouting

namespace Edriel

open Proto3 Std

namespace Node

variable {N : Nat} [NeZero N]

/-- The callbacks an operation leaves registered for a topic name and message
type.  `subscribe` needs an entry, and unregistering drops them all. -/
def noteSubscription (n : Node N) (topicName messageType : Bytes) (callbacks : List Nat) :
    Operation → List Nat
  | .registerSubscriberTopicWith topicName' T (some invoke) _ =>
      if topicName' = topicName ∧ T.fullName = messageType then callbacks ++ [invoke]
      else callbacks
  | .subscribe topicName' T (some invoke) =>
      if (topicName' = topicName ∧ T.fullName = messageType) ∧
          (n.topic? (makeCompositeKey topicName messageType)).isSome then
        callbacks ++ [invoke]
      else callbacks
  | .unregisterSubscriberTopic topicName' T =>
      if topicName' = topicName ∧ T.fullName = messageType then [] else callbacks
  | _ => callbacks

/-- The callbacks of the topic's entry that match the message type. -/
def callbacksFor (n : Node N) (topicName messageType : Bytes) : List Callback :=
  match n.topic? (makeCompositeKey topicName messageType) with
  | none => []
  | some entry => entry.callbacks.filter fun cb => cb.messageType == messageType

/-- The registry has exactly `callbacks` for the topic, in this order. -/
structure Subscribed (n : Node N) (topicName messageType : Bytes) (callbacks : List Nat) :
    Prop where
  callbacksFor : n.callbacksFor topicName messageType =
    callbacks.map fun invoke => ⟨messageType, invoke⟩
  nil_of_mem : kTopicKeySeparator ∈ messageType → callbacks = []

/-- Every entry lies in the shard that owns its key. -/
def Placed (n : Node N) : Prop :=
  ∀ i key entry, (n.shards i).topics[key]? = some entry → i = shardIndexForTopic key

def entryCallbacks (messageType : Bytes) (entry : Option TopicEntry) : List Callback :=
  (entry.getD {}).callbacks.filter fun cb => cb.messageType == messageType

theorem callbacksFor_eq (n : Node N) (topicName messageType : Bytes) :
    n.callbacksFor topicName messageType =
      entryCallbacks messageType (n.topic? (makeCompositeKey topicName messageType)) := by
  rw [callbacksFor]
  cases n.topic? (makeCompositeKey topicName messageType) <;> rfl

theorem callbacksFor_alterTopic (n : Node N) (key : Bytes)
    (f : Option TopicEntry → Option TopicEntry) (topicName messageType : Bytes) :
    (n.alterTopic key f).callbacksFor topicName messageType =
      if key = makeCompositeKey topicName messageType then
        entryCallbacks messageType (f (n.topic? key))
      else n.callbacksFor topicName messageType := by
  rw [callbacksFor_eq, callbacksFor_eq, topic?_alterTopic]
  split <;> rfl

theorem callbacksFor_alterTopic_of_keep {n : Node N} {key : Bytes}
    {f : Option TopicEntry → Option TopicEntry}
    (hf : ∀ old, ((f old).getD {}).callbacks = (old.getD {}).callbacks)
    (topicName messageType : Bytes) :
    (n.alterTopic key f).callbacksFor topicName messageType =
      n.callbacksFor topicName messageType := by
  rw [callbacksFor_alterTopic]
  split
  · rename_i hkey
    rw [callbacksFor_eq, ← hkey, entryCallbacks, hf, entryCallbacks]
  · rfl

@[simp] theorem callbacksFor_registerTopic (n : Node N) (topicName' : Bytes) (T : MessageName)
    (reliable : Bool) (topicName messageType : Bytes) :
    (n.registerTopic topicName' T reliable).callbacksFor topicName messageType =
      n.callbacksFor topicName messageType := by
  refine callbacksFor_alterTopic_of_keep ?_ _ _
  exact fun _ => rfl

@[simp] theorem callbacksFor_noteReliableSubscription (n : Node N) (key : Bytes)
    (reliable : Bool) (topicName messageType : Bytes) :
    (n.noteReliableSubscription key reliable).callbacksFor topicName messageType =
      n.callbacksFor topicName messageType := by
  rw [noteReliableSubscription]
  split <;> rfl

@[simp] theorem callbacksFor_registerSubscriberTopic (n : Node N) (topicName' : Bytes)
    (T : MessageName) (reliable : Bool) (topicName messageType : Bytes) :
    (n.registerSubscriberTopic topicName' T reliable).2.callbacksFor topicName messageType =
      n.callbacksFor topicName messageType := by
  rw [registerSubscriberTopic, callbacksFor_noteReliableSubscription,
    callbacksFor_registerTopic]

theorem key_eq_iff {topicName topicName' messageType : Bytes} {T : MessageName}
    (htype : T.fullName = messageType) :
    makeCompositeKey topicName' T.fullName = makeCompositeKey topicName messageType ↔
      topicName' = topicName := by
  rw [← htype]
  exact makeCompositeKey_inj.trans (and_iff_left rfl)

theorem callbacksFor_pushCallback (n : Node N) (topicName' : Bytes) (T : MessageName)
    (invoke : Nat) (topicName messageType : Bytes) :
    (n.pushCallback topicName' T invoke).callbacksFor topicName messageType =
      n.callbacksFor topicName messageType ++
        if topicName' = topicName ∧ T.fullName = messageType then [⟨messageType, invoke⟩]
        else [] := by
  rw [pushCallback, updateTopic, callbacksFor_alterTopic]
  by_cases htype : T.fullName = messageType
  · by_cases hkey : topicName' = topicName
    · subst htype hkey
      rw [if_pos rfl, if_pos ⟨rfl, rfl⟩, callbacksFor_eq]
      simp [entryCallbacks]
    · rw [if_neg ((key_eq_iff htype).not.mpr hkey), if_neg (fun h => hkey h.1),
        List.append_nil]
  · have hother : ¬ (topicName' = topicName ∧ T.fullName = messageType) := fun h => htype h.2
    rw [if_neg hother, List.append_nil]
    split
    · rename_i hkey
      rw [callbacksFor_eq, ← hkey]
      simp [entryCallbacks, htype]
    · rfl

theorem callbacksFor_removeTimedOutParticipants (n : Node N) (now : UInt64 → Int)
    (topicName messageType : Bytes) :
    (n.removeTimedOutParticipants now).callbacksFor topicName messageType =
      n.callbacksFor topicName messageType := by
  rw [callbacksFor_eq, callbacksFor_eq, topic?_removeTimedOutParticipants]
  cases n.topic? (makeCompositeKey topicName messageType) with
  | none => rfl
  | some entry =>
      rw [Option.bind_some, purge]
      split
      · rename_i hempty
        have hnil : entry.callbacks = [] := by
          simp only [Bool.and_eq_true, List.isEmpty_iff] at hempty
          exact hempty.2
        simp [entryCallbacks, hnil]
      · rfl

theorem callbacksFor_handleTopicAnnouncement (n : Node N) (sender : Identity)
    (topicName' messageType' : Bytes) (isPublisher : Bool) (topicName messageType : Bytes) :
    (n.handleTopicAnnouncement sender topicName' messageType' isPublisher).callbacksFor
        topicName messageType = n.callbacksFor topicName messageType := by
  rw [handleTopicAnnouncement]
  split
  · rfl
  · refine callbacksFor_alterTopic_of_keep (fun old => ?_) _ _
    cases isPublisher <;> rfl

theorem callbacksFor_handleParticipantHeartbeat (n : Node N) (now : Int) (sender : Identity)
    (endpoints : List Endpoint) (topicName messageType : Bytes) :
    (n.handleParticipantHeartbeat now sender endpoints).callbacksFor topicName messageType =
      n.callbacksFor topicName messageType := by
  rw [callbacksFor, topic?_handleParticipantHeartbeat, callbacksFor]

theorem callbacksFor_unregisterPublisherTopic (n : Node N) (topicName' : Bytes)
    (T : MessageName) (topicName messageType : Bytes) :
    (n.unregisterPublisherTopic topicName' T).callbacksFor topicName messageType =
      n.callbacksFor topicName messageType := by
  refine callbacksFor_alterTopic_of_keep (fun old => ?_) _ _
  cases old with
  | none => rfl
  | some entry =>
      rw [Option.bind_some]
      split
      · rename_i hempty
        exact (List.isEmpty_iff.mp hempty).symm
      · rfl

theorem callbacksFor_unregisterSubscriberTopic (n : Node N) (topicName' : Bytes)
    (T : MessageName) (topicName messageType : Bytes) :
    (n.unregisterSubscriberTopic topicName' T).callbacksFor topicName messageType =
      if makeCompositeKey topicName' T.fullName = makeCompositeKey topicName messageType then []
      else n.callbacksFor topicName messageType := by
  rw [unregisterSubscriberTopic]
  split
  · rename_i hnone
    split
    · rename_i hkey
      rw [callbacksFor_eq, ← hkey, hnone]
      rfl
    · rfl
  · refine (callbacksFor_alterTopic n _ _ _ _).trans ?_
    split
    · cases n.topic? (makeCompositeKey topicName' T.fullName) with
      | none => rfl
      | some entry =>
          rw [Option.bind_some]
          split <;> rfl
    · rfl

theorem Subscribed.push {n n' : Node N} {topicName messageType topicName' : Bytes}
    {callbacks : List Nat} {T : MessageName} {invoke : Nat}
    (h : n.Subscribed topicName messageType callbacks)
    (hpush : n'.callbacksFor topicName messageType =
      n.callbacksFor topicName messageType ++
        if topicName' = topicName ∧ T.fullName = messageType then [⟨messageType, invoke⟩]
        else []) :
    n'.Subscribed topicName messageType
      (if topicName' = topicName ∧ T.fullName = messageType then callbacks ++ [invoke]
        else callbacks) := by
  rw [h.callbacksFor] at hpush
  split
  · rename_i hpair
    rw [if_pos hpair] at hpush
    refine ⟨by rw [hpush, List.map_append, List.map_singleton], fun hmem => ?_⟩
    exact absurd (hpair.2 ▸ hmem) T.separator_notMem
  · rename_i hpair
    rw [if_neg hpair, List.append_nil] at hpush
    exact ⟨hpush, h.nil_of_mem⟩

/-- An operation changes the callbacks of a topic as `noteSubscription` says. -/
theorem subscribed_apply {n : Node N} {topicName messageType : Bytes} {callbacks : List Nat}
    (h : n.Subscribed topicName messageType callbacks) (op : Operation) :
    (n.apply op).Subscribed topicName messageType
      (n.noteSubscription topicName messageType callbacks op) := by
  have hkeep : ∀ {n' : Node N}, n'.callbacksFor topicName messageType =
      n.callbacksFor topicName messageType → n'.Subscribed topicName messageType callbacks :=
    fun hsame => ⟨hsame.trans h.callbacksFor, h.nil_of_mem⟩
  cases op with
  | registerPublisherTopic topicName' T reliable =>
      exact hkeep (callbacksFor_registerTopic n topicName' T reliable _ _)
  | registerSubscriberTopic topicName' T reliable =>
      exact hkeep (callbacksFor_registerSubscriberTopic n topicName' T reliable _ _)
  | registerSubscriberTopicWith topicName' T callback reliable =>
      cases callback with
      | none => exact hkeep rfl
      | some invoke =>
          refine h.push ?_
          rw [apply, registerSubscriberTopicWith, callbacksFor_registerSubscriberTopic,
            callbacksFor_noteReliableSubscription, callbacksFor_pushCallback,
            callbacksFor_registerTopic]
  | subscribe topicName' T callback =>
      cases callback with
      | none => exact hkeep rfl
      | some invoke =>
          rw [apply, subscribe, noteSubscription]
          cases hentry : n.topic? (makeCompositeKey topicName' T.fullName) with
          | none =>
              have hother : ¬ ((topicName' = topicName ∧ T.fullName = messageType) ∧
                  (n.topic? (makeCompositeKey topicName messageType)).isSome) := by
                rintro ⟨⟨rfl, rfl⟩, hsome⟩
                simp [hentry] at hsome
              rw [if_neg hother]
              exact h
          | some entry =>
              have hsame : ((topicName' = topicName ∧ T.fullName = messageType) ∧
                  (n.topic? (makeCompositeKey topicName messageType)).isSome) ↔
                    topicName' = topicName ∧ T.fullName = messageType := by
                refine and_iff_left_of_imp ?_
                rintro ⟨rfl, rfl⟩
                simp [hentry]
              simp only [hsame]
              exact h.push (callbacksFor_pushCallback n topicName' T invoke _ _)
  | unregisterPublisherTopic topicName' T =>
      exact hkeep (callbacksFor_unregisterPublisherTopic n topicName' T _ _)
  | unregisterSubscriberTopic topicName' T =>
      have hafter := callbacksFor_unregisterSubscriberTopic n topicName' T topicName messageType
      rw [apply, noteSubscription]
      split
      · rename_i hpair
        rw [if_pos (by rw [hpair.1, hpair.2])] at hafter
        exact ⟨hafter, fun _ => rfl⟩
      · rename_i hpair
        split at hafter
        · rename_i hkey
          -- the keys agree but the names do not: the type holds a separator
          have hmem : kTopicKeySeparator ∈ messageType := by
            by_contra hfree
            have heq := Text.cut_last T.separator_notMem hfree hkey
            exact hpair heq
          have hnil := h.nil_of_mem hmem
          subst hnil
          exact ⟨hafter, fun _ => rfl⟩
        · exact hkeep hafter
  | heartbeat now sender endpoints =>
      exact hkeep (callbacksFor_handleParticipantHeartbeat n now sender endpoints _ _)
  | announcement sender topicName' messageType' isPublisher =>
      exact hkeep
        (callbacksFor_handleTopicAnnouncement n sender topicName' messageType' isPublisher _ _)
  | removeTimedOutParticipants now =>
      exact hkeep (callbacksFor_removeTimedOutParticipants n now _ _)

theorem Placed.alterTopic {n : Node N} (h : n.Placed) (key : Bytes)
    (f : Option TopicEntry → Option TopicEntry) : (n.alterTopic key f).Placed := by
  intro i key' entry hentry
  simp only [Node.alterTopic, Function.update_apply] at hentry
  split at hentry
  · rename_i hi
    rw [ExtTreeMap.getElem?_alter] at hentry
    split at hentry
    · rename_i hkey
      rw [hi, LawfulEqOrd.compare_eq_iff_eq.mp hkey]
    · exact h i key' entry (hi ▸ hentry)
  · exact h i key' entry hentry

theorem Placed.noteReliableSubscription {n : Node N} (h : n.Placed) (key : Bytes)
    (reliable : Bool) : (n.noteReliableSubscription key reliable).Placed := by
  rw [Node.noteReliableSubscription]
  split <;> exact h

theorem Placed.handleParticipantHeartbeat {n : Node N} (h : n.Placed) (now : Int)
    (sender : Identity) (endpoints : List Endpoint) :
    (n.handleParticipantHeartbeat now sender endpoints).Placed := by
  rw [Node.handleParticipantHeartbeat]
  split
  · exact h
  · intro i key entry hentry
    simp only [alterParticipant, Function.update_apply] at hentry
    split at hentry
    · rename_i hi
      exact h i key entry (hi ▸ hentry)
    · exact h i key entry hentry

theorem Placed.apply {n : Node N} (h : n.Placed) (op : Operation) : (n.apply op).Placed := by
  cases op with
  | registerPublisherTopic topicName T reliable => exact h.alterTopic _ _
  | registerSubscriberTopic topicName T reliable =>
      exact (h.alterTopic _ _).noteReliableSubscription _ _
  | registerSubscriberTopicWith topicName T callback reliable =>
      cases callback with
      | none => exact h
      | some invoke =>
          refine Placed.noteReliableSubscription (Placed.alterTopic ?_ _ _) _ _
          exact ((h.alterTopic _ _).alterTopic _ _).noteReliableSubscription _ _
  | subscribe topicName T callback =>
      cases callback with
      | none => exact h
      | some invoke =>
          rw [Node.apply, Node.subscribe]
          split
          · exact h
          · exact h.alterTopic _ _
  | unregisterPublisherTopic topicName T => exact h.alterTopic _ _
  | unregisterSubscriberTopic topicName T =>
      rw [Node.apply, Node.unregisterSubscriberTopic]
      split
      · exact h
      · exact h.alterTopic _ _
  | heartbeat now sender endpoints => exact h.handleParticipantHeartbeat _ _ _
  | announcement sender topicName messageType isPublisher =>
      rw [Node.apply, Node.handleTopicAnnouncement]
      split
      · exact h
      · exact h.alterTopic _ _
  | removeTimedOutParticipants now =>
      intro i key entry hentry
      simp only [Node.apply, Node.removeTimedOutParticipants] at hentry
      rw [ExtTreeMap.getElem?_filterMap'] at hentry
      obtain ⟨old, hold, -⟩ := Option.bind_eq_some_iff.mp hentry
      exact h i key old hold

theorem placed_fresh (me : Identity) (config : Config) :
    (fresh me config : Node N).Placed := by
  intro i key entry hentry
  simp [fresh] at hentry

theorem subscribed_fresh (me : Identity) (config : Config) (topicName messageType : Bytes) :
    (fresh me config : Node N).Subscribed topicName messageType [] := by
  refine ⟨?_, fun _ => rfl⟩
  rw [callbacksFor_eq, topic?, fresh]
  simp [entryCallbacks]

end Node

end Edriel
