import Edriel.TopicFrame

namespace Edriel

open Proto3 Std

theorem sendPacket_eq_none_iff (fs : List Field) :
    sendPacket fs = none ↔ recvBufferSize < (serialize fs).length + 4 := by
  have hmagic : ∀ body, (prependMagicNumberToPacket body).length = body.length + 4 := by
    intro body
    rw [prependMagicNumberToPacket, List.length_append, Nat.add_comm]
    rfl
  rw [sendPacket, serializeToString]
  by_cases hserialised : (serialize fs).length ≤ 2 ^ 31 - 1
  · rw [if_pos hserialised]
    change (if recvBufferSize < (prependMagicNumberToPacket (serialize fs)).length then none
      else some (prependMagicNumberToPacket (serialize fs))) = none ↔ _
    rw [hmagic]
    split_ifs with hlarge
    · exact iff_of_true rfl hlarge
    · exact iff_of_false (fun h => by cases h) hlarge
  · rw [if_neg hserialised]
    refine iff_of_true rfl ?_
    rw [recvBufferSize]
    omega

namespace Node

variable {N : Nat}

/-- The announcement of a registration is small enough to be sent. -/
def Announceable (n : Node N) (topicName : Bytes) (T : MessageName)
    (isPublisher reliable : Bool) : Prop :=
  (serialize (n.topicAdvertisement topicName T isPublisher reliable).toFields).length + 4 ≤
    recvBufferSize

theorem sendPacket_topicAdvertisement (n : Node N) (topicName : Bytes) (T : MessageName)
    (isPublisher reliable : Bool) :
    sendPacket (n.topicAdvertisement topicName T isPublisher reliable).toFields = none ↔
      ¬ n.Announceable topicName T isPublisher reliable := by
  rw [sendPacket_eq_none_iff, Announceable, Nat.not_le]

theorem not_announceable_of_long (n : Node N) {topicName : Bytes} (T : MessageName)
    (isPublisher reliable : Bool) (hlong : recvBufferSize ≤ topicName.length) :
    ¬ n.Announceable topicName T isPublisher reliable := by
  have hne : topicName ≠ [] := by
    rintro rfl
    exact absurd hlong (by decide)
  let t : Topic := { topicName, messageType := T.fullName, isPublisher, reliable }
  have hname : ⟨1, .bytes topicName⟩ ∈ t.toFields := by
    simp [t, Topic.toFields, bytesField, hne]
  have htopic : ⟨2, .bytes (serialize t.toFields)⟩ ∈
      (n.topicAdvertisement topicName T isPublisher reliable).toFields := by
    simp [t, topicAdvertisement, TopicAdvertisement.toFields, messageField]
  have hinner := length_le_of_mem_serialize hname
  have houter := length_le_of_mem_serialize htopic
  rw [Announceable]
  omega

@[simp] theorem selfParticipant_noteReliableSubscription (n : Node N) (key : Bytes)
    (reliable : Bool) :
    (n.noteReliableSubscription key reliable).selfParticipant = n.selfParticipant := by
  rw [noteReliableSubscription]
  split_ifs <;> rfl

theorem reliableSubscribedTopics_note (n : Node N) (key : Bytes) (reliable : Bool) :
    (n.noteReliableSubscription key reliable).reliableSubscribedTopics =
      if reliable then n.reliableSubscribedTopics.insert key
      else n.reliableSubscribedTopics := by
  rw [noteReliableSubscription]
  split_ifs <;> rfl

theorem noteReliableSubscription_eq_self_iff (n : Node N) (key : Bytes) (reliable : Bool) :
    n.noteReliableSubscription key reliable = n ↔
      (reliable = true → key ∈ n.reliableSubscribedTopics) := by
  constructor
  · rintro h rfl
    have htopics := n.reliableSubscribedTopics_note key true
    rw [h, if_pos rfl] at htopics
    exact insert_eq_self_iff.mp htopics.symm
  · intro h
    rw [noteReliableSubscription]
    split_ifs with hreliable
    · rw [insert_eq_self_iff.mpr (h hreliable)]
    · rfl

variable [NeZero N]

theorem alterTopic_eq_self {n : Node N} {key : Bytes}
    {f : Option TopicEntry → Option TopicEntry} (h : f (n.topic? key) = n.topic? key) :
    n.alterTopic key f = n := by
  have htopics : (n.shards (shardIndexForTopic key)).topics.alter key f =
      (n.shards (shardIndexForTopic key)).topics := by
    apply ExtTreeMap.ext_getElem?
    intro key'
    rw [ExtTreeMap.getElem?_alter]
    split_ifs with hkey
    · obtain rfl := LawfulEqOrd.compare_eq_iff_eq.mp hkey
      exact h
    · rfl
  rw [alterTopic, htopics, Function.update_eq_self]

/-- The entry has the names and the flag of a registration already. -/
def AlreadyRegistered (n : Node N) (topicName : Bytes) (T : MessageName) (reliable : Bool) : Prop :=
  ∃ entry, n.topic? (makeCompositeKey topicName T.fullName) = some entry ∧
    entry.topicName = topicName ∧ entry.messageType = T.fullName ∧ entry.reliable = reliable

theorem topic?_registerTopic_self (n : Node N) (topicName : Bytes) (T : MessageName)
    (reliable : Bool) :
    (n.registerTopic topicName T reliable).topic? (makeCompositeKey topicName T.fullName) =
      some { (n.topic? (makeCompositeKey topicName T.fullName)).getD {} with
        topicName, messageType := T.fullName, reliable } := by
  rw [registerTopic, topic?_updateTopic, if_pos rfl]

theorem registerTopic_eq_self_iff (n : Node N) (topicName : Bytes) (T : MessageName)
    (reliable : Bool) :
    n.registerTopic topicName T reliable = n ↔ n.AlreadyRegistered topicName T reliable := by
  constructor
  · intro h
    have hentry := n.topic?_registerTopic_self topicName T reliable
    rw [h] at hentry
    exact ⟨_, hentry, rfl, rfl, rfl⟩
  · rintro ⟨entry, hentry, rfl, htype, rfl⟩
    apply alterTopic_eq_self
    rw [hentry, Option.getD_some, ← htype]

@[simp] theorem topic?_noteReliableSubscription (n : Node N) (key key' : Bytes)
    (reliable : Bool) :
    (n.noteReliableSubscription key reliable).topic? key' = n.topic? key' := by
  rw [noteReliableSubscription]
  split_ifs <;> rfl

theorem registerSubscriberTopic_eq_self_iff (n : Node N) (topicName : Bytes) (T : MessageName)
    (reliable : Bool) :
    (n.registerSubscriberTopic topicName T reliable).2 = n ↔
      n.AlreadyRegistered topicName T reliable ∧
        (reliable = true →
          makeCompositeKey topicName T.fullName ∈ n.reliableSubscribedTopics) := by
  rw [← registerTopic_eq_self_iff, ← noteReliableSubscription_eq_self_iff]
  constructor
  · intro h
    have hregistered : n.registerTopic topicName T reliable = n := by
      rw [registerTopic_eq_self_iff]
      have hentry := n.topic?_registerTopic_self topicName T reliable
      rw [← topic?_noteReliableSubscription _ (makeCompositeKey topicName T.fullName) _
        reliable] at hentry
      change (n.registerSubscriberTopic topicName T reliable).2.topic? _ = _ at hentry
      rw [h] at hentry
      exact ⟨_, hentry, rfl, rfl, rfl⟩
    refine ⟨hregistered, ?_⟩
    change (n.registerTopic topicName T reliable).noteReliableSubscription _ reliable = n at h
    rwa [hregistered] at h
  · rintro ⟨hregistered, hnoted⟩
    rw [registerSubscriberTopic, hregistered]
    exact hnoted

theorem packet_registerPublisherTopic (n : Node N) (topicName : Bytes) (T : MessageName)
    (reliable : Bool) :
    (n.registerPublisherTopic topicName T reliable).1 =
      sendPacket (n.topicAdvertisement topicName T true reliable).toFields := by
  rw [registerPublisherTopic]

theorem packet_registerSubscriberTopic (n : Node N) (topicName : Bytes) (T : MessageName)
    (reliable : Bool) :
    (n.registerSubscriberTopic topicName T reliable).1 =
      sendPacket (n.topicAdvertisement topicName T false reliable).toFields := by
  rw [registerSubscriberTopic]

theorem packet_registerSubscriberTopicWith (n : Node N) (topicName : Bytes) (T : MessageName)
    (invoke : Nat) (reliable : Bool) :
    (n.registerSubscriberTopicWith topicName T (some invoke) reliable).1 =
      sendPacket (n.topicAdvertisement topicName T false reliable).toFields := by
  have hself : ((n.registerTopic topicName T reliable).pushCallback topicName T
      invoke).selfParticipant = n.selfParticipant := rfl
  rw [registerSubscriberTopicWith, registerSubscriberTopic, topicAdvertisement,
    selfParticipant_noteReliableSubscription, hself, topicAdvertisement]

theorem registerSubscriberTopicWith_ne_self (n : Node N) (topicName : Bytes) (T : MessageName)
    (invoke : Nat) (reliable : Bool) :
    (n.registerSubscriberTopicWith topicName T (some invoke) reliable).2 ≠ n := by
  intro h
  have hentry : (n.registerSubscriberTopicWith topicName T (some invoke) reliable).2.topic?
      (makeCompositeKey topicName T.fullName) =
      some { (n.topic? (makeCompositeKey topicName T.fullName)).getD {} with
        topicName, messageType := T.fullName, reliable
        callbacks := ((n.topic? (makeCompositeKey topicName T.fullName)).getD {}).callbacks ++
          [⟨T.fullName, invoke⟩] } := by
    rw [registerSubscriberTopicWith, registerSubscriberTopic, topic?_noteReliableSubscription,
      topic?_registerTopic_self, topic?_noteReliableSubscription, pushCallback,
      topic?_updateTopic, if_pos rfl, topic?_registerTopic_self]
    rfl
  rw [h] at hentry
  have hcallbacks := congrArg (fun entry => (entry.getD {}).callbacks.length) hentry
  simp only [Option.getD_some, List.length_append, List.length_singleton] at hcallbacks
  omega

end Node

/-- A call of one of the three registrations. -/
inductive Registration where
  | publisher (reliable : Bool)
  | subscriber (reliable : Bool)
  | subscriberWith (callback : Option Nat) (reliable : Bool)

namespace Registration

variable {N : Nat} [NeZero N]

def call (n : Node N) (topicName : Bytes) (T : MessageName) :
    Registration → Option Bytes × Node N
  | .publisher reliable => n.registerPublisherTopic topicName T reliable
  | .subscriber reliable => n.registerSubscriberTopic topicName T reliable
  | .subscriberWith callback reliable =>
      n.registerSubscriberTopicWith topicName T callback reliable

/-- The announcement fits, there is no callback to register, or there is nothing to change. -/
def Harmless (n : Node N) (topicName : Bytes) (T : MessageName) : Registration → Prop
  | .publisher reliable =>
      n.Announceable topicName T true reliable ∨ n.AlreadyRegistered topicName T reliable
  | .subscriber reliable =>
      n.Announceable topicName T false reliable ∨ n.AlreadyRegistered topicName T reliable ∧
        (reliable = true →
          makeCompositeKey topicName T.fullName ∈ n.reliableSubscribedTopics)
  | .subscriberWith callback reliable =>
      callback = none ∨ n.Announceable topicName T false reliable

end Registration

/-- A registration that returns false changes nothing exactly when it could not fail, or had
nothing to change. -/
theorem failedRegistration_iff {N : Nat} [NeZero N] (n : Node N) (topicName : Bytes)
    (T : MessageName) (r : Registration) :
    ((r.call n topicName T).1 = none → (r.call n topicName T).2 = n) ↔
      r.Harmless n topicName T := by
  have hsend := n.sendPacket_topicAdvertisement topicName T
  cases r with
  | publisher reliable =>
      rw [Registration.call, Registration.Harmless, n.packet_registerPublisherTopic, hsend]
      change (_ → n.registerTopic topicName T reliable = n) ↔ _
      rw [n.registerTopic_eq_self_iff]
      exact or_iff_not_imp_left.symm
  | subscriber reliable =>
      rw [Registration.call, Registration.Harmless, n.packet_registerSubscriberTopic, hsend,
        n.registerSubscriberTopic_eq_self_iff]
      exact or_iff_not_imp_left.symm
  | subscriberWith callback reliable =>
      cases callback with
      | none => exact iff_of_true (fun _ => rfl) (Or.inl rfl)
      | some invoke =>
          rw [Registration.call, Registration.Harmless, n.packet_registerSubscriberTopicWith,
            hsend]
          constructor
          · intro h
            right
            by_contra hlarge
            exact n.registerSubscriberTopicWith_ne_self topicName T invoke reliable (h hlarge)
          · rintro (hnone | hfits)
            · cases hnone
            · exact fun hlarge => absurd hfits hlarge

def longName : Bytes :=
  List.replicate 1500 97

theorem sendPacket_longName {N : Nat} (n : Node N) (isPublisher reliable : Bool) :
    sendPacket (n.topicAdvertisement longName Node.typeT isPublisher reliable).toFields =
      none := by
  rw [Node.sendPacket_topicAdvertisement]
  apply Node.not_announceable_of_long
  rw [longName, List.length_replicate, recvBufferSize]

/-- The announcement is refused, and the callback stays. -/
theorem failed_registration_stays :
    ((Registration.subscriberWith (some 0) true).call (Node.fresh ⟨1, 1, 1⟩ {} : Node 1)
        longName Node.typeT).1 = none ∧
      ((Registration.subscriberWith (some 0) true).call (Node.fresh ⟨1, 1, 1⟩ {} : Node 1)
        longName Node.typeT).2 ≠ Node.fresh ⟨1, 1, 1⟩ {} := by
  constructor
  · rw [Registration.call, Node.packet_registerSubscriberTopicWith]
    exact sendPacket_longName _ false true
  · exact Node.registerSubscriberTopicWith_ne_self _ _ _ _ _

/-- The second of two registrations that fail changes nothing. -/
theorem failed_registration_again :
    ((Registration.publisher true).call
        ((Node.fresh ⟨1, 1, 1⟩ {} : Node 1).registerTopic longName Node.typeT true)
        longName Node.typeT).2 =
      (Node.fresh ⟨1, 1, 1⟩ {} : Node 1).registerTopic longName Node.typeT true := by
  have hregistered : ((Node.fresh ⟨1, 1, 1⟩ {} : Node 1).registerTopic longName Node.typeT
      true).AlreadyRegistered longName Node.typeT true :=
    ⟨_, Node.topic?_registerTopic_self _ _ _ _, rfl, rfl, rfl⟩
  refine (failedRegistration_iff _ longName Node.typeT (.publisher true)).mpr
    (Or.inr hregistered) ?_
  rw [Registration.call, Node.packet_registerPublisherTopic]
  exact sendPacket_longName _ true true

end Edriel
