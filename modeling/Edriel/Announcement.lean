import Edriel.Registry

namespace Edriel

open Proto3 Std

/-- The registry lists `sender` under the publishers or subscribers of a topic. -/
def Node.Lists {N : Nat} [NeZero N] (n : Node N) (sender : Identity)
    (topicName messageType : Bytes) (isPublisher : Bool) : Prop :=
  ∃ entry, n.topic? (makeCompositeKey topicName messageType) = some entry ∧
    if isPublisher then sender ∈ entry.publishers else sender ∈ entry.subscribers

/-- The packet survives the wire: its body parses, dispatches to a topic
announcement of exactly this sender and topic, and the receiver lists it. -/
def Announces {N : Nat} [NeZero N] (receiver : Node N) (now : Int) (packet : Bytes)
    (sender : Identity) (topicName messageType : Bytes) (isPublisher : Bool) : Prop :=
  ∃ body m endpoints, datagramBody packet = some body ∧ Message.parse body = some m ∧
    m.dispatch = .announcement sender endpoints topicName messageType isPublisher ∧
    (receiver.handleAutoDiscoveryParse now m).2.Lists sender topicName messageType
      isPublisher

theorem Node.lists_handleTopicAnnouncement {N : Nat} [NeZero N] (n : Node N)
    {sender : Identity} (hself : sender.uid ≠ n.selfParticipant.uid)
    (topicName messageType : Bytes) (isPublisher : Bool) :
    (n.handleTopicAnnouncement sender topicName messageType isPublisher).Lists sender
      topicName messageType isPublisher := by
  have hinsert : ∀ s : ExtTreeSet Identity, sender ∈ s.insert sender :=
    fun s => ExtTreeSet.mem_insert_self
  rw [handleTopicAnnouncement, if_neg hself]
  refine ⟨_, by rw [topic?_updateTopic, if_pos rfl], ?_⟩
  cases isPublisher with
  | true => exact hinsert _
  | false => exact hinsert _

theorem Node.lists_of_dispatch {N : Nat} [NeZero N] (receiver : Node N) (now : Int)
    {m : Message} {sender : Identity} {endpoints : List Endpoint}
    {topicName messageType : Bytes} {isPublisher : Bool}
    (hself : sender.uid ≠ receiver.selfParticipant.uid)
    (hm : m.dispatch = .announcement sender endpoints topicName messageType isPublisher) :
    (receiver.handleAutoDiscoveryParse now m).2.Lists sender topicName messageType
      isPublisher := by
  rw [handleAutoDiscoveryParse, hm]
  refine lists_handleTopicAnnouncement _ ?_ topicName messageType isPublisher
  rw [selfParticipant_handleParticipantHeartbeat]
  exact hself

theorem datagramBody_of_sendPacket {fs : List Field} {packet : Bytes}
    (h : sendPacket fs = some packet) :
    datagramBody packet = some (serialize fs) ∧ (serialize fs).length ≤ recvBufferSize := by
  rw [sendPacket, serializeToString] at h
  split at h
  · cases h
  · rename_i body hbody
    obtain ⟨-, rfl⟩ : _ ∧ serialize fs = body := by simpa using hbody
    split at h
    · cases h
    · rename_i hfits
      obtain rfl : prependMagicNumberToPacket (serialize fs) = packet := by simpa using h
      rw [prependMagicNumberToPacket, List.length_append] at hfits
      refine ⟨rfl, by omega⟩

theorem Topic.messageType_shorter {depth : Nat} {t : Topic} {bs : Bytes}
    (h : Topic.parseInto depth {} bs = some t) :
    t.messageType = [] ∨ t.messageType.length + 2 ≤ bs.length := by
  refine parseInto_invariant (fun t : Topic =>
    t.messageType = [] ∨ t.messageType.length + 2 ≤ bs.length) (.inl rfl) ?_ h
  rintro a ⟨number, value⟩ b hshort ha hmerge
  rw [Topic.merge.eq_def] at hmerge
  split at hmerge
  · split at hmerge
    · obtain rfl := Option.some.inj hmerge
      exact ha
    · cases hmerge
  · rename_i payload hfield
    obtain ⟨-, rfl⟩ := Field.mk.inj hfield
    split at hmerge
    · obtain rfl := Option.some.inj hmerge
      exact .inr (hshort payload rfl)
    · cases hmerge
  · obtain rfl := Option.some.inj hmerge
    exact ha
  · obtain rfl := Option.some.inj hmerge
    exact ha
  · obtain rfl := Option.some.inj hmerge
    exact ha

/-- The strings of the topic land in the sub-messages of an advertisement; its
flags are unknown fields there. -/
theorem TopicAdvertisement.foldlM_topic (depth : Nat) (t : Topic) :
    t.toFields.foldlM (TopicAdvertisement.merge depth) {} =
      ((bytesField 1 t.topicName).foldlM (TopicAdvertisement.merge depth) {}).bind
        ((bytesField 2 t.messageType).foldlM (TopicAdvertisement.merge depth)) := by
  have hskip : ∀ number n a,
      (scalarField number n).foldlM (TopicAdvertisement.merge depth) a = some a :=
    fun number n a => foldlM_scalarField (fun _ => rfl) fun _ => by
      simp [TopicAdvertisement.merge]
  rw [Topic.toFields, List.foldlM_append, List.foldlM_append, List.foldlM_append]
  simp only [Option.bind_eq_bind, hskip, Option.bind_fun_some]

/-- The receiver reads the sender's identifier as a heartbeat and then, the last
member of the oneof winning, the topic as an advertisement. -/
theorem Message.parse_advertisement {i : Identifier} {t : Topic}
    (hendpoints : i.endpoints = [])
    (hsize : (serialize (TopicAdvertisement.toFields
      { identifier := some i, topic := some t })).length ≤ maxSize) :
    Message.parse (serialize (TopicAdvertisement.toFields
        { identifier := some i, topic := some t })) =
      (t.toFields.foldlM (TopicAdvertisement.merge 99) {}).map .advertisement := by
  have hutf8 : i.Utf8 := by
    intro e he
    simp [hendpoints] at he
  have hidentifier : (serialize i.toFields).length ≤ maxSize := by
    have hmem : (⟨1, .bytes (serialize i.toFields)⟩ : Field) ∈ TopicAdvertisement.toFields
        { identifier := some i, topic := some t } := by
      simp [TopicAdvertisement.toFields, messageField]
    have := length_le_of_mem_serialize hmem
    omega
  have htopic : (serialize t.toFields).length ≤ maxSize := by
    have hmem : (⟨2, .bytes (serialize t.toFields)⟩ : Field) ∈ TopicAdvertisement.toFields
        { identifier := some i, topic := some t } := by
      simp [TopicAdvertisement.toFields, messageField]
    have := length_le_of_mem_serialize hmem
    omega
  have hfirst : Message.merge recursionLimit .notSet
      ⟨1, .bytes (serialize i.toFields)⟩ = some (.identifier i) := by
    simp only [Message.merge, Identifier.parse_serialize _ hutf8 hidentifier,
      Option.map_some]
  have hsecond : Message.merge recursionLimit (.identifier i)
      ⟨2, .bytes (serialize t.toFields)⟩ =
        (t.toFields.foldlM (TopicAdvertisement.merge 99) {}).map .advertisement := by
    simp only [Message.merge, TopicAdvertisement.parseInto,
      parseInto_serialize _ _ _ t.encodable htopic]
    rfl
  rw [Message.parse, parseInto_serialize _ _ _ (TopicAdvertisement.encodable _) hsize]
  simp only [TopicAdvertisement.toFields, Option.map_some, messageField,
    List.singleton_append, List.foldlM_cons, List.foldlM_nil, hfirst, hsecond,
    Option.bind_eq_bind, Option.bind_some, Option.pure_def, Option.bind_fun_some]

/-- A topic read as an advertisement announces itself only when it is empty: its
message type would have to contain itself. -/
theorem Topic.eq_default_of_announced {t : Topic} {a : TopicAdvertisement}
    {sender : Identity} {endpoints : List Endpoint}
    (hparse : t.toFields.foldlM (TopicAdvertisement.merge 99) {} = some a)
    (hdispatch : (Message.advertisement a).dispatch =
      .announcement sender endpoints t.topicName t.messageType t.isPublisher) :
    t.isPublisher = false ∧ sender = ⟨0, 0, 0⟩ ∧ t.topicName = [] ∧
      t.messageType = [] := by
  rw [TopicAdvertisement.foldlM_topic] at hparse
  obtain ⟨b, hb, ha⟩ := Option.bind_eq_some_iff.mp hparse
  obtain ⟨hsender, -, hname, htype, hflag⟩ : (a.identifier.getD {}).sender = sender ∧
      (a.identifier.getD {}).endpoints = endpoints ∧
      (a.topic.getD {}).topicName = t.topicName ∧
      (a.topic.getD {}).messageType = t.messageType ∧
      (a.topic.getD {}).isPublisher = t.isPublisher := by
    simpa [Message.dispatch] using hdispatch
  have hfirst : b.topic = none ∧ (t.topicName = [] → b.identifier = none) := by
    by_cases hempty : t.topicName = []
    · obtain rfl : {} = b := by simpa [bytesField, hempty] using hb
      exact ⟨rfl, fun _ => rfl⟩
    · obtain ⟨i, -, rfl⟩ : ∃ i, Identifier.parseInto 98 {} t.topicName = some i ∧
          { identifier := some i } = b := by
        simpa [bytesField, hempty, TopicAdvertisement.merge] using hb
      exact ⟨rfl, fun h => absurd h hempty⟩
  have hempty : t.messageType = [] := by
    by_contra hne
    obtain ⟨t', ht', rfl⟩ : ∃ t', Topic.parseInto 98 {} t.messageType = some t' ∧
        { b with topic := some t' } = a := by
      simpa [bytesField, hne, TopicAdvertisement.merge, hfirst.1] using ha
    have htype : t'.messageType = t.messageType := htype
    rcases Topic.messageType_shorter ht' with hnil | hshort
    · exact hne (htype.symm.trans hnil)
    · rw [htype] at hshort
      omega
  obtain rfl : b = a := by simpa [bytesField, hempty] using ha
  rw [hfirst.1] at hname hflag
  have hname : t.topicName = [] := hname.symm
  rw [hfirst.2 hname] at hsender
  exact ⟨hflag.symm, hsender.symm, hname, hempty⟩

namespace Node

variable {N M : Nat} [NeZero M]

theorem parse_topicAdvertisement (n : Node N) {topicName : Bytes} {T : MessageName}
    {isPublisher reliable : Bool} {packet : Bytes}
    (hsend : sendPacket (n.topicAdvertisement topicName T isPublisher reliable).toFields =
      some packet) {body : Bytes} (hbody : datagramBody packet = some body) :
    Message.parse body =
      ((Topic.toFields { topicName, messageType := T.fullName, isPublisher,
                         reliable }).foldlM (TopicAdvertisement.merge 99) {}).map
        .advertisement := by
  obtain ⟨hserial, hlen⟩ := datagramBody_of_sendPacket hsend
  obtain rfl := Option.some.inj (hserial.symm.trans hbody)
  refine Message.parse_advertisement rfl (hlen.trans (by decide))

/-- The packet of one registration announces the topic exactly when it is for a
subscriber, and sender, topic name and message type are all empty. -/
theorem announces_topicAdvertisement_iff (n : Node N) (receiver : Node M) (now : Int)
    {topicName : Bytes} {T : MessageName} {isPublisher reliable : Bool} {packet : Bytes}
    (hself : n.selfParticipant.uid ≠ receiver.selfParticipant.uid)
    (hsend : sendPacket (n.topicAdvertisement topicName T isPublisher reliable).toFields =
      some packet) :
    Announces receiver now packet n.selfParticipant topicName T.fullName isPublisher ↔
      isPublisher = false ∧ n.selfParticipant = ⟨0, 0, 0⟩ ∧ topicName = [] ∧
        T.fullName = [] := by
  constructor
  · rintro ⟨body, m, endpoints, hbody, hm, hdispatch, -⟩
    rw [parse_topicAdvertisement n hsend hbody] at hm
    obtain ⟨a, ha, rfl⟩ := Option.map_eq_some_iff.mp hm
    exact Topic.eq_default_of_announced ha hdispatch
  · rintro ⟨rfl, hsender, rfl, htype⟩
    obtain ⟨hbody, -⟩ := datagramBody_of_sendPacket hsend
    have hparse := parse_topicAdvertisement n hsend hbody
    rw [htype, TopicAdvertisement.foldlM_topic] at hparse
    have hm : Message.parse (serialize (n.topicAdvertisement [] T false reliable).toFields) =
        some (.advertisement {}) := hparse
    have hdispatch : (Message.advertisement {}).dispatch =
        .announcement n.selfParticipant [] [] T.fullName false := by
      rw [hsender, htype]
      rfl
    exact ⟨_, _, [], hbody, hm, hdispatch,
      lists_of_dispatch receiver now hself hdispatch⟩

/-- No publisher registration survives the wire, and a subscriber registration
only when everything it says is a default. -/
theorem registration_announces_iff [NeZero N] (n : Node N) (receiver : Node M) (now : Int)
    (topicName : Bytes) (T : MessageName) (reliable : Bool)
    (hself : n.selfParticipant.uid ≠ receiver.selfParticipant.uid) :
    (∀ packet, (n.registerPublisherTopic topicName T reliable).1 = some packet →
      ¬ Announces receiver now packet n.selfParticipant topicName T.fullName true) ∧
    (∀ packet, (n.registerSubscriberTopic topicName T reliable).1 = some packet →
      (Announces receiver now packet n.selfParticipant topicName T.fullName false ↔
        n.selfParticipant = ⟨0, 0, 0⟩ ∧ topicName = [] ∧ T.fullName = [])) := by
  constructor
  · intro packet hsend hannounces
    simp only [registerPublisherTopic] at hsend
    obtain ⟨hflag, -⟩ :=
      (announces_topicAdvertisement_iff n receiver now hself hsend).mp hannounces
    exact Bool.noConfusion hflag
  · intro packet hsend
    simp only [registerSubscriberTopic] at hsend
    exact (announces_topicAdvertisement_iff n receiver now hself hsend).trans
      (and_iff_right rfl)

def typeT : MessageName :=
  { fullName := [84], separator_notMem := by decide }

/-- What node `(1, 0, 3)` multicasts for its reliable publisher topic `t`. -/
def topicPacket : Bytes :=
  [0xED, 0x75, 0xE1, 0xED, 10, 4, 8, 1, 24, 3, 18, 10, 10, 1, 116, 18, 1, 84, 24, 1, 32, 1]

/-- The topic name of the packet does not even parse where it is read. -/
theorem registration_announces_fails :
    (registerPublisherTopic (N := 1) { selfParticipant := ⟨1, 0, 3⟩ } [116] typeT true).1 =
        some topicPacket ∧
      ¬ Announces (N := 1) { selfParticipant := ⟨1, 0, 9⟩ } 0 topicPacket ⟨1, 0, 3⟩ [116]
        typeT.fullName true := by
  refine ⟨by decide, ?_⟩
  rintro ⟨body, m, endpoints, hbody, hm, -⟩
  have hparse : (datagramBody topicPacket).bind Message.parse = none := by decide
  rw [hbody, Option.bind_some, hm] at hparse
  cases hparse

theorem registration_announces_iff_node_3 :
    (∀ packet, (registerPublisherTopic (N := 1) { selfParticipant := ⟨1, 0, 3⟩ } [116] typeT
        true).1 = some packet →
      ¬ Announces (N := 1) { selfParticipant := ⟨1, 0, 9⟩ } 0 packet ⟨1, 0, 3⟩ [116]
        typeT.fullName true) ∧
    (∀ packet, (registerSubscriberTopic (N := 1) { selfParticipant := ⟨1, 0, 3⟩ } [116] typeT
        true).1 = some packet →
      (Announces (N := 1) { selfParticipant := ⟨1, 0, 9⟩ } 0 packet ⟨1, 0, 3⟩ [116]
          typeT.fullName false ↔
        (⟨1, 0, 3⟩ : Identity) = ⟨0, 0, 0⟩ ∧ ([116] : Bytes) = [] ∧ typeT.fullName = [])) :=
  registration_announces_iff { selfParticipant := ⟨1, 0, 3⟩ }
    { selfParticipant := ⟨1, 0, 9⟩ } 0 [116] typeT true (by decide)

end Node

end Edriel
