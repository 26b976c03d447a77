import Edriel.Announcement

namespace Edriel

open Proto3

theorem Endpoint.parse_serialize_eq_none (depth : Nat) {e : Endpoint}
    (hutf8 : ¬ validUtf8 e.address = true) (hsize : (serialize e.toFields).length ≤ maxSize) :
    Endpoint.parse depth (serialize e.toFields) = none := by
  have hne : e.address ≠ [] := by
    intro h
    rw [h] at hutf8
    exact hutf8 validUtf8_nil
  have hmem : (⟨1, .bytes e.address⟩ : Field) ∈ e.toFields := by
    simp [toFields, bytesField, hne]
  rw [Endpoint.parse]
  refine parseInto_serialize_eq_none e.encodable hsize hmem (fun a => ?_) _
  exact if_neg hutf8

theorem length_le_of_mem_body {fs : List Field} {number : Nat} {payload : Bytes}
    (hsize : (serialize fs).length ≤ maxSize) (hmem : ⟨number, .bytes payload⟩ ∈ fs) :
    payload.length ≤ maxSize := by
  have := length_le_of_mem_serialize hmem
  omega

theorem Identifier.parse_serialize_eq_none (depth : Nat) {i : Identifier} (hutf8 : ¬ i.Utf8)
    (hsize : (serialize i.toFields).length ≤ maxSize) (j : Identifier) :
    Identifier.parseInto depth j (serialize i.toFields) = none := by
  obtain ⟨e, he, hbad⟩ : ∃ e ∈ i.endpoints, ¬ validUtf8 e.address = true := by
    simpa [Identifier.Utf8] using hutf8
  have hmem : (⟨4, .bytes (serialize e.toFields)⟩ : Field) ∈ i.toFields := by
    simp only [toFields, List.mem_append, List.mem_map]
    exact .inr ⟨e, he, rfl⟩
  have hnone := Endpoint.parse_serialize_eq_none (depth - 1) hbad
    (length_le_of_mem_body hsize hmem)
  refine Proto3.parseInto_serialize_eq_none i.encodable hsize hmem (fun a => ?_) j
  simp only [Identifier.merge, hnone, Option.map_none]

def Topic.Utf8 (t : Topic) : Prop :=
  validUtf8 t.topicName = true ∧ validUtf8 t.messageType = true

theorem Topic.parse_serialize (depth : Nat) {t : Topic} (hutf8 : t.Utf8)
    (hsize : (serialize t.toFields).length ≤ maxSize) :
    Topic.parseInto depth {} (serialize t.toFields) = some t := by
  obtain ⟨htopic, htype⟩ := hutf8
  have hname : (bytesField 1 t.topicName).foldlM Topic.merge {} =
      some { topicName := t.topicName } :=
    foldlM_bytesField (by rintro h; rw [h]) (by simp [Topic.merge, htopic])
  have hmessageType : (bytesField 2 t.messageType).foldlM Topic.merge
      { topicName := t.topicName } =
        some { topicName := t.topicName, messageType := t.messageType } :=
    foldlM_bytesField (by rintro h; rw [h]) (by simp [Topic.merge, htype])
  have hpublisher : (scalarField 3 t.isPublisher.toNat).foldlM Topic.merge
      { topicName := t.topicName, messageType := t.messageType } =
        some { topicName := t.topicName, messageType := t.messageType,
               isPublisher := t.isPublisher } :=
    foldlM_scalarField
      (by intro h; rw [Bool.toNat_eq_zero.mp h])
      (by cases t.isPublisher <;> simp [Topic.merge])
  have hreliable : (scalarField 4 t.reliable.toNat).foldlM Topic.merge
      { topicName := t.topicName, messageType := t.messageType,
        isPublisher := t.isPublisher } = some t :=
    foldlM_scalarField
      (by
        intro h
        obtain ⟨topicName, messageType, isPublisher, reliable⟩ := t
        rw [show reliable = false from Bool.toNat_eq_zero.mp h])
      (by
        obtain ⟨topicName, messageType, isPublisher, reliable⟩ := t
        cases reliable <;> simp [Topic.merge])
  rw [Topic.parseInto, parseInto_serialize depth _ _ t.encodable hsize, toFields,
    List.foldlM_append, List.foldlM_append, List.foldlM_append, hname]
  simp only [Option.bind_eq_bind, Option.bind_some, hmessageType, hpublisher, hreliable]

theorem Topic.parse_serialize_eq_none (depth : Nat) {t : Topic} (hutf8 : ¬ t.Utf8)
    (hsize : (serialize t.toFields).length ≤ maxSize) (u : Topic) :
    Topic.parseInto depth u (serialize t.toFields) = none := by
  by_cases htopic : validUtf8 t.topicName = true
  · have htype : ¬ validUtf8 t.messageType = true := fun h => hutf8 ⟨htopic, h⟩
    have hne : t.messageType ≠ [] := by
      intro h
      rw [h] at htype
      exact htype validUtf8_nil
    have hmem : (⟨2, .bytes t.messageType⟩ : Field) ∈ t.toFields := by
      simp [toFields, bytesField, hne]
    refine Proto3.parseInto_serialize_eq_none t.encodable hsize hmem (fun a => ?_) u
    exact if_neg htype
  · have hne : t.topicName ≠ [] := by
      intro h
      rw [h] at htopic
      exact htopic validUtf8_nil
    have hmem : (⟨1, .bytes t.topicName⟩ : Field) ∈ t.toFields := by
      simp [toFields, bytesField, hne]
    refine Proto3.parseInto_serialize_eq_none t.encodable hsize hmem (fun a => ?_) u
    exact if_neg htopic

def TopicAdvertisement.Utf8 (a : TopicAdvertisement) : Prop :=
  (∀ i ∈ a.identifier, i.Utf8) ∧ ∀ t ∈ a.topic, t.Utf8

theorem TopicAdvertisement.mem_identifier {a : TopicAdvertisement} {i : Identifier}
    (h : i ∈ a.identifier) : (⟨1, .bytes (serialize i.toFields)⟩ : Field) ∈ a.toFields := by
  simp [toFields, Option.mem_def.mp h, messageField]

theorem TopicAdvertisement.mem_topic {a : TopicAdvertisement} {t : Topic} (h : t ∈ a.topic) :
    (⟨2, .bytes (serialize t.toFields)⟩ : Field) ∈ a.toFields := by
  simp [toFields, Option.mem_def.mp h, messageField]

theorem TopicAdvertisement.parse_serialize (depth : Nat) {a : TopicAdvertisement}
    (hutf8 : a.Utf8) (hsize : (serialize a.toFields).length ≤ maxSize) :
    TopicAdvertisement.parseInto depth {} (serialize a.toFields) = some a := by
  obtain ⟨hidentifier, htopic⟩ := hutf8
  have hfirst : (messageField 1 (a.identifier.map fun i => serialize i.toFields)).foldlM
      (TopicAdvertisement.merge depth) {} = some { identifier := a.identifier } := by
    refine foldlM_messageField ?_ ?_
    · intro h
      rw [Option.map_eq_none_iff.mp h]
    · intro body hbody
      obtain ⟨i, hi, rfl⟩ := Option.map_eq_some_iff.mp hbody
      have hparse := Identifier.parse_serialize (depth - 1) (hidentifier i hi)
        (length_le_of_mem_body hsize (mem_identifier hi))
      simp [TopicAdvertisement.merge, hparse, hi]
  have hsecond : (messageField 2 (a.topic.map fun t => serialize t.toFields)).foldlM
      (TopicAdvertisement.merge depth) { identifier := a.identifier } = some a := by
    refine foldlM_messageField ?_ ?_
    · intro h
      obtain ⟨identifier, topic⟩ := a
      rw [show topic = none from Option.map_eq_none_iff.mp h]
    · intro body hbody
      obtain ⟨t, ht, rfl⟩ := Option.map_eq_some_iff.mp hbody
      have hparse := Topic.parse_serialize (depth - 1) (htopic t ht)
        (length_le_of_mem_body hsize (mem_topic ht))
      obtain ⟨identifier, topic⟩ := a
      obtain rfl : topic = some t := ht
      simp [TopicAdvertisement.merge, hparse]
  rw [TopicAdvertisement.parseInto, parseInto_serialize depth _ _ a.encodable hsize, toFields,
    List.foldlM_append, hfirst]
  simp only [Option.bind_eq_bind, Option.bind_some, hsecond]

theorem TopicAdvertisement.parse_serialize_eq_none (depth : Nat) {a : TopicAdvertisement}
    (hutf8 : ¬ a.Utf8) (hsize : (serialize a.toFields).length ≤ maxSize)
    (c : TopicAdvertisement) :
    TopicAdvertisement.parseInto depth c (serialize a.toFields) = none := by
  by_cases hidentifier : ∀ i ∈ a.identifier, i.Utf8
  · have htopic : ¬ ∀ t ∈ a.topic, t.Utf8 := fun h => hutf8 ⟨hidentifier, h⟩
    push Not at htopic
    obtain ⟨t, ht, hbad⟩ := htopic
    have hnone := Topic.parse_serialize_eq_none (depth - 1) hbad
      (length_le_of_mem_body hsize (mem_topic ht))
    refine Proto3.parseInto_serialize_eq_none a.encodable hsize (mem_topic ht) (fun b => ?_) c
    simp only [TopicAdvertisement.merge, hnone, Option.map_none]
  · push Not at hidentifier
    obtain ⟨i, hi, hbad⟩ := hidentifier
    have hnone := Identifier.parse_serialize_eq_none (depth - 1) hbad
      (length_le_of_mem_body hsize (mem_identifier hi))
    refine Proto3.parseInto_serialize_eq_none a.encodable hsize (mem_identifier hi)
      (fun b => ?_) c
    simp only [TopicAdvertisement.merge, hnone, Option.map_none]

theorem DataMessage.mem_identifier {d : DataMessage} {i : Identifier} (h : i ∈ d.identifier) :
    (⟨1, .bytes (serialize i.toFields)⟩ : Field) ∈ d.toFields := by
  simp [toFields, Option.mem_def.mp h, messageField]

theorem DataMessage.parseInto_serialize_eq_none (depth : Nat) {d : DataMessage}
    (hutf8 : ¬ d.Utf8) (hsize : (serialize d.toFields).length ≤ maxSize) (c : DataMessage) :
    DataMessage.parseInto depth c (serialize d.toFields) = none := by
  by_cases hidentifier : ∀ i ∈ d.identifier, i.Utf8
  · by_cases htopic : validUtf8 d.topicName = true
    · have htype : ¬ validUtf8 d.messageType = true := fun h => hutf8 ⟨hidentifier, htopic, h⟩
      have hne : d.messageType ≠ [] := by
        intro h
        rw [h] at htype
        exact htype validUtf8_nil
      have hmem : (⟨3, .bytes d.messageType⟩ : Field) ∈ d.toFields := by
        simp [toFields, bytesField, hne]
      refine Proto3.parseInto_serialize_eq_none d.encodable hsize hmem (fun a => ?_) c
      exact if_neg htype
    · have hne : d.topicName ≠ [] := by
        intro h
        rw [h] at htopic
        exact htopic validUtf8_nil
      have hmem : (⟨2, .bytes d.topicName⟩ : Field) ∈ d.toFields := by
        simp [toFields, bytesField, hne]
      refine Proto3.parseInto_serialize_eq_none d.encodable hsize hmem (fun a => ?_) c
      exact if_neg htopic
  · push Not at hidentifier
    obtain ⟨i, hi, hbad⟩ := hidentifier
    have hnone := Identifier.parse_serialize_eq_none (depth - 1) hbad
      (length_le_of_mem_body hsize (mem_identifier hi))
    refine Proto3.parseInto_serialize_eq_none d.encodable hsize (mem_identifier hi)
      (fun b => ?_) c
    simp only [DataMessage.merge, hnone, Option.map_none]

/-- Every string of the message is UTF-8. -/
def Message.Utf8 : Message → Prop
  | .notSet => True
  | .identifier i => i.Utf8
  | .advertisement a => a.Utf8
  | .dataMessage d => d.Utf8

theorem Message.encodable (m : Message) : ∀ f ∈ m.toFields, f.Encodable := by
  intro f hf
  cases m with
  | notSet => cases hf
  | identifier i =>
      rw [toFields] at hf
      exact encodable_of_mem_messageField (by decide) (by decide) hf
  | advertisement a =>
      rw [toFields] at hf
      exact encodable_of_mem_messageField (by decide) (by decide) hf
  | dataMessage d =>
      rw [toFields] at hf
      exact encodable_of_mem_messageField (by decide) (by decide) hf

/-- The member of the oneof is the whole body. -/
theorem Message.parse_member {m : Message} {number : Nat} {body : Bytes}
    (hm : m.toFields = messageField number (some body))
    (hsize : (serialize m.toFields).length ≤ maxSize) :
    Message.parse (serialize m.toFields) =
      Message.merge recursionLimit .notSet ⟨number, .bytes body⟩ := by
  rw [Message.parse, parseInto_serialize _ _ _ m.encodable hsize, hm]
  simp only [messageField, List.foldlM_cons, List.foldlM_nil, Option.bind_eq_bind,
    Option.pure_def, Option.bind_fun_some]

/-- A message comes back as it was sent, unless one of its strings is not UTF-8: then its
receivers refuse all of it. -/
theorem Message.parse_serialize (m : Message)
    (hsize : (serialize m.toFields).length ≤ maxSize) :
    (m.Utf8 → Message.parse (serialize m.toFields) = some m) ∧
      (¬ m.Utf8 → Message.parse (serialize m.toFields) = none) := by
  cases m with
  | notSet => exact ⟨fun _ => rfl, fun h => absurd trivial h⟩
  | identifier i =>
      have hbody : (serialize i.toFields).length ≤ maxSize :=
        length_le_of_mem_body hsize (List.mem_singleton_self _)
      rw [Message.parse_member rfl hsize]
      constructor
      · intro hutf8
        simp only [Message.merge, Identifier.parse_serialize _ hutf8 hbody, Option.map_some]
      · intro hutf8
        simp only [Message.merge, Identifier.parse_serialize_eq_none _ hutf8 hbody,
          Option.map_none]
  | advertisement a =>
      have hbody : (serialize a.toFields).length ≤ maxSize :=
        length_le_of_mem_body hsize (List.mem_singleton_self _)
      rw [Message.parse_member rfl hsize]
      constructor
      · intro hutf8
        simp only [Message.merge, TopicAdvertisement.parse_serialize _ hutf8 hbody,
          Option.map_some]
      · intro hutf8
        simp only [Message.merge, TopicAdvertisement.parse_serialize_eq_none _ hutf8 hbody,
          Option.map_none]
  | dataMessage d =>
      have hbody : (serialize d.toFields).length ≤ maxSize :=
        length_le_of_mem_body hsize (List.mem_singleton_self _)
      rw [Message.parse_member rfl hsize]
      constructor
      · intro hutf8
        simp only [Message.merge, DataMessage.parseInto_serialize _ hutf8 hbody,
          Option.map_some]
      · intro hutf8
        simp only [Message.merge, DataMessage.parseInto_serialize_eq_none _ hutf8 hbody,
          Option.map_none]

end Edriel
