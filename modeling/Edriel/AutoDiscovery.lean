import Edriel.Lib.Proto3

/-!
The messages of `autoDiscovery.proto`, with the parsers and serialisers that
protobuf generates for them.  Scalars have their wire width; strings are byte
strings, which a parser accepts only when they are UTF-8.
-/

namespace Edriel

open Proto3

structure Endpoint where
  address : Bytes := []
  port : UInt32 := 0
  transport : UInt32 := 0
deriving DecidableEq

/-- `Endpoint::GRPC_TCP`, the only transport today. -/
def grpcTcp : UInt32 := 1

structure Identifier where
  pid : UInt32 := 0
  tid : UInt64 := 0
  uid : UInt64 := 0
  endpoints : List Endpoint := []
deriving DecidableEq

structure Topic where
  topicName : Bytes := []
  messageType : Bytes := []
  isPublisher : Bool := false
  reliable : Bool := false
deriving DecidableEq

structure TopicAdvertisement where
  identifier : Option Identifier := none
  topic : Option Topic := none
deriving DecidableEq

structure DataMessage where
  identifier : Option Identifier := none
  topicName : Bytes := []
  messageType : Bytes := []
  payload : Bytes := []
deriving DecidableEq

/-- `Message` is its oneof: at most one member is set. -/
inductive Message where
  | notSet
  | identifier (id : Identifier)
  | advertisement (ad : TopicAdvertisement)
  | dataMessage (data : DataMessage)
deriving DecidableEq

/-- The frame a publisher's server streams to a subscriber.  A frame with
`reliableData` carries one serialised `DataMessage`; a presence frame has none. -/
structure ParticipantData where
  pid : UInt32 := 0
  tid : UInt64 := 0
  uid : UInt64 := 0
  status : Bytes := []
  endpoints : List Endpoint := []
  reliableData : Bytes := []
deriving DecidableEq

/-- The nesting protobuf allows below a top-level message. -/
def recursionLimit : Nat := 100

def Endpoint.merge (e : Endpoint) : Field → Option Endpoint
  | ⟨1, .bytes s⟩ => if validUtf8 s then some { e with address := s } else none
  | ⟨2, .varint n⟩ => some { e with port := UInt32.ofNat n }
  | ⟨3, .varint n⟩ => some { e with transport := UInt32.ofNat n }
  | _ => some e

def Endpoint.parse (depth : Nat) (bs : Bytes) : Option Endpoint :=
  parseInto depth Endpoint.merge {} bs

def Identifier.merge (depth : Nat) (i : Identifier) : Field → Option Identifier
  | ⟨1, .varint n⟩ => some { i with pid := UInt32.ofNat n }
  | ⟨2, .varint n⟩ => some { i with tid := UInt64.ofNat n }
  | ⟨3, .varint n⟩ => some { i with uid := UInt64.ofNat n }
  | ⟨4, .bytes b⟩ =>
      (Endpoint.parse (depth - 1) b).map fun e =>
        { i with endpoints := i.endpoints ++ [e] }
  | _ => some i

def Identifier.parseInto (depth : Nat) (i : Identifier) (bs : Bytes) :
    Option Identifier :=
  Proto3.parseInto depth (Identifier.merge depth) i bs

def Topic.merge (t : Topic) : Field → Option Topic
  | ⟨1, .bytes s⟩ => if validUtf8 s then some { t with topicName := s } else none
  | ⟨2, .bytes s⟩ => if validUtf8 s then some { t with messageType := s } else none
  | ⟨3, .varint n⟩ => some { t with isPublisher := n != 0 }
  | ⟨4, .varint n⟩ => some { t with reliable := n != 0 }
  | _ => some t

def Topic.parseInto (depth : Nat) (t : Topic) (bs : Bytes) : Option Topic :=
  Proto3.parseInto depth Topic.merge t bs

/-- A sub-message that occurs again is merged into the one already read. -/
def TopicAdvertisement.merge (depth : Nat) (a : TopicAdvertisement) :
    Field → Option TopicAdvertisement
  | ⟨1, .bytes b⟩ =>
      (Identifier.parseInto (depth - 1) (a.identifier.getD {}) b).map fun i =>
        { a with identifier := some i }
  | ⟨2, .bytes b⟩ =>
      (Topic.parseInto (depth - 1) (a.topic.getD {}) b).map fun t =>
        { a with topic := some t }
  | _ => some a

def TopicAdvertisement.parseInto (depth : Nat) (a : TopicAdvertisement) (bs : Bytes) :
    Option TopicAdvertisement :=
  Proto3.parseInto depth (TopicAdvertisement.merge depth) a bs

def DataMessage.merge (depth : Nat) (d : DataMessage) : Field → Option DataMessage
  | ⟨1, .bytes b⟩ =>
      (Identifier.parseInto (depth - 1) (d.identifier.getD {}) b).map fun i =>
        { d with identifier := some i }
  | ⟨2, .bytes s⟩ => if validUtf8 s then some { d with topicName := s } else none
  | ⟨3, .bytes s⟩ => if validUtf8 s then some { d with messageType := s } else none
  | ⟨4, .bytes b⟩ => some { d with payload := b }
  | _ => some d

def DataMessage.parseInto (depth : Nat) (d : DataMessage) (bs : Bytes) :
    Option DataMessage :=
  Proto3.parseInto depth (DataMessage.merge depth) d bs

def DataMessage.parse (bs : Bytes) : Option DataMessage :=
  DataMessage.parseInto recursionLimit {} bs

/-- The last member of the oneof wins.  A member that is set already is merged
into, any other one is dropped first. -/
def Message.merge (depth : Nat) (m : Message) : Field → Option Message
  | ⟨1, .bytes b⟩ =>
      (Identifier.parseInto (depth - 1)
        (match m with | .identifier i => i | _ => {}) b).map .identifier
  | ⟨2, .bytes b⟩ =>
      (TopicAdvertisement.parseInto (depth - 1)
        (match m with | .advertisement a => a | _ => {}) b).map .advertisement
  | ⟨3, .bytes b⟩ =>
      (DataMessage.parseInto (depth - 1)
        (match m with | .dataMessage d => d | _ => {}) b).map .dataMessage
  | _ => some m

def Message.parse (bs : Bytes) : Option Message :=
  Proto3.parseInto recursionLimit (Message.merge recursionLimit) .notSet bs

/-- The number of an enumerator goes on the wire sign-extended to 64 bits. -/
def enumVarint (number : UInt32) : Nat :=
  if number.toNat < 2 ^ 31 then number.toNat else number.toNat + (2 ^ 64 - 2 ^ 32)

theorem enumVarint_lt (number : UInt32) : enumVarint number < 2 ^ 64 := by
  have hlt := number.toNat_lt
  rw [enumVarint]
  split_ifs <;> omega

theorem ofNat_enumVarint (number : UInt32) : UInt32.ofNat (enumVarint number) = number := by
  have hlt := number.toNat_lt
  rw [enumVarint, ← UInt32.toNat_inj, UInt32.toNat_ofNat']
  split_ifs <;> omega

theorem eq_zero_of_enumVarint {number : UInt32} (h : enumVarint number = 0) : number = 0 := by
  rw [← ofNat_enumVarint number, h]
  rfl

def Endpoint.toFields (e : Endpoint) : List Field :=
  bytesField 1 e.address ++ scalarField 2 e.port.toNat ++
    scalarField 3 (enumVarint e.transport)

def Identifier.toFields (i : Identifier) : List Field :=
  scalarField 1 i.pid.toNat ++ scalarField 2 i.tid.toNat ++
    scalarField 3 i.uid.toNat ++
    i.endpoints.map fun e => ⟨4, .bytes (serialize e.toFields)⟩

def Topic.toFields (t : Topic) : List Field :=
  bytesField 1 t.topicName ++ bytesField 2 t.messageType ++
    scalarField 3 t.isPublisher.toNat ++ scalarField 4 t.reliable.toNat

def TopicAdvertisement.toFields (a : TopicAdvertisement) : List Field :=
  messageField 1 (a.identifier.map fun i => serialize i.toFields) ++
    messageField 2 (a.topic.map fun t => serialize t.toFields)

def DataMessage.toFields (d : DataMessage) : List Field :=
  messageField 1 (d.identifier.map fun i => serialize i.toFields) ++
    bytesField 2 d.topicName ++ bytesField 3 d.messageType ++ bytesField 4 d.payload

def Message.toFields : Message → List Field
  | .notSet => []
  | .identifier i => messageField 1 (some (serialize i.toFields))
  | .advertisement a => messageField 2 (some (serialize a.toFields))
  | .dataMessage d => messageField 3 (some (serialize d.toFields))

/-- `SerializeToString` fails on a message of 2 GiB and more. -/
def serializeToString (fs : List Field) : Option Bytes :=
  if (serialize fs).length ≤ 2 ^ 31 - 1 then some (serialize fs) else none

/-- The stream frame around a serialised `DataMessage`. -/
def reliableFrame (d : DataMessage) : ParticipantData :=
  { reliableData := serialize d.toFields }

theorem Endpoint.encodable (e : Endpoint) : ∀ f ∈ e.toFields, f.Encodable := by
  intro f hf
  simp only [toFields, List.mem_append] at hf
  rcases hf with (hf | hf) | hf
  · exact encodable_of_mem_bytesField (by decide) (by decide) hf
  · exact encodable_of_mem_scalarField (by decide) (by decide)
      (e.port.toNat_lt.trans (by decide)) hf
  · exact encodable_of_mem_scalarField (by decide) (by decide) (enumVarint_lt _) hf

theorem Identifier.encodable (i : Identifier) : ∀ f ∈ i.toFields, f.Encodable := by
  intro f hf
  simp only [toFields, List.mem_append, List.mem_map] at hf
  rcases hf with ((hf | hf) | hf) | ⟨e, -, rfl⟩
  · exact encodable_of_mem_scalarField (by decide) (by decide)
      (i.pid.toNat_lt.trans (by decide)) hf
  · exact encodable_of_mem_scalarField (by decide) (by decide) i.tid.toNat_lt hf
  · exact encodable_of_mem_scalarField (by decide) (by decide) i.uid.toNat_lt hf
  · exact ⟨Nat.succ_pos 3, by norm_num, trivial⟩

theorem Topic.encodable (t : Topic) : ∀ f ∈ t.toFields, f.Encodable := by
  have hbool : ∀ b : Bool, b.toNat < 2 ^ 64 := by decide
  intro f hf
  simp only [toFields, List.mem_append] at hf
  rcases hf with ((hf | hf) | hf) | hf
  · exact encodable_of_mem_bytesField (by decide) (by decide) hf
  · exact encodable_of_mem_bytesField (by decide) (by decide) hf
  · exact encodable_of_mem_scalarField (by decide) (by decide) (hbool _) hf
  · exact encodable_of_mem_scalarField (by decide) (by decide) (hbool _) hf

theorem TopicAdvertisement.encodable (a : TopicAdvertisement) :
    ∀ f ∈ a.toFields, f.Encodable := by
  intro f hf
  rcases List.mem_append.mp hf with hf | hf
  · exact encodable_of_mem_messageField (by decide) (by decide) hf
  · exact encodable_of_mem_messageField (by decide) (by decide) hf

theorem DataMessage.encodable (d : DataMessage) : ∀ f ∈ d.toFields, f.Encodable := by
  intro f hf
  simp only [toFields, List.mem_append] at hf
  rcases hf with ((hf | hf) | hf) | hf
  · exact encodable_of_mem_messageField (by decide) (by decide) hf
  · exact encodable_of_mem_bytesField (by decide) (by decide) hf
  · exact encodable_of_mem_bytesField (by decide) (by decide) hf
  · exact encodable_of_mem_bytesField (by decide) (by decide) hf

theorem Endpoint.parse_serialize (depth : Nat) {e : Endpoint}
    (hutf8 : validUtf8 e.address) (hsize : (serialize e.toFields).length ≤ maxSize) :
    Endpoint.parse depth (serialize e.toFields) = some e := by
  have haddress : (bytesField 1 e.address).foldlM Endpoint.merge {} =
      some { address := e.address } :=
    foldlM_bytesField (by rintro h; rw [h]) (by simp [Endpoint.merge, hutf8])
  have hport : (scalarField 2 e.port.toNat).foldlM Endpoint.merge
      { address := e.address } = some { address := e.address, port := e.port } :=
    foldlM_scalarField
      (by intro h; rw [show e.port = 0 from UInt32.toNat_inj.mp h])
      (by simp [Endpoint.merge])
  have htransport : (scalarField 3 (enumVarint e.transport)).foldlM Endpoint.merge
      { address := e.address, port := e.port } = some e :=
    foldlM_scalarField
      (by
        intro h
        obtain ⟨address, port, transport⟩ := e
        rw [show transport = 0 from eq_zero_of_enumVarint h])
      (by simp [Endpoint.merge, ofNat_enumVarint])
  rw [Endpoint.parse, parseInto_serialize depth _ _ e.encodable hsize, toFields,
    List.foldlM_append, List.foldlM_append, haddress]
  simp only [Option.bind_eq_bind, Option.bind_some, hport, htransport]

/-- Every advertised address is a proto3 string. -/
def Identifier.Utf8 (i : Identifier) : Prop :=
  ∀ e ∈ i.endpoints, validUtf8 e.address = true

theorem Identifier.foldlM_endpoints (depth : Nat) (i : Identifier) :
    ∀ es : List Endpoint, (∀ e ∈ es, validUtf8 e.address = true) →
      (∀ e ∈ es, (serialize e.toFields).length ≤ maxSize) →
      (es.map fun e => (⟨4, .bytes (serialize e.toFields)⟩ : Field)).foldlM
          (Identifier.merge depth) i =
        some { i with endpoints := i.endpoints ++ es } := by
  intro es
  induction es generalizing i with
  | nil => intro _ _; simp
  | cons e es ih =>
      intro hutf8 hsize
      have hparse := Endpoint.parse_serialize (depth - 1) (hutf8 e (by simp))
        (hsize e (by simp))
      have hrest := ih { i with endpoints := i.endpoints ++ [e] }
        (fun x hx => hutf8 x (by simp [hx])) (fun x hx => hsize x (by simp [hx]))
      simp only [List.map_cons, List.foldlM_cons, Identifier.merge, hparse,
        Option.map_some, Option.bind_eq_bind, Option.bind_some, hrest,
        List.append_assoc, List.cons_append, List.nil_append]

theorem Identifier.parse_serialize (depth : Nat) {i : Identifier} (hutf8 : i.Utf8)
    (hsize : (serialize i.toFields).length ≤ maxSize) :
    Identifier.parseInto depth {} (serialize i.toFields) = some i := by
  have hpid : (scalarField 1 i.pid.toNat).foldlM (Identifier.merge depth) {} =
      some { pid := i.pid } :=
    foldlM_scalarField
      (by intro h; rw [show i.pid = 0 from UInt32.toNat_inj.mp h])
      (by simp [Identifier.merge])
  have htid : (scalarField 2 i.tid.toNat).foldlM (Identifier.merge depth)
      { pid := i.pid } = some { pid := i.pid, tid := i.tid } :=
    foldlM_scalarField
      (by intro h; rw [show i.tid = 0 from UInt64.toNat_inj.mp h])
      (by simp [Identifier.merge])
  have huid : (scalarField 3 i.uid.toNat).foldlM (Identifier.merge depth)
      { pid := i.pid, tid := i.tid } =
        some { pid := i.pid, tid := i.tid, uid := i.uid } :=
    foldlM_scalarField
      (by intro h; rw [show i.uid = 0 from UInt64.toNat_inj.mp h])
      (by simp [Identifier.merge])
  have hendpoints := Identifier.foldlM_endpoints depth
    { pid := i.pid, tid := i.tid, uid := i.uid } i.endpoints hutf8 (by
      intro e he
      have hmem : (⟨4, .bytes (serialize e.toFields)⟩ : Field) ∈ i.toFields := by
        simp only [toFields, List.mem_append, List.mem_map]
        exact .inr ⟨e, he, rfl⟩
      have := length_le_of_mem_serialize hmem
      omega)
  rw [Identifier.parseInto, parseInto_serialize depth _ _ i.encodable hsize, toFields,
    List.foldlM_append, List.foldlM_append, List.foldlM_append, hpid]
  simp only [Option.bind_eq_bind, Option.bind_some, htid, huid, hendpoints,
    List.nil_append]

/-- What the generated parser asks of the strings of a `DataMessage`. -/
def DataMessage.Utf8 (d : DataMessage) : Prop :=
  (∀ i ∈ d.identifier, i.Utf8) ∧ validUtf8 d.topicName = true ∧
    validUtf8 d.messageType = true

theorem DataMessage.foldlM_identifier (depth : Nat) {d : DataMessage}
    (hutf8 : ∀ i ∈ d.identifier, i.Utf8)
    (hsize : (serialize d.toFields).length ≤ maxSize) :
    (messageField 1 (d.identifier.map fun i => serialize i.toFields)).foldlM
        (DataMessage.merge depth) {} = some { identifier := d.identifier } := by
  refine foldlM_messageField ?_ ?_
  · intro h
    rw [Option.map_eq_none_iff.mp h]
  · intro body hbody
    obtain ⟨i, hi, rfl⟩ := Option.map_eq_some_iff.mp hbody
    have hmem : (⟨1, .bytes (serialize i.toFields)⟩ : Field) ∈ d.toFields := by
      simp [toFields, hi, messageField]
    have hle : (serialize i.toFields).length ≤ maxSize := by
      have := length_le_of_mem_serialize hmem
      omega
    have hparse := Identifier.parse_serialize (depth - 1) (hutf8 i hi) hle
    simp [DataMessage.merge, hparse, hi]

theorem DataMessage.parseInto_serialize (depth : Nat) {d : DataMessage}
    (hutf8 : d.Utf8) (hsize : (serialize d.toFields).length ≤ maxSize) :
    DataMessage.parseInto depth {} (serialize d.toFields) = some d := by
  obtain ⟨hidentifier, htopic, htype⟩ := hutf8
  have hname : (bytesField 2 d.topicName).foldlM (DataMessage.merge depth)
      { identifier := d.identifier } =
        some { identifier := d.identifier, topicName := d.topicName } :=
    foldlM_bytesField (by intro h; rw [h]) (by simp [DataMessage.merge, htopic])
  have hmessageType : (bytesField 3 d.messageType).foldlM (DataMessage.merge depth)
      { identifier := d.identifier, topicName := d.topicName } =
        some { identifier := d.identifier, topicName := d.topicName,
               messageType := d.messageType } :=
    foldlM_bytesField (by intro h; rw [h]) (by simp [DataMessage.merge, htype])
  have hpayload : (bytesField 4 d.payload).foldlM (DataMessage.merge depth)
      { identifier := d.identifier, topicName := d.topicName,
        messageType := d.messageType } = some d :=
    foldlM_bytesField
      (by
        intro h
        obtain ⟨identifier, topicName, messageType, payload⟩ := d
        rw [show payload = [] from h])
      (by simp [DataMessage.merge])
  rw [DataMessage.parseInto, Proto3.parseInto_serialize depth _ _ d.encodable hsize,
    toFields, List.foldlM_append, List.foldlM_append, List.foldlM_append,
    DataMessage.foldlM_identifier depth hidentifier hsize]
  simp only [Option.bind_eq_bind, Option.bind_some, hname, hmessageType, hpayload]

theorem DataMessage.parse_serialize {d : DataMessage} (hutf8 : d.Utf8)
    (hsize : (serialize d.toFields).length ≤ maxSize) :
    DataMessage.parse (serialize d.toFields) = some d :=
  DataMessage.parseInto_serialize recursionLimit hutf8 hsize

theorem DataMessage.parse_serialize_eq_none {d : DataMessage}
    (hnames : ¬ (validUtf8 d.topicName = true ∧ validUtf8 d.messageType = true))
    (hsize : (serialize d.toFields).length ≤ maxSize) :
    DataMessage.parse (serialize d.toFields) = none := by
  obtain ⟨f, hf, hrefused⟩ : ∃ f ∈ d.toFields,
      ∀ a, DataMessage.merge recursionLimit a f = none := by
    by_cases htopic : validUtf8 d.topicName = true
    · have htype : validUtf8 d.messageType ≠ true := fun h => hnames ⟨htopic, h⟩
      have hne : d.messageType ≠ [] := fun h => htype (by rw [h]; exact validUtf8_nil)
      exact ⟨⟨3, .bytes d.messageType⟩, by simp [toFields, bytesField, hne],
        fun a => if_neg htype⟩
    · have hne : d.topicName ≠ [] := fun h => htopic (by rw [h]; exact validUtf8_nil)
      exact ⟨⟨2, .bytes d.topicName⟩, by simp [toFields, bytesField, hne],
        fun a => if_neg htopic⟩
  rw [parse, parseInto, Proto3.parseInto_serialize recursionLimit _ _ d.encodable hsize]
  exact foldlM_eq_none_of_mem hf hrefused {}

end Edriel
