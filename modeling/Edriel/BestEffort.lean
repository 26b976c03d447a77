import Edriel.Reception

namespace Edriel

open Proto3 BoundedQueue

theorem Message.parse_dataMessage {d : DataMessage} (hutf8 : d.Utf8)
    (hsize : (serialize (Message.dataMessage d).toFields).length ≤ maxSize) :
    Message.parse (serialize (Message.dataMessage d).toFields) = some (.dataMessage d) := by
  have hmem : (⟨3, .bytes (serialize d.toFields)⟩ : Field) ∈
      (Message.dataMessage d).toFields := by
    simp [Message.toFields, messageField]
  have hle : (serialize d.toFields).length ≤ maxSize := by
    have := length_le_of_mem_serialize hmem
    omega
  have hfields : ∀ f ∈ messageField 3 (some (serialize d.toFields)), f.Encodable :=
    fun f hf => encodable_of_mem_messageField (by decide) (by decide) hf
  have hmerge : Message.merge recursionLimit .notSet ⟨3, .bytes (serialize d.toFields)⟩ =
      some (.dataMessage d) := by
    simp only [Message.merge, DataMessage.parseInto_serialize _ hutf8 hle, Option.map_some]
  have hfold := parseInto_serialize recursionLimit (Message.merge recursionLimit) .notSet hfields
    hsize
  rw [messageField, List.foldlM_cons, hmerge] at hfold
  exact hfold

namespace Node

variable {M N : Nat} [NeZero N]

theorem dataMessage_utf8 (n : Node M) {topicName messageType : Bytes} (payload : Bytes)
    (htopic : validUtf8 topicName = true) (htype : validUtf8 messageType = true) :
    (n.dataMessage topicName messageType payload).Utf8 := by
  refine ⟨fun i hi => ?_, htopic, htype⟩
  obtain rfl := Option.mem_some_iff.mp hi
  exact nofun

/-- The decoded identifier is the sender: `getpid` answers an int, so its pid fits
the wire. -/
theorem sender_dataMessage (n : Node M) (topicName messageType payload : Bytes)
    (hpid : n.selfParticipant.pid.toNat < 2 ^ 32) :
    (n.dataMessage topicName messageType payload).identifier.map Identifier.sender =
      some n.selfParticipant := by
  have hwire : n.selfParticipant.pid.toUInt32.toUInt64 = n.selfParticipant.pid := by
    rw [← UInt64.toNat_inj, UInt32.toNat_toUInt64, UInt64.toNat_toUInt32,
      Nat.mod_eq_of_lt hpid]
  rw [dataMessage, Option.map_some, Identifier.sender, hwire]

end Node

namespace Reception

variable {M N capacity : Nat} [NeZero N]

def fresh (me : Identity) (config : Config) : Reception N capacity :=
  { node := Node.fresh me config }

def dataBody (sender : Node M) (topicName messageType payload : Bytes) : Bytes :=
  serialize (Message.dataMessage (sender.dataMessage topicName messageType payload)).toFields

def Queued (s : Reception N capacity) (i : Fin N) (frame : RawFrame) : Prop :=
  ∃ offset < (s.rings i).size,
    (s.rings i).slot ((s.rings i).tail + UInt64.ofNat offset) = some frame

/-- Unless it has been overwritten, a frame waits in its ring or with its worker, or
has been handled exactly once. -/
def HandledOnce (decodes : Bytes → Bytes → Bool) (start : Reception N capacity) (i : Fin N)
    (frame : RawFrame) (events : List (ReceptionEvent N)) : Prop :=
  frame ∉ SpscRing.overwritten capacity (ringOps decodes i start events) →
    Queued (start.run decodes events) i frame ∨
      (start.run decodes events).hands i = some frame ∨
        ∃! seen, ∃ now, Handles decodes start i frame events seen now

/-- What becomes of a data packet that a node receives in state `s`, after the
events `before`, for the shard `i` of its topic. -/
structure RoundTrip (decodes : Bytes → Bytes → Bool) (start : Reception N capacity)
    (before : List (ReceptionEvent N)) (sender : Node M)
    (topicName messageType payload packet : Bytes) (s : Reception N capacity) (i : Fin N)
    (body : Bytes) : Prop where
  magic : datagramBody packet = some body
  routingKey : tryReadRoutingKey body = some (makeCompositeKey topicName messageType)
  queued : s.handleReceivedDatagram packet = s.publish i body
  stored : ∀ j entry, (s.node.shards j).topics[makeCompositeKey topicName messageType]? =
    some entry → j = i
  decoded : Message.parse body =
    some (.dataMessage (sender.dataMessage topicName messageType payload))
  identity : sender.selfParticipant.pid.toNat < 2 ^ 32 →
    (sender.dataMessage topicName messageType payload).identifier.map Identifier.sender =
      some sender.selfParticipant
  /-- Whenever the frame is handled, it invokes what is registered then. -/
  invokes : ∀ seen now, (start.run decodes seen).hands i = some (s.arrivals, body) →
    (start.run decodes seen).invoked decodes i now =
      (registered decodes topicName messageType start [] seen).map
        fun invoke => ⟨messageType, invoke⟩
  handled : ∀ later, capacity ∣ 2 ^ 64 ∨
      (before ++ .datagram packet :: later).length ≤ 2 ^ 64 →
    HandledOnce decodes start i (s.arrivals, body) (before ++ .datagram packet :: later)

variable {decodes : Bytes → Bytes → Bool}

theorem mem_accepted_of_publish {start : Reception N capacity}
    {before later : List (ReceptionEvent N)} {packet body : Bytes} {i : Fin N}
    (hring : start.rings i = {}) (hbody : datagramBody packet = some body)
    (htarget : target body = some i)
    (hopen : ((start.run decodes before).rings i).closed = false) :
    ((start.run decodes before).arrivals, body) ∈
      SpscRing.accepted capacity (ringOps decodes i start (before ++ .datagram packet :: later)) := by
  have hop : ringOp (start.run decodes before) i (.datagram packet) =
      [.publish (some ((start.run decodes before).arrivals, body))] := by
    rw [ringOp, hbody]
    exact if_pos htarget
  rw [SpscRing.accepted, ringOps_append, gather_append, ringOps, hop, ← hring, ← rings_run]
  refine List.mem_append_right _ (List.mem_append_left _ ?_)
  rw [SpscRing.accepts, hopen]
  exact List.mem_cons_self

/-- A frame that an open ring accepted waits, was overwritten, or is handled once. -/
theorem handledOnce_of_accepted (hpos : 0 < capacity) (hlt : capacity < 2 ^ 64)
    {start : Reception N capacity} {i : Fin N} {frame : RawFrame}
    {events : List (ReceptionEvent N)} (hring : start.rings i = {}) (hhand : start.hands i = none)
    (haccepted : frame ∈ SpscRing.accepted capacity (ringOps decodes i start events))
    (hrange : capacity ∣ 2 ^ 64 ∨ events.length ≤ 2 ^ 64) :
    HandledOnce decodes start i frame events := by
  intro hkept
  have hlen := length_ringOps_le decodes i events start
  obtain ⟨first, items, hholds, hperm, hsub⟩ :=
    SpscRing.account hpos hlt (ringOps decodes i start events) (hrange.imp_right hlen.trans)
  have hnodup := hperm.nodup_iff.mp
    (hsub.nodup (arrivals_le_of_published decodes i events start).2)
  have hfinal : (start.run decodes events).rings i =
      SpscRing.ring capacity (ringOps decodes i start events) := by
    rw [rings_run, hring, SpscRing.ring]
  have hreturned := returned_run decodes i events start
  rw [hring, hhand] at hreturned
  rcases List.mem_append.mp (hperm.mem_iff.mp haccepted) with hmem | hmem
  · rw [Option.toList_none, List.nil_append] at hreturned
    have hhandled := (List.nodup_append'.mp hnodup).1
    rw [hreturned] at hmem hhandled
    rcases List.mem_append.mp hmem with hmem | hmem
    · refine .inr (.inr ?_)
      obtain ⟨seen, now, hseen⟩ := exists_of_mem_handled hmem
      refine ⟨seen, ⟨now, hseen⟩, ?_⟩
      rintro seen' ⟨now', hseen'⟩
      exact hseen'.unique (List.nodup_append'.mp hhandled).1 hseen
    · exact .inr (.inl (Option.mem_toList.mp hmem))
  rcases List.mem_append.mp hmem with hmem | hmem
  · refine .inl ?_
    obtain ⟨offset, hoffset⟩ := List.mem_iff_getElem?.mp hmem
    have hlength := (List.getElem?_eq_some_iff.mp hoffset).1
    rw [← hfinal] at hholds
    exact ⟨offset, by rwa [hholds.size_eq hlt], (hholds.slot_eq hlength).trans hoffset⟩
  · exact absurd hmem hkept

theorem invoked_of_hand {start : Reception N capacity} {i : Fin N} {frame : RawFrame}
    {seen : List (ReceptionEvent N)} {d : DataMessage} (now : Int)
    (hstart : start.node.Subscribed d.topicName d.messageType [])
    (hhand : (start.run decodes seen).hands i = some frame)
    (hparse : Message.parse frame.2 = some (.dataMessage d))
    (hdecodes : decodes d.messageType d.payload = true) :
    (start.run decodes seen).invoked decodes i now =
      (registered decodes d.topicName d.messageType start [] seen).map
        fun invoke => ⟨d.messageType, invoke⟩ := by
  have hsubscribed := subscribed_run decodes seen start [] hstart
  rw [invoked, hhand]
  dsimp only
  rw [Node.handleFrame, hparse]
  dsimp only
  rw [Node.handleDataMessageReceive, if_pos hdecodes]
  exact hsubscribed.callbacksFor

/-- Best-effort data makes the round trip: the packet that fits is accepted and
queued for the worker of its topic, which decodes what was published and invokes
exactly the callbacks registered for it. -/
theorem data_round_trip (hpos : 0 < capacity) (hlt : capacity < 2 ^ 64) (sender : Node M)
    {topicName messageType payload packet : Bytes} (htopic : topicName ≠ [])
    (htype : messageType ≠ []) (hutf8 : validUtf8 topicName = true)
    (hutf8' : validUtf8 messageType = true)
    (hsend : sender.publishData topicName messageType payload = some packet)
    (hdecodes : decodes messageType payload = true) (me : Identity) (config : Config)
    (before : List (ReceptionEvent N))
    (hopen : (((fresh me config : Reception N capacity).run decodes before).rings
      (Node.shardIndexForTopic (makeCompositeKey topicName messageType))).closed = false) :
    RoundTrip decodes (fresh me config : Reception N capacity) before sender topicName
      messageType payload packet ((fresh me config).run decodes before)
      (Node.shardIndexForTopic (makeCompositeKey topicName messageType))
      (dataBody sender topicName messageType payload) := by
  obtain ⟨hbody, hlen⟩ := datagramBody_of_sendPacket hsend
  have hsize : recvBufferSize < 2 ^ 64 := by decide
  have hkey := tryReadRoutingKey_dataMessage (d := sender.dataMessage topicName messageType payload)
    htopic htype (hlen.trans_lt hsize)
  have hparse := Message.parse_dataMessage (sender.dataMessage_utf8 payload hutf8 hutf8')
    (hlen.trans (by decide))
  have htarget : target (dataBody sender topicName messageType payload) =
      some (Node.shardIndexForTopic (N := N) (makeCompositeKey topicName messageType)) := by
    rw [target, dataBody, hkey]
    rfl
  constructor
  case magic => exact hbody
  case routingKey => exact hkey
  case queued =>
    rw [handleReceivedDatagram, hbody]
    dsimp only
    rw [← dataBody, htarget]
  case stored =>
    intro j entry hentry
    exact placed_run before _ (Node.placed_fresh me config) j _ entry hentry
  case decoded => exact hparse
  case identity => exact sender.sender_dataMessage topicName messageType payload
  case invokes =>
    intro seen now hhand
    exact invoked_of_hand now (Node.subscribed_fresh me config topicName messageType) hhand hparse
      hdecodes
  case handled =>
    intro later hrange
    exact handledOnce_of_accepted hpos hlt rfl rfl
      (mem_accepted_of_publish rfl hbody htarget hopen) hrange

/-- What node `(1, 0, 3)` multicasts for an empty message of type `T` on topic `t`. -/
def dataPacket : Bytes :=
  [0xED, 0x75, 0xE1, 0xED, 26, 12, 10, 4, 8, 1, 24, 3, 18, 1, 116, 26, 1, 84]

theorem publishData_node_3 :
    (Node.fresh ⟨1, 0, 3⟩ {} : Node 1).publishData [116] [84] [] = some dataPacket := by
  decide

theorem data_round_trip_node_3 :
    RoundTrip (fun messageType _ => messageType == [84])
      (fresh ⟨1, 0, 9⟩ {} : Reception 2 4)
      [.operation (.registerSubscriberTopicWith [116] Node.typeT (some 7) false)]
      (Node.fresh ⟨1, 0, 3⟩ {} : Node 1) [116] [84] [] dataPacket
      ((fresh ⟨1, 0, 9⟩ {} : Reception 2 4).run (fun messageType _ => messageType == [84])
        [.operation (.registerSubscriberTopicWith [116] Node.typeT (some 7) false)])
      (Node.shardIndexForTopic (makeCompositeKey [116] [84]))
      (dataBody (Node.fresh ⟨1, 0, 3⟩ {} : Node 1) [116] [84] []) :=
  data_round_trip (by decide) (by decide) (Node.fresh ⟨1, 0, 3⟩ {} : Node 1) (by decide)
    (by decide) (by decide) (by decide) publishData_node_3 (by decide) ⟨1, 0, 9⟩ {} _ rfl

end Reception

end Edriel
