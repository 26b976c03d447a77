import Edriel.Heartbeat
import Edriel.Reconcile
import Edriel.Gate
import Edriel.WireFormat
import Edriel.Reception

/-!
Many nodes in one multicast group: what each of them sends, what the others make of it, and
where everything that a registry or a callback gets to see has come from.
-/

namespace Edriel

open Proto3 Std

namespace SpscRing

universe u

variable {T : Type u} {capacity : Nat}

def Stores (r : SpscRing T capacity) (x : T) : Prop :=
  ∃ j : Nat, r.slots[j]? = some (some x)

theorem not_stores_empty (x : T) : ¬ ({} : SpscRing T capacity).Stores x := by
  rintro ⟨j, hj⟩
  have hnone := Vector.getElem?_replicate (n := capacity) (a := (none : Option T)) (i := j)
  change (Vector.replicate capacity (none : Option T))[j]? = _ at hj
  rw [hj] at hnone
  split at hnone <;> cases hnone

theorem stores_setIfInBounds {slots : Vector (Option T) capacity} {i : Nat} {item : Option T}
    {j : Nat} {x : T} (h : (slots.setIfInBounds i item)[j]? = some (some x)) :
    slots[j]? = some (some x) ∨ item = some x := by
  rw [Vector.getElem?_setIfInBounds] at h
  split at h
  · split at h
    · exact .inr (Option.some.inj h)
    · cases h
  · exact .inl h

theorem stores_publish {r : SpscRing T capacity} {item : Option T} {x : T}
    (h : (r.publish item).Stores x) : r.Stores x ∨ item = some x := by
  obtain ⟨j, hj⟩ := h
  rw [publish] at hj
  split at hj
  · exact .inl ⟨j, hj⟩
  · split at hj
    · exact (stores_setIfInBounds hj).imp_left fun hold => ⟨j, hold⟩
    · exact (stores_setIfInBounds hj).imp_left fun hold => ⟨j, hold⟩

theorem stores_pop {r : SpscRing T capacity} {x : T} (h : r.pop.2.Stores x) : r.Stores x := by
  obtain ⟨j, hj⟩ := h
  rw [pop] at hj
  split at hj
  · exact ⟨j, hj⟩
  · rcases stores_setIfInBounds hj with hold | hnone
    · exact ⟨j, hold⟩
    · cases hnone

theorem stores_of_pop {r : SpscRing T capacity} {x : T} (h : r.pop.1.object? = some x) :
    r.Stores x := by
  rw [pop] at h
  split at h
  · split at h <;> cases h
  · rw [take] at h
    dsimp only at h
    split at h
    · rename_i y hy
      obtain rfl : y = x := Option.some.inj h
      rw [slot, Option.join_eq_some_iff] at hy
      exact ⟨_, hy⟩
    · cases h

end SpscRing

/-- The identifier that every packet of a node carries; its pid has 32 bits there. -/
def Identity.identifier (me : Identity) : Identifier :=
  { pid := me.pid.toUInt32, tid := me.tid, uid := me.uid }

/-- The identity that others know a node by. -/
def Identity.onWire (me : Identity) : Identity :=
  me.identifier.sender

/-- Why a packet is on the air.  A stray packet is none of the members'. -/
inductive Cause (K : Type*) where
  | heartbeat (k : K) (discovered : List Bytes)
  | announcement (k : K) (topicName : Bytes) (T : MessageName) (isPublisher reliable : Bool)
  | data (k : K) (topicName messageType payload : Bytes)
  | stray

structure Transmission (K : Type*) where
  cause : Cause K
  packet : Bytes

def Transmission.body {K : Type*} (t : Transmission K) : Option Bytes :=
  datagramBody (t.packet.take recvBufferSize)

def Transmission.message {K : Type*} (t : Transmission K) : Option Message :=
  t.body.bind Message.parse

/-- What the members have in common for good: their names and their configuration. -/
structure Roster (K : Type*) where
  identity : K → Identity
  config : K → Config
  file : K → FileConfig

/-- The nodes of a group, each with its own shards and rings, and all that was ever
multicast. -/
structure Swarm (K : Type*) (N capacity : K → Nat) where
  members : (k : K) → Reception (N k) (capacity k)
  air : List (Transmission K) := []

/-- An operation of the node's own program: it handles no packet. -/
abbrev LocalOperation := { op : Operation // op.sender? = none }

/-- The turns of a group.  A packet may reach a member late, twice, or never. -/
inductive SwarmEvent (K : Type*) (N : K → Nat) where
  | heartbeat (k : K) (discovered : List Bytes)
  | operation (k : K) (op : LocalOperation)
  | publishData (k : K) (topicName messageType payload : Bytes)
  | stray (packet : Bytes)
  | deliver (k : K) (j : Nat)
  | pop (k : K) (i : Fin (N k))
  | handle (k : K) (i : Fin (N k)) (now : Int)
  | stop (k : K)

namespace Swarm

variable {K : Type*} [DecidableEq K] {N capacity : K → Nat} [∀ k, NeZero (N k)]

def init (roster : Roster K) : Swarm K N capacity :=
  { members := fun k => { node := Node.fresh (roster.identity k) (roster.config k) } }

/-- `async_send_to` the group; nothing is sent when there is no packet. -/
def multicast (s : Swarm K N capacity) (cause : Cause K) (packet : Option Bytes) :
    Swarm K N capacity :=
  match packet with
  | none => s
  | some packet => { s with air := s.air ++ [⟨cause, packet⟩] }

def turn (decodes : K → Bytes → Bytes → Bool) (s : Swarm K N capacity) (k : K)
    (e : ReceptionEvent (N k)) : Swarm K N capacity :=
  { s with members := Function.update s.members k ((s.members k).step (decodes k) e) }

/-- What an operation of a node announces, and the packet it does that with. -/
def announces {M : Nat} [NeZero M] (k : K) (n : Node M) : Operation → Cause K × Option Bytes
  | .registerPublisherTopic topicName T reliable =>
      (.announcement k topicName T true reliable,
        (n.registerPublisherTopic topicName T reliable).1)
  | .registerSubscriberTopic topicName T reliable =>
      (.announcement k topicName T false reliable,
        (n.registerSubscriberTopic topicName T reliable).1)
  | .registerSubscriberTopicWith topicName T callback reliable =>
      (.announcement k topicName T false reliable,
        (n.registerSubscriberTopicWith topicName T callback reliable).1)
  | _ => (.stray, none)

def step (roster : Roster K) (decodes : K → Bytes → Bytes → Bool) (s : Swarm K N capacity) :
    SwarmEvent K N → Swarm K N capacity
  | .heartbeat k discovered =>
      s.multicast (.heartbeat k discovered)
        (some (discoveryPacket (s.members k).node.selfParticipant (roster.file k) discovered))
  | .operation k op =>
      (s.turn decodes k (.operation op.1)).multicast (announces k (s.members k).node op.1).1
        (announces k (s.members k).node op.1).2
  | .publishData k topicName messageType payload =>
      s.multicast (.data k topicName messageType payload)
        ((s.members k).node.publishData topicName messageType payload)
  | .stray packet => s.multicast .stray (some packet)
  | .deliver k j =>
      match s.air[j]? with
      | none => s
      | some t => s.turn decodes k (.datagram (t.packet.take recvBufferSize))
  | .pop k i => s.turn decodes k (.pop i)
  | .handle k i now => s.turn decodes k (.handle i now)
  | .stop k => s.turn decodes k .stop

def run (roster : Roster K) (decodes : K → Bytes → Bytes → Bool)
    (events : List (SwarmEvent K N)) : Swarm K N capacity :=
  events.foldl (step roster decodes) (init roster)

end Swarm

/-- The packet is the one that its cause makes a node send. -/
def Transmission.Genuine {K : Type*} (roster : Roster K) (t : Transmission K) : Prop :=
  match t.cause with
  | .heartbeat k discovered =>
      t.packet = discoveryPacket (roster.identity k) (roster.file k) discovered
  | .announcement k topicName T isPublisher reliable =>
      sendPacket (TopicAdvertisement.toFields
        { identifier := some (roster.identity k).identifier
          topic := some { topicName, messageType := T.fullName, isPublisher, reliable } }) =
        some t.packet
  | .data k topicName messageType payload =>
      sendPacket (Message.dataMessage
        { identifier := some (roster.identity k).identifier, topicName, messageType,
          payload }).toFields = some t.packet
  | .stray => True

/-- What its receivers can read in a packet.  A heartbeat of 2 GiB is sent empty; an
announcement is taken for an advertisement inside its topic. -/
def Cause.Reads {K : Type*} (roster : Roster K) : Cause K → Message → Prop
  | .heartbeat k discovered, m =>
      m = discoveryMessage (roster.identity k) (roster.file k) discovered ∨ m = .notSet
  | .announcement _ topicName T isPublisher reliable, m =>
      ∃ a, m = .advertisement a ∧
        (Topic.toFields { topicName, messageType := T.fullName, isPublisher,
                          reliable }).foldlM (TopicAdvertisement.merge 99) {} = some a
  | .data k topicName messageType payload, m =>
      m = .dataMessage { identifier := some (roster.identity k).identifier, topicName,
                         messageType, payload }
  | .stray, _ => True

theorem Transmission.body_of_sendPacket {K : Type*} {t : Transmission K} {fs : List Field}
    (h : sendPacket fs = some t.packet) :
    t.body = some (serialize fs) ∧ (serialize fs).length ≤ maxSize := by
  obtain ⟨hbody, hsize⟩ := datagramBody_of_sendPacket h
  have hfits : t.packet.length ≤ recvBufferSize := by
    rw [sendPacket] at h
    split at h
    · cases h
    · split at h
      · cases h
      · rw [← Option.some.inj h]
        omega
  refine ⟨?_, hsize.trans (by decide)⟩
  rw [Transmission.body, List.take_of_length_le hfits]
  exact hbody

/-- A heartbeat that does not fit the buffer is cut inside its only field. -/
theorem parse_truncated {payload : Bytes} {size : Nat}
    (hsize : (serialize (messageField 1 (some payload))).length ≤ 2 ^ 31 - 1)
    (hroom : 20 ≤ size) (hcut : size < (serialize (messageField 1 (some payload))).length) :
    Message.parse ((serialize (messageField 1 (some payload))).take size) = none := by
  have hserial : serialize (messageField 1 (some payload)) =
      encodeTag 1 2 ++ encodeVarint payload.length ++ payload :=
    List.append_nil _
  have htag := length_encodeVarint_le (8 * 1 + 2)
  have hlength := length_encodeVarint_le payload.length
  have hhead : (encodeTag 1 2 ++ encodeVarint payload.length).length ≤ 20 := by
    rw [encodeTag, List.length_append]
    omega
  rw [hserial, List.length_append] at hcut hsize
  have hfields := fields_truncated recursionLimit (by decide : 0 < 1) (by decide : 1 < 2 ^ 29)
    (by omega : payload.length < 2 ^ 35)
    (by omega :
      size - (encodeTag 1 2 ++ encodeVarint payload.length).length < payload.length)
  rw [Message.parse, parseInto, hserial, List.take_append, List.take_of_length_le (by omega),
    hfields]
  rfl

theorem datagramBody_heartbeat (body : Bytes) :
    datagramBody ((prependMagicNumberToPacket body).take recvBufferSize) =
      some (body.take 1496) :=
  rfl

/-- What is sent as a message is read as that message or not at all. -/
theorem Message.eq_of_parse {m m' : Message} (hsize : (serialize m.toFields).length ≤ maxSize)
    (h : Message.parse (serialize m.toFields) = some m') : m' = m := by
  obtain ⟨hsame, hnone⟩ := m.parse_serialize hsize
  by_cases hutf8 : m.Utf8
  · rw [hsame hutf8] at h
    exact (Option.some.inj h).symm
  · rw [hnone hutf8] at h
    cases h

theorem reads_heartbeat {me : Identity} {file : FileConfig} {discovered : List Bytes}
    {m : Message} (h : (datagramBody ((discoveryPacket me file discovered).take
      recvBufferSize)).bind Message.parse = some m) :
    m = discoveryMessage me file discovered ∨ m = .notSet := by
  rw [discoveryPacket, datagramBody_heartbeat, Option.bind_some, serializeToString] at h
  split at h
  · rename_i hsize
    rw [Option.getD_some] at h
    by_cases hfits : (serialize (discoveryMessage me file discovered).toFields).length ≤ 1496
    · rw [List.take_of_length_le hfits] at h
      exact .inl (Message.eq_of_parse (hfits.trans (by decide)) h)
    · rw [discoveryMessage, Message.toFields] at h hfits hsize
      rw [parse_truncated hsize (by decide) (Nat.lt_of_not_le hfits)] at h
      cases h
  · exact .inr (Option.some.inj h).symm

theorem Transmission.reads_of_message {K : Type*} {roster : Roster K} {t : Transmission K}
    (hgenuine : t.Genuine roster) {m : Message} (hm : t.message = some m) :
    t.cause.Reads roster m := by
  obtain ⟨cause, packet⟩ := t
  cases cause with
  | heartbeat k discovered =>
      obtain rfl : packet = _ := hgenuine
      exact reads_heartbeat hm
  | announcement k topicName T isPublisher reliable =>
      obtain ⟨hbody, hsize⟩ := body_of_sendPacket hgenuine
      have hparse := Message.parse_advertisement rfl hsize
      rw [message, hbody, Option.bind_some, hparse] at hm
      obtain ⟨a, ha, rfl⟩ := Option.map_eq_some_iff.mp hm
      exact ⟨a, rfl, ha⟩
  | data k topicName messageType payload =>
      obtain ⟨hbody, hsize⟩ := body_of_sendPacket hgenuine
      rw [message, hbody, Option.bind_some] at hm
      exact Message.eq_of_parse hsize hm
  | stray => exact trivial

namespace Reception

variable {N capacity : Nat} [NeZero N]

def Carries (s : Reception N capacity) (frame : RawFrame) : Prop :=
  (∃ i, (s.rings i).Stores frame) ∨ ∃ i, s.hands i = some frame

omit [NeZero N] in
theorem carries_publish {s : Reception N capacity} {i : Fin N} {body : Bytes} {frame : RawFrame}
    (h : (s.publish i body).Carries frame) : s.Carries frame ∨ frame.2 = body := by
  rcases h with ⟨j, hj⟩ | hhand
  · rw [rings_publish] at hj
    split at hj
    · rcases SpscRing.stores_publish hj with hold | hnew
      · exact .inl (.inl ⟨j, hold⟩)
      · rw [← Option.some.inj hnew]
        exact .inr rfl
    · exact .inl (.inl ⟨j, hj⟩)
  · exact .inl (.inr hhand)

omit [NeZero N] in
theorem carries_pop {s : Reception N capacity} {i : Fin N} {frame : RawFrame}
    (h : (s.pop i).Carries frame) : s.Carries frame := by
  rw [pop] at h
  split at h
  · exact h
  · rcases h with ⟨j, hj⟩ | ⟨j, hj⟩
    · dsimp only at hj
      rw [Function.update_apply] at hj
      split at hj
      · exact .inl ⟨i, SpscRing.stores_pop hj⟩
      · exact .inl ⟨j, hj⟩
    · dsimp only at hj
      rw [Function.update_apply] at hj
      split at hj
      · exact .inl ⟨i, SpscRing.stores_of_pop hj⟩
      · exact .inr ⟨j, hj⟩

/-- A frame gets into a node with the datagram it is the body of. -/
theorem carries_step {decodes : Bytes → Bytes → Bool} {s : Reception N capacity}
    {e : ReceptionEvent N} {frame : RawFrame} (h : (s.step decodes e).Carries frame) :
    s.Carries frame ∨ ∃ packet, e = .datagram packet ∧ datagramBody packet = some frame.2 := by
  cases e with
  | datagram packet =>
      rw [step, handleReceivedDatagram] at h
      split at h
      · exact .inl h
      · rename_i body hbody
        split at h
        · exact .inl h
        · refine (carries_publish h).imp_right fun hframe => ⟨packet, rfl, ?_⟩
          rw [hframe]
          exact hbody
  | pop i => exact .inl (carries_pop h)
  | handle i now =>
      rw [step, handle] at h
      split at h
      · exact .inl h
      · refine .inl (h.imp_right ?_)
        rintro ⟨j, hj⟩
        dsimp only at hj
        rw [Function.update_apply] at hj
        split at hj
        · cases hj
        · exact ⟨j, hj⟩
  | operation op => exact .inl h
  | stop =>
      refine .inl (h.imp_left ?_)
      rintro ⟨i, j, hj⟩
      exact ⟨i, j, hj⟩

theorem node_handle (decodes : Bytes → Bytes → Bool) (s : Reception N capacity) (i : Fin N)
    (now : Int) : (s.handle decodes i now).node = s.node ∨
      ∃ frame, s.hands i = some frame ∧
        (s.handle decodes i now).node = (s.node.handleFrame decodes now frame.2).2 := by
  rw [handle]
  split
  · exact .inl rfl
  · rename_i frame hframe
    exact .inr ⟨frame, hframe, rfl⟩

end Reception

/-- The packet makes its receivers hear of `sender` at `endpoints`. -/
def Transmission.Speaks {K : Type*} (t : Transmission K) (sender : Identity)
    (endpoints : List Endpoint) : Prop :=
  ∃ m, t.message = some m ∧ (m.dispatch = .heartbeat sender endpoints ∨
    ∃ topicName messageType isPublisher,
      m.dispatch = .announcement sender endpoints topicName messageType isPublisher)

/-- The packet makes its receivers list `sender` under a topic. -/
def Transmission.Lists {K : Type*} (t : Transmission K) (sender : Identity) : Prop :=
  ∃ m endpoints topicName messageType isPublisher, t.message = some m ∧
    m.dispatch = .announcement sender endpoints topicName messageType isPublisher

namespace Node

variable {N : Nat} [NeZero N] {n : Node N} {i : Fin N} {uid : UInt64} {p : Participant}

theorem participant_of_local {op : Operation} (hlocal : op.sender? = none)
    (h : ((n.apply op).shards i).participants[uid]? = some p) :
    (n.shards i).participants[uid]? = some p := by
  have hsame : ((n.apply op).shards i).participants = (n.shards i).participants →
      (n.shards i).participants[uid]? = some p :=
    fun hsame => hsame ▸ h
  cases op with
  | registerPublisherTopic topicName T reliable => exact hsame (participants_alterTopic _ _ _ _)
  | registerSubscriberTopic topicName T reliable =>
      exact hsame (participants_registerSubscriberTopic _ _ _ _ _)
  | registerSubscriberTopicWith topicName T callback reliable =>
      cases callback with
      | none => exact hsame rfl
      | some invoke =>
          refine hsame ?_
          rw [apply, registerSubscriberTopicWith, participants_registerSubscriberTopic,
            shards_noteReliableSubscription, pushCallback, updateTopic, participants_alterTopic,
            registerTopic, updateTopic, participants_alterTopic]
  | subscribe topicName T callback =>
      cases callback with
      | none => exact hsame rfl
      | some invoke =>
          refine hsame ?_
          rw [apply, subscribe]
          split
          · rfl
          · exact participants_alterTopic _ _ _ _
  | unregisterPublisherTopic topicName T => exact hsame (participants_alterTopic _ _ _ _)
  | unregisterSubscriberTopic topicName T =>
      exact hsame (participants_unregisterSubscriberTopic _ _ _ _)
  | heartbeat now sender endpoints => cases hlocal
  | announcement sender topicName messageType isPublisher => cases hlocal
  | removeTimedOutParticipants now =>
      simp only [apply, removeTimedOutParticipants] at h
      rw [ExtTreeMap.getElem?_filter'] at h
      exact (Option.filter_eq_some_iff.mp h).1

theorem participant_heartbeat {now : Int} {sender : Identity} {endpoints : List Endpoint}
    (h : ((n.handleParticipantHeartbeat now sender endpoints).shards i).participants[uid]? =
      some p) :
    (n.shards i).participants[uid]? = some p ∨
      sender.uid ≠ n.selfParticipant.uid ∧ sender.uid = uid ∧ p.endpoints = endpoints ∧
        (p.id = sender ∨ ∃ p', (n.shards i).participants[uid]? = some p' ∧ p'.id = p.id) := by
  rw [handleParticipantHeartbeat] at h
  split at h
  · exact .inl h
  · rename_i hself
    simp only [alterParticipant, Function.update_apply] at h
    split at h
    · rename_i hi
      rw [ExtTreeMap.getElem?_alter] at h
      split at h
      · rename_i huid
        have huid : sender.uid = uid := LawfulEqOrd.compare_eq_iff_eq.mp huid
        split at h
        · obtain rfl := Option.some.inj h
          exact .inr ⟨hself, huid, rfl, .inl rfl⟩
        · rename_i p' hp'
          obtain rfl := Option.some.inj h
          refine .inr ⟨hself, huid, rfl, .inr ⟨p', ?_, rfl⟩⟩
          rw [hi, ← huid]
          exact hp'
      · exact .inl (hi ▸ h)
    · exact .inl h

/-- Everyone in the registry has been heard on the air, and is not the node itself. -/
structure Sourced {K : Type*} (n : Node N) (air : List (Transmission K)) : Prop where
  located : ∀ (i : Fin N) (uid : UInt64) (p : Participant),
    (n.shards i).participants[uid]? = some p → p.id.uid = uid ∧ uid ≠ n.selfParticipant.uid
  identity : ∀ p, n.Holds p → ∃ t ∈ air, ∃ endpoints, t.Speaks p.id endpoints
  endpoints : ∀ p, n.Holds p → ∃ t ∈ air, ∃ sender : Identity,
    sender.uid = p.id.uid ∧ t.Speaks sender p.endpoints
  named : ∀ p, n.Names p → p.uid ≠ n.selfParticipant.uid ∧ ∃ t ∈ air, t.Lists p

variable {K : Type*} {air : List (Transmission K)}

omit [NeZero N] in
theorem Sourced.mono {air' : List (Transmission K)} (h : n.Sourced air) (hsub : air ⊆ air') :
    n.Sourced air' where
  located := h.located
  identity := by
    intro p hp
    obtain ⟨t, ht, hspeaks⟩ := h.identity p hp
    exact ⟨t, hsub ht, hspeaks⟩
  endpoints := by
    intro p hp
    obtain ⟨t, ht, hspeaks⟩ := h.endpoints p hp
    exact ⟨t, hsub ht, hspeaks⟩
  named := by
    intro p hp
    obtain ⟨hself, t, ht, hlists⟩ := h.named p hp
    exact ⟨hself, t, hsub ht, hlists⟩

theorem Sourced.local (h : n.Sourced air) {op : Operation} (hlocal : op.sender? = none) :
    (n.apply op).Sourced air where
  located := by
    intro i uid p hp
    rw [selfParticipant_apply]
    exact h.located i uid p (participant_of_local hlocal hp)
  identity := by
    rintro p ⟨i, uid, hp⟩
    exact h.identity p ⟨i, uid, participant_of_local hlocal hp⟩
  endpoints := by
    rintro p ⟨i, uid, hp⟩
    exact h.endpoints p ⟨i, uid, participant_of_local hlocal hp⟩
  named := by
    intro p hp
    rw [selfParticipant_apply]
    rcases names_of_apply hp with hold | hsender
    · exact h.named p hold
    · rw [hlocal] at hsender
      cases hsender

theorem Sourced.heartbeat (h : n.Sourced air) {t : Transmission K} (ht : t ∈ air) (now : Int)
    {sender : Identity} {endpoints : List Endpoint} (hspeaks : t.Speaks sender endpoints) :
    (n.handleParticipantHeartbeat now sender endpoints).Sourced air where
  located := by
    intro i uid p hp
    rw [selfParticipant_handleParticipantHeartbeat]
    rcases participant_heartbeat hp with hold | ⟨hself, huid, -, hid⟩
    · exact h.located i uid p hold
    · rcases hid with rfl | ⟨p', hp', hid⟩
      · exact ⟨huid, huid ▸ hself⟩
      · rw [← hid]
        exact h.located i uid p' hp'
  identity := by
    rintro p ⟨i, uid, hp⟩
    rcases participant_heartbeat hp with hold | ⟨-, -, -, hid⟩
    · exact h.identity p ⟨i, uid, hold⟩
    · rcases hid with rfl | ⟨p', hp', hid⟩
      · exact ⟨t, ht, endpoints, hspeaks⟩
      · rw [← hid]
        exact h.identity p' ⟨i, uid, hp'⟩
  endpoints := by
    rintro p ⟨i, uid, hp⟩
    rcases participant_heartbeat hp with hold | ⟨-, huid, rfl, hid⟩
    · exact h.endpoints p ⟨i, uid, hold⟩
    · refine ⟨t, ht, sender, ?_, hspeaks⟩
      rcases hid with rfl | ⟨p', hp', hid⟩
      · rfl
      · rw [huid, ← hid, (h.located i uid p' hp').1]
  named := by
    intro p hp
    rw [selfParticipant_handleParticipantHeartbeat]
    obtain ⟨i, key, side, hlisted⟩ := names_iff.mp hp
    exact h.named p (names_iff.mpr ⟨i, key, side, listedAt_handleParticipantHeartbeat hlisted⟩)

theorem Sourced.announcement (h : n.Sourced air) {t : Transmission K} (ht : t ∈ air)
    {sender : Identity} (hlists : t.Lists sender) (topicName messageType : Bytes)
    (isPublisher : Bool) :
    (n.handleTopicAnnouncement sender topicName messageType isPublisher).Sourced air := by
  by_cases hself : sender.uid = n.selfParticipant.uid
  · rw [handleTopicAnnouncement, if_pos hself]
    exact h
  · have hsame : ∀ i,
        ((n.handleTopicAnnouncement sender topicName messageType isPublisher).shards
          i).participants = (n.shards i).participants :=
      participants_handleTopicAnnouncement n sender topicName messageType isPublisher
    have hme := selfParticipant_apply n
      (.announcement sender topicName messageType isPublisher)
    rw [apply] at hme
    constructor
    case located =>
      intro i uid p hp
      rw [hme]
      exact h.located i uid p (hsame i ▸ hp)
    case identity =>
      rintro p ⟨i, uid, hp⟩
      exact h.identity p ⟨i, uid, hsame i ▸ hp⟩
    case endpoints =>
      rintro p ⟨i, uid, hp⟩
      exact h.endpoints p ⟨i, uid, hsame i ▸ hp⟩
    case named =>
      intro p hp
      rw [hme]
      obtain ⟨i, key, side, hlisted⟩ := names_iff.mp hp
      rcases listedAt_handleTopicAnnouncement hlisted with hold | rfl
      · exact h.named p (names_iff.mpr ⟨i, key, side, hold⟩)
      · exact ⟨hself, t, ht, hlists⟩

/-- A frame off the air leaves a sourced registry sourced. -/
theorem Sourced.handleFrame (h : n.Sourced air) {t : Transmission K} (ht : t ∈ air)
    {body : Bytes} (hbody : t.body = some body) (decodes : Bytes → Bytes → Bool) (now : Int) :
    (n.handleFrame decodes now body).2.Sourced air := by
  rw [Node.handleFrame]
  cases hparse : Message.parse body with
  | none => exact h
  | some m =>
      have hm : t.message = some m := by
        rw [Transmission.message, hbody]
        exact hparse
      have hdispatch : (n.handleAutoDiscoveryParse now m).2.Sourced air := by
        rw [handleAutoDiscoveryParse]
        split
        · exact h
        · rename_i sender endpoints hsays
          exact h.heartbeat ht now ⟨m, hm, .inl hsays⟩
        · exact h
        · rename_i sender endpoints topicName messageType isPublisher hsays
          exact (h.heartbeat ht now ⟨m, hm, .inr ⟨_, _, _, hsays⟩⟩).announcement ht
            ⟨m, _, _, _, _, hm, hsays⟩ _ _ _
      cases m with
      | dataMessage d => exact h
      | notSet => exact hdispatch
      | identifier i => exact hdispatch
      | advertisement a => exact hdispatch

end Node

theorem Node.callback_of_handleFrame {N : Nat} [NeZero N] {n : Node N}
    {decodes : Bytes → Bytes → Bool} {now : Int} {body : Bytes} {cb : Callback}
    (h : cb ∈ (n.handleFrame decodes now body).1) :
    ∃ d, Message.parse body = some (.dataMessage d) ∧
      (∃ entry, n.topic? (makeCompositeKey d.topicName d.messageType) = some entry ∧
        cb ∈ entry.callbacks) ∧ cb.messageType = d.messageType := by
  rw [handleFrame] at h
  split at h
  · cases h
  · rename_i d hparse
    refine ⟨d, hparse, ?_⟩
    rw [handleDataMessageReceive] at h
    split at h
    · rw [matchedCallbacks] at h
      split at h
      · cases h
      · rename_i entry hentry
        obtain ⟨hmem, htype⟩ := List.mem_filter.mp h
        exact ⟨⟨entry, hentry, hmem⟩, beq_iff_eq.mp htype⟩
    · cases h
  · rename_i m hdata hparse
    rw [handleAutoDiscoveryParse] at h
    cases m with
    | dataMessage d => exact absurd rfl (hdata d)
    | notSet => cases h
    | identifier i => cases h
    | advertisement a => cases h

namespace Swarm

variable {K : Type*} [DecidableEq K] {N capacity : K → Nat} [∀ k, NeZero (N k)]
  {roster : Roster K} {decodes : K → Bytes → Bytes → Bool} {s : Swarm K N capacity}

/-- Every packet, every frame and every peer of a group is accounted for. -/
structure Accounted (roster : Roster K) (s : Swarm K N capacity) : Prop where
  genuine : ∀ t ∈ s.air, t.Genuine roster
  self : ∀ k, (s.members k).node.selfParticipant = roster.identity k
  config : ∀ k, (s.members k).node.config = roster.config k
  carried : ∀ k frame, (s.members k).Carries frame → ∃ t ∈ s.air, t.body = some frame.2
  sourced : ∀ k, (s.members k).node.Sourced s.air

omit [DecidableEq K] in
theorem accounted_init (roster : Roster K) :
    (init roster : Swarm K N capacity).Accounted roster where
  genuine := by
    intro t ht
    cases ht
  self := fun _ => rfl
  config := fun _ => rfl
  carried := by
    rintro k frame (⟨i, hstores⟩ | ⟨i, hhand⟩)
    · exact absurd hstores (SpscRing.not_stores_empty frame)
    · cases hhand
  sourced := by
    intro k
    have hheard := Node.heard_run (N := N k) (roster.identity k) (roster.config k) []
    constructor
    case located =>
      intro i uid p hp
      obtain ⟨op, hop, -⟩ := hheard.held p ⟨i, uid, hp⟩
      cases hop
    case identity =>
      intro p hp
      obtain ⟨op, hop, -⟩ := hheard.held p hp
      cases hop
    case endpoints =>
      intro p hp
      obtain ⟨op, hop, -⟩ := hheard.held p hp
      cases hop
    case named =>
      intro p hp
      obtain ⟨op, hop, -⟩ := hheard.named p hp
      cases hop

omit [DecidableEq K] [∀ k, NeZero (N k)] in
theorem Accounted.multicast (h : s.Accounted roster) {cause : Cause K} {packet : Option Bytes}
    (hgenuine : ∀ bytes ∈ packet, Transmission.Genuine roster ⟨cause, bytes⟩) :
    (s.multicast cause packet).Accounted roster := by
  cases packet with
  | none => exact h
  | some bytes =>
      have hsub : s.air ⊆ s.air ++ [⟨cause, bytes⟩] := List.subset_append_left _ _
      constructor
      case genuine =>
        intro t ht
        rcases List.mem_append.mp ht with hold | hnew
        · exact h.genuine t hold
        · obtain rfl := List.mem_singleton.mp hnew
          exact hgenuine bytes rfl
      case self => exact h.self
      case config => exact h.config
      case carried =>
        intro k frame hcarries
        obtain ⟨t, ht, hbody⟩ := h.carried k frame hcarries
        exact ⟨t, hsub ht, hbody⟩
      case sourced => exact fun k => (h.sourced k).mono hsub

/-- A turn takes its datagram off the air and its operation from the node's program. -/
def Allowed {M : Nat} (air : List (Transmission K)) : ReceptionEvent M → Prop
  | .datagram packet => ∃ t ∈ air, packet = t.packet.take recvBufferSize
  | .operation op => op.sender? = none
  | _ => True

theorem members_turn_self (s : Swarm K N capacity) (k : K) (e : ReceptionEvent (N k)) :
    (s.turn decodes k e).members k = (s.members k).step (decodes k) e :=
  Function.update_self _ _ _

theorem members_turn_of_ne (s : Swarm K N capacity) {j k : K} (hjk : j ≠ k)
    (e : ReceptionEvent (N k)) : (s.turn decodes k e).members j = s.members j :=
  Function.update_of_ne hjk _ _

theorem Accounted.turn (h : s.Accounted roster) (k : K) {e : ReceptionEvent (N k)}
    (hallowed : Allowed s.air e) : (s.turn decodes k e).Accounted roster := by
  have hmember : ∀ {P : (j : K) → Reception (N j) (capacity j) → Prop},
      (∀ j, P j (s.members j)) → P k ((s.members k).step (decodes k) e) →
        ∀ j, P j ((s.turn decodes k e).members j) := by
    intro P hothers hturn j
    by_cases hjk : j = k
    · subst hjk
      rw [members_turn_self]
      exact hturn
    · rw [members_turn_of_ne s hjk]
      exact hothers j
  constructor
  case genuine => exact h.genuine
  case self =>
    refine hmember (P := fun j r => r.node.selfParticipant = roster.identity j) h.self ?_
    refine Reception.node_step (decodes k)
      (P := fun n => n.selfParticipant = roster.identity k) ?_ ?_ (h.self k) e ?_
    · intro n now sender endpoints hn
      rw [Node.selfParticipant_apply, hn]
    · intro n sender topicName messageType isPublisher hn
      rw [Node.selfParticipant_apply, hn]
    · intro op _
      rw [Node.selfParticipant_apply, h.self k]
  case config =>
    refine hmember (P := fun j r => r.node.config = roster.config j) h.config ?_
    refine Reception.node_step (decodes k) (P := fun n => n.config = roster.config k) ?_ ?_
      (h.config k) e ?_
    · intro n now sender endpoints hn
      rw [Node.config_apply, hn]
    · intro n sender topicName messageType isPublisher hn
      rw [Node.config_apply, hn]
    · intro op _
      rw [Node.config_apply, h.config k]
  case carried =>
    refine hmember (P := fun _ r => ∀ frame, r.Carries frame →
      ∃ t ∈ s.air, t.body = some frame.2) h.carried ?_
    intro frame hcarries
    rcases Reception.carries_step hcarries with hold | ⟨packet, rfl, hbody⟩
    · exact h.carried k frame hold
    · obtain ⟨t, ht, rfl⟩ := hallowed
      exact ⟨t, ht, hbody⟩
  case sourced =>
    refine hmember (P := fun _ r => r.node.Sourced s.air) h.sourced ?_
    cases e with
    | datagram packet =>
        rw [Reception.step, Reception.handleReceivedDatagram]
        split
        · exact h.sourced k
        · split <;> exact h.sourced k
    | pop i =>
        rw [Reception.step, Reception.pop]
        split <;> exact h.sourced k
    | handle i now =>
        rw [Reception.step]
        rcases Reception.node_handle (decodes k) (s.members k) i now with
          hsame | ⟨frame, hhand, hnode⟩
        · rw [hsame]
          exact h.sourced k
        · obtain ⟨t, ht, hbody⟩ := h.carried k frame (.inr ⟨i, hhand⟩)
          rw [hnode]
          exact (h.sourced k).handleFrame ht hbody _ _
    | operation op => exact (h.sourced k).local hallowed
    | stop => exact h.sourced k

omit [DecidableEq K] [∀ k, NeZero (N k)] in
theorem genuine_topicAdvertisement {k : K} {n : Node (N k)}
    (hself : n.selfParticipant = roster.identity k) {topicName : Bytes} {T : MessageName}
    {isPublisher reliable : Bool} {bytes : Bytes}
    (h : sendPacket (n.topicAdvertisement topicName T isPublisher reliable).toFields =
      some bytes) :
    Transmission.Genuine roster ⟨.announcement k topicName T isPublisher reliable, bytes⟩ := by
  change sendPacket (TopicAdvertisement.toFields
    { identifier := some (roster.identity k).identifier
      topic := some { topicName, messageType := T.fullName, isPublisher, reliable } }) = _
  rw [← hself]
  exact h

omit [DecidableEq K] in
theorem genuine_announces {k : K} {n : Node (N k)} (hself : n.selfParticipant = roster.identity k)
    (op : Operation) : ∀ bytes ∈ (announces k n op).2,
      Transmission.Genuine roster ⟨(announces k n op).1, bytes⟩ := by
  intro bytes hbytes
  cases op with
  | registerPublisherTopic topicName T reliable =>
      simp only [announces, Node.registerPublisherTopic, Option.mem_def] at hbytes
      exact genuine_topicAdvertisement hself hbytes
  | registerSubscriberTopic topicName T reliable =>
      simp only [announces, Node.registerSubscriberTopic, Option.mem_def] at hbytes
      exact genuine_topicAdvertisement hself hbytes
  | registerSubscriberTopicWith topicName T callback reliable =>
      cases callback with
      | none => cases hbytes
      | some invoke =>
          simp only [announces, Node.registerSubscriberTopicWith, Node.registerSubscriberTopic,
            Option.mem_def] at hbytes
          refine genuine_topicAdvertisement ?_ hbytes
          cases reliable <;> exact hself
  | _ => cases hbytes

theorem Accounted.step (h : s.Accounted roster) (e : SwarmEvent K N) :
    (s.step roster decodes e).Accounted roster := by
  cases e with
  | heartbeat k discovered =>
      rw [Swarm.step]
      refine h.multicast ?_
      intro bytes hbytes
      rw [← Option.some.inj hbytes, h.self k]
      rfl
  | operation k op =>
      have hturn : (s.turn decodes k (.operation op.1)).Accounted roster := h.turn k op.2
      rw [Swarm.step]
      refine hturn.multicast ?_
      exact genuine_announces (h.self k) op.1
  | publishData k topicName messageType payload =>
      rw [Swarm.step]
      refine h.multicast ?_
      intro bytes hbytes
      change sendPacket (Message.dataMessage
        { identifier := some (roster.identity k).identifier, topicName, messageType,
          payload }).toFields = _
      rw [← h.self k]
      exact hbytes
  | stray packet =>
      rw [Swarm.step]
      exact h.multicast fun _ _ => trivial
  | deliver k j =>
      rw [Swarm.step]
      split
      · exact h
      · rename_i t ht
        exact h.turn k ⟨t, List.mem_of_getElem? ht, rfl⟩
  | pop k i => exact h.turn k trivial
  | handle k i now => exact h.turn k trivial
  | stop k => exact h.turn k trivial

theorem accounted_run (roster : Roster K) (decodes : K → Bytes → Bytes → Bool)
    (events : List (SwarmEvent K N)) :
    (run roster decodes events : Swarm K N capacity).Accounted roster := by
  induction events using List.reverseRecOn with
  | nil => exact accounted_init roster
  | append_singleton events e ih =>
      rw [run, List.foldl_append, List.foldl_cons, List.foldl_nil]
      exact Accounted.step ih e

def twoMembers : Roster Bool where
  identity k := if k then ⟨1, 0, 3⟩ else ⟨2, 0, 5⟩
  config _ := { peerEndpoints := [[49]] }
  file _ := {}

theorem sender_subscribes :
    (Operation.registerSubscriberTopicWith [116] Node.typeT (some 9) true).sender? = none :=
  rfl

/-- One member's heartbeat and its message, as the other one gets them. -/
def greeting : List (SwarmEvent Bool fun _ => 1) :=
  [.operation false
      ⟨.registerSubscriberTopicWith [116] Node.typeT (some 9) true, sender_subscribes⟩,
    .heartbeat true [[49]], .publishData true [116] Node.typeT.fullName [1, 2],
    .deliver false 1, .pop false ⟨0, Nat.one_pos⟩, .handle false ⟨0, Nat.one_pos⟩ 7,
    .deliver false 2, .pop false ⟨0, Nat.one_pos⟩]

def greeted : Swarm Bool (fun _ => 1) fun _ => 4 :=
  run twoMembers (fun _ _ _ => true) greeting

/-- The packet names `uid` as a sender without being that node's heartbeat: it is stray, or an
announcement that reads as an advertisement of someone else's. -/
def Forges (t : Transmission K) (uid : UInt64) : Prop :=
  (∀ k discovered, t.cause ≠ .heartbeat k discovered) ∧
    ∃ sender endpoints, sender.uid = uid ∧ t.Speaks sender endpoints

omit [DecidableEq K] in
theorem speaks_cases {t : Transmission K} (hgenuine : t.Genuine roster) {sender : Identity}
    {endpoints : List Endpoint} (hspeaks : t.Speaks sender endpoints) :
    Forges t sender.uid ∨ ∃ k discovered, t.cause = .heartbeat k discovered ∧
      sender = (roster.identity k).onWire ∧
        endpoints = buildSelfEndpoints (roster.file k) discovered := by
  by_cases hheartbeat : ∃ k discovered, t.cause = .heartbeat k discovered
  · obtain ⟨k, discovered, hcause⟩ := hheartbeat
    obtain ⟨m, hm, hdispatch⟩ := hspeaks
    have hreads := t.reads_of_message hgenuine hm
    rw [hcause] at hreads
    refine .inr ⟨k, discovered, hcause, ?_⟩
    rcases hreads with rfl | rfl
    · rcases hdispatch with hdispatch | ⟨_, _, _, hdispatch⟩
      · obtain ⟨hsender, hendpoints⟩ := Dispatch.heartbeat.inj hdispatch
        exact ⟨hsender.symm, hendpoints.symm⟩
      · cases hdispatch
    · rcases hdispatch with hdispatch | ⟨_, _, _, hdispatch⟩ <;> cases hdispatch
  · refine .inl ⟨fun k discovered hcause => hheartbeat ⟨k, discovered, hcause⟩, ?_⟩
    exact ⟨sender, endpoints, rfl, hspeaks⟩

omit [DecidableEq K] in
/-- No heartbeat lists anybody under a topic. -/
theorem forges_of_lists {t : Transmission K} (hgenuine : t.Genuine roster) {sender : Identity}
    (hlists : t.Lists sender) : Forges t sender.uid := by
  obtain ⟨m, endpoints, topicName, messageType, isPublisher, hm, hdispatch⟩ := hlists
  refine ⟨fun k discovered hcause => ?_, sender, endpoints, rfl, m, hm,
    .inr ⟨_, _, _, hdispatch⟩⟩
  have hreads := t.reads_of_message hgenuine hm
  rw [hcause] at hreads
  rcases hreads with rfl | rfl <;> cases hdispatch

/-- Whoever a member holds as a participant is another member, with endpoints that this one
has advertised, and under a topic it lists nobody: anything else comes from a forged packet. -/
theorem registry_sourced (roster : Roster K)
    (hdistinct : ∀ j k, (roster.identity j).uid = (roster.identity k).uid → j = k)
    (decodes : K → Bytes → Bytes → Bool) (events : List (SwarmEvent K N)) (k : K) :
    (∀ p, ((run roster decodes events : Swarm K N capacity).members k).node.Holds p →
      p.id.uid ≠ (roster.identity k).uid ∧
        ((∃ t ∈ (run roster decodes events : Swarm K N capacity).air, Forges t p.id.uid) ∨
          ∃ j discovered, j ≠ k ∧ p.id = (roster.identity j).onWire ∧
            p.endpoints = buildSelfEndpoints (roster.file j) discovered ∧
            ∃ t ∈ (run roster decodes events : Swarm K N capacity).air,
              t.cause = .heartbeat j discovered)) ∧
    ∀ p, ((run roster decodes events : Swarm K N capacity).members k).node.Names p →
      p.uid ≠ (roster.identity k).uid ∧
        ∃ t ∈ (run roster decodes events : Swarm K N capacity).air, Forges t p.uid := by
  have hrun : (run roster decodes events : Swarm K N capacity).Accounted roster :=
    accounted_run roster decodes events
  constructor
  · intro p hp
    obtain ⟨i, uid, hfound⟩ := hp
    obtain ⟨huid, hself⟩ := (hrun.sourced k).located i uid p hfound
    rw [hrun.self k, ← huid] at hself
    refine ⟨hself, ?_⟩
    obtain ⟨t, ht, endpoints, hspeaks⟩ := (hrun.sourced k).identity p ⟨i, uid, hfound⟩
    rcases speaks_cases (hrun.genuine t ht) hspeaks with hforges | ⟨j, _, _, hid, _⟩
    · exact .inl ⟨t, ht, hforges⟩
    · obtain ⟨t', ht', sender, hsender, hspeaks'⟩ :=
        (hrun.sourced k).endpoints p ⟨i, uid, hfound⟩
      rcases speaks_cases (hrun.genuine t' ht') hspeaks' with
        hforges | ⟨j', discovered, hcause, hid', hendpoints⟩
      · rw [hsender] at hforges
        exact .inl ⟨t', ht', hforges⟩
      · rw [hid, hid'] at hsender
        obtain rfl : j' = j := hdistinct j' j hsender
        refine .inr ⟨j', discovered, ?_, hid, hendpoints, t', ht', hcause⟩
        rintro rfl
        rw [hid] at hself
        exact hself rfl
  · intro p hp
    obtain ⟨hself, t, ht, hlists⟩ := (hrun.sourced k).named p hp
    rw [hrun.self k] at hself
    exact ⟨hself, t, ht, forges_of_lists (hrun.genuine t ht) hlists⟩

theorem registry_sourced_greeted :
    ((greeted.members false).node.participant? 3).map (·.id) = some ⟨1, 0, 3⟩ ∧
    (∀ p, (greeted.members false).node.Holds p →
      p.id.uid ≠ 5 ∧
        ((∃ t ∈ greeted.air, Forges t p.id.uid) ∨
          ∃ j discovered, j ≠ false ∧ p.id = (twoMembers.identity j).onWire ∧
            p.endpoints = buildSelfEndpoints (twoMembers.file j) discovered ∧
            ∃ t ∈ greeted.air, t.cause = .heartbeat j discovered)) ∧
    ∀ p, (greeted.members false).node.Names p →
      p.uid ≠ 5 ∧ ∃ t ∈ greeted.air, Forges t p.uid :=
  ⟨by decide, registry_sourced twoMembers (by decide) (fun _ _ _ => true) greeting false⟩

/-- A member dials its static seeds, and otherwise only who a packet has listed under a topic that
is nobody's heartbeat. -/
theorem dials_sourced (roster : Roster K) (decodes : K → Bytes → Bytes → Bool)
    (events : List (SwarmEvent K N)) (k : K) (conns : Connections) :
    ∀ conn ∈ (((run roster decodes events : Swarm K N capacity).members
        k).node.reconcileReliableConnections conns).created,
      (∃ peer ∈ (roster.config k).peerEndpoints, conn.publisher = peerKeyForEndpoint peer) ∨
        ∃ p : Identity, conn.publisher = p.subscriberKey ∧
          ∃ t ∈ (run roster decodes events : Swarm K N capacity).air,
            t.Lists p ∧ Forges t p.uid := by
  have hrun : (run roster decodes events : Swarm K N capacity).Accounted roster :=
    accounted_run roster decodes events
  intro conn hconn
  rcases Node.origin_of_created _ conns hconn with
    ⟨topicKey, -, entry, hentry, p, hp, hkey⟩ | ⟨peer, hpeer, hkey⟩
  · obtain ⟨-, t, ht, hlists⟩ := (hrun.sourced k).named p ⟨_, topicKey, entry, hentry, .inl hp⟩
    exact .inr ⟨p, hkey, t, ht, hlists, forges_of_lists (hrun.genuine t ht) hlists⟩
  · rw [hrun.config k] at hpeer
    exact .inl ⟨peer, hpeer, hkey⟩

theorem dials_sourced_greeted :
    ((greeted.members false).node.reconcileReliableConnections ∅).created.length = 1 ∧
    ∀ conn ∈ ((greeted.members false).node.reconcileReliableConnections ∅).created,
      (∃ peer ∈ [[49]], conn.publisher = peerKeyForEndpoint peer) ∨
        ∃ p : Identity, conn.publisher = p.subscriberKey ∧
          ∃ t ∈ greeted.air, t.Lists p ∧ Forges t p.uid :=
  ⟨by decide, dials_sourced twoMembers (fun _ _ _ => true) greeting false ∅⟩

/-- Whatever invokes a callback is, to the byte, what some member published under the topic
and type of the callback, unless it is stray. -/
theorem data_sourced (roster : Roster K) (decodes : K → Bytes → Bytes → Bool)
    (events : List (SwarmEvent K N)) (k : K) (i : Fin (N k)) (now : Int) (cb : Callback)
    (hcb : cb ∈ ((run roster decodes events : Swarm K N capacity).members k).invoked
      (decodes k) i now) :
    ∃ frame d, ((run roster decodes events : Swarm K N capacity).members k).hands i =
        some frame ∧
      Message.parse frame.2 = some (.dataMessage d) ∧ cb.messageType = d.messageType ∧
      (∃ entry, ((run roster decodes events : Swarm K N capacity).members k).node.topic?
        (makeCompositeKey d.topicName d.messageType) = some entry ∧ cb ∈ entry.callbacks) ∧
      ∃ t ∈ (run roster decodes events : Swarm K N capacity).air,
        (∃ j, d.identifier = some (roster.identity j).identifier ∧
          t.cause = .data j d.topicName d.messageType d.payload) ∨
        t.cause = .stray ∧ t.message = some (.dataMessage d) := by
  have hrun : (run roster decodes events : Swarm K N capacity).Accounted roster :=
    accounted_run roster decodes events
  rw [Reception.invoked] at hcb
  split at hcb
  · cases hcb
  · rename_i frame hframe
    obtain ⟨t, ht, hbody⟩ := hrun.carried k frame (.inr ⟨i, hframe⟩)
    obtain ⟨d, hparse, hentry, htype⟩ := Node.callback_of_handleFrame hcb
    have hm : t.message = some (.dataMessage d) := by
      rw [Transmission.message, hbody]
      exact hparse
    refine ⟨frame, d, hframe, hparse, htype, hentry, t, ht, ?_⟩
    have hreads := t.reads_of_message (hrun.genuine t ht) hm
    cases hcause : t.cause with
    | heartbeat j discovered =>
        rw [hcause] at hreads
        rcases hreads with h | h <;> cases h
    | announcement j topicName T isPublisher reliable =>
        rw [hcause] at hreads
        obtain ⟨a, h, -⟩ := hreads
        cases h
    | data j topicName messageType payload =>
        rw [hcause] at hreads
        obtain rfl := Message.dataMessage.inj hreads
        exact .inl ⟨j, rfl, rfl⟩
    | stray => exact .inr ⟨rfl, hm⟩

theorem data_sourced_greeted :
    (greeted.members false).invoked (fun _ _ => true) 0 8 = [⟨[84], 9⟩] ∧
    ∃ frame d, (greeted.members false).hands 0 = some frame ∧
      Message.parse frame.2 = some (.dataMessage d) ∧ [84] = d.messageType ∧
      (∃ entry, (greeted.members false).node.topic?
        (makeCompositeKey d.topicName d.messageType) = some entry ∧
          ⟨[84], 9⟩ ∈ entry.callbacks) ∧
      ∃ t ∈ greeted.air,
        (∃ j, d.identifier = some (twoMembers.identity j).identifier ∧
          t.cause = .data j d.topicName d.messageType d.payload) ∨
        t.cause = .stray ∧ t.message = some (.dataMessage d) :=
  ⟨by decide, data_sourced twoMembers (fun _ _ _ => true) greeting false 0 8 ⟨[84], 9⟩
    (by decide)⟩

end Swarm

end Edriel
