import Edriel.ReliableReceiver

/-!
A node and its sharded registry: the topics and participants it knows, and the
operations that create, change and drop their entries.
-/

namespace Edriel

open Proto3 Std

/-- One Ethernet frame: the largest packet that is sent or read. -/
def recvBufferSize : Nat := 1500

/-- `magicNumber` in network byte order. -/
def networkMagic : Bytes := [0xED, 0x75, 0xE1, 0xED]

def prependMagicNumberToPacket (packet : Bytes) : Bytes :=
  networkMagic ++ packet

/-- The packet that `sendPacket` multicasts: none when serialising fails or the
packet exceeds the budget. -/
def sendPacket (fs : List Field) : Option Bytes :=
  match serializeToString fs with
  | none => none
  | some body =>
      if recvBufferSize < (prependMagicNumberToPacket body).length then none
      else some (prependMagicNumberToPacket body)

/-- The body of a received datagram, behind a valid magic number. -/
def datagramBody (packet : Bytes) : Option Bytes :=
  if packet.take 4 = networkMagic then some (packet.drop 4) else none

/-- The configuration values that the registry and the reliable path read. -/
structure Config where
  participantTimeout : Int := 10
  peerEndpoints : List Bytes := []
  reliableSendRateLimit : Nat := 0

/-- Clock readings are nanoseconds and `timeout` is in seconds. -/
structure Participant where
  id : Identity
  lastSeen : Int
  endpoints : List Endpoint
  timeout : Int

/-- The timeout in the nanoseconds of the clock, which have 64 bits: far off, it wraps. -/
def Participant.timeoutNanoseconds (p : Participant) : Int :=
  (p.timeout * 1000000000).bmod (2 ^ 64)

-- readings of the steady clock are not negative, so their difference does not wrap
def Participant.shouldBeRemoved (p : Participant) (now : Int) : Bool :=
  decide (p.timeoutNanoseconds < now - p.lastSeen)

/-- A local callback with the message type it expects; `invoke` names the user's
function. -/
structure Callback where
  messageType : Bytes
  invoke : Nat
deriving DecidableEq

structure TopicEntry where
  topicName : Bytes := []
  messageType : Bytes := []
  reliable : Bool := false
  publishers : ExtTreeSet Identity := ∅
  subscribers : ExtTreeSet Identity := ∅
  callbacks : List Callback := []

structure Shard where
  participants : ExtTreeMap UInt64 Participant := ∅
  topics : ExtTreeMap Bytes TopicEntry := ∅

structure Node (N : Nat) where
  selfParticipant : Identity
  config : Config := {}
  shards : Fin N → Shard := fun _ => {}
  reliableSubscribedTopics : ExtTreeSet Bytes := ∅
  receiver : ReliableReceiver := {}

def Node.fresh {N : Nat} (me : Identity) (config : Config) : Node N :=
  { selfParticipant := me, config }

namespace Node

variable {N : Nat} [NeZero N]

def shardIndexForTopic (compositeKey : Bytes) : Fin N :=
  if N ≤ 1 then 0 else Fin.ofNat N (fnv1a64 compositeKey).toNat

def shardIndexForUid (uid : UInt64) : Fin N :=
  if N ≤ 1 then 0 else Fin.ofNat N (fnv1a64 (Text.decimal uid.toNat)).toNat

/-- `shard.topics.find(key)` in the shard that owns the key. -/
def topic? (n : Node N) (key : Bytes) : Option TopicEntry :=
  (n.shards (shardIndexForTopic key)).topics[key]?

def participant? (n : Node N) (uid : UInt64) : Option Participant :=
  (n.shards (shardIndexForUid uid)).participants[uid]?

/-- Changes, creates or erases the entry of a key in the shard that owns it. -/
def alterTopic (n : Node N) (key : Bytes) (f : Option TopicEntry → Option TopicEntry) :
    Node N :=
  { n with
    shards := Function.update n.shards (shardIndexForTopic key)
      { n.shards (shardIndexForTopic key) with
        topics := (n.shards (shardIndexForTopic key)).topics.alter key f } }

def alterParticipant (n : Node N) (uid : UInt64)
    (f : Option Participant → Option Participant) : Node N :=
  { n with
    shards := Function.update n.shards (shardIndexForUid uid)
      { n.shards (shardIndexForUid uid) with
        participants := (n.shards (shardIndexForUid uid)).participants.alter uid f } }

/-- `TopicEntry& entry = shard.topics[key]`, then assignments to the entry. -/
def updateTopic (n : Node N) (key : Bytes) (f : TopicEntry → TopicEntry) : Node N :=
  n.alterTopic key fun entry => some (f (entry.getD {}))

theorem topic?_alterTopic (n : Node N) (key key' : Bytes)
    (f : Option TopicEntry → Option TopicEntry) :
    (n.alterTopic key f).topic? key' =
      if key = key' then f (n.topic? key) else n.topic? key' := by
  simp only [topic?, alterTopic]
  by_cases hkey : key = key'
  · subst hkey
    rw [Function.update_self, ExtTreeMap.getElem?_alter_self, if_pos rfl]
  · rw [if_neg hkey]
    by_cases hshard : shardIndexForTopic key' = (shardIndexForTopic key : Fin N)
    · rw [hshard, Function.update_self, ExtTreeMap.getElem?_alter,
        if_neg (LawfulEqOrd.compare_eq_iff_eq.not.mpr hkey)]
    · rw [Function.update_of_ne hshard]

theorem topic?_updateTopic (n : Node N) (key key' : Bytes)
    (f : TopicEntry → TopicEntry) :
    (n.updateTopic key f).topic? key' =
      if key = key' then some (f ((n.topic? key).getD {})) else n.topic? key' :=
  topic?_alterTopic n key key' _

@[simp] theorem topic?_alterParticipant (n : Node N) (uid : UInt64) (key : Bytes)
    (f : Option Participant → Option Participant) :
    (n.alterParticipant uid f).topic? key = n.topic? key := by
  simp only [topic?, alterParticipant, Function.update_apply]
  split
  · rename_i hshard
    rw [hshard]
  · rfl

def topicAdvertisement (n : Node N) (topicName : Bytes) (T : MessageName)
    (isPublisher reliable : Bool) : TopicAdvertisement :=
  { identifier := some { pid := n.selfParticipant.pid.toUInt32
                         tid := n.selfParticipant.tid
                         uid := n.selfParticipant.uid }
    topic := some { topicName, messageType := T.fullName, isPublisher, reliable } }

/-- The registry half of every registration: names the entry and sets its QoS. -/
def registerTopic (n : Node N) (topicName : Bytes) (T : MessageName) (reliable : Bool) :
    Node N :=
  n.updateTopic (makeCompositeKey topicName T.fullName) fun entry =>
    { entry with topicName, messageType := T.fullName, reliable }

def noteReliableSubscription (n : Node N) (key : Bytes) (reliable : Bool) : Node N :=
  if reliable then
    { n with reliableSubscribedTopics := n.reliableSubscribedTopics.insert key }
  else n

def pushCallback (n : Node N) (topicName : Bytes) (T : MessageName) (invoke : Nat) :
    Node N :=
  n.updateTopic (makeCompositeKey topicName T.fullName) fun entry =>
    { entry with callbacks := entry.callbacks ++ [{ messageType := T.fullName, invoke }] }

/-- The packet that goes out, if any, and the node afterwards. -/
def registerPublisherTopic (n : Node N) (topicName : Bytes) (T : MessageName)
    (reliable : Bool) : Option Bytes × Node N :=
  (sendPacket (n.topicAdvertisement topicName T true reliable).toFields,
    n.registerTopic topicName T reliable)

def registerSubscriberTopic (n : Node N) (topicName : Bytes) (T : MessageName)
    (reliable : Bool) : Option Bytes × Node N :=
  (sendPacket (n.topicAdvertisement topicName T false reliable).toFields,
    (n.registerTopic topicName T reliable).noteReliableSubscription
      (makeCompositeKey topicName T.fullName) reliable)

/-- The overload with a callback; an empty callback is refused. -/
def registerSubscriberTopicWith (n : Node N) (topicName : Bytes) (T : MessageName)
    (callback : Option Nat) (reliable : Bool) : Option Bytes × Node N :=
  match callback with
  | none => (none, n)
  | some invoke =>
      (((n.registerTopic topicName T reliable).pushCallback topicName T
        invoke).noteReliableSubscription (makeCompositeKey topicName T.fullName)
          reliable).registerSubscriberTopic topicName T reliable

def subscribe (n : Node N) (topicName : Bytes) (T : MessageName)
    (callback : Option Nat) : Node N :=
  match callback with
  | none => n
  | some invoke =>
      match n.topic? (makeCompositeKey topicName T.fullName) with
      | none => n
      | some _ => n.pushCallback topicName T invoke

/-- Drops the entry when no local callbacks remain. -/
def unregisterPublisherTopic (n : Node N) (topicName : Bytes) (T : MessageName) :
    Node N :=
  n.alterTopic (makeCompositeKey topicName T.fullName) fun entry =>
    entry.bind fun e => if e.callbacks.isEmpty then none else some e

/-- Drops every local callback, and the entry unless it tracks remote peers. -/
def unregisterSubscriberTopic (n : Node N) (topicName : Bytes) (T : MessageName) :
    Node N :=
  match n.topic? (makeCompositeKey topicName T.fullName) with
  | none => n
  | some _ =>
      { n.alterTopic (makeCompositeKey topicName T.fullName) (fun entry =>
          entry.bind fun e =>
            if e.publishers.isEmpty && e.subscribers.isEmpty then none
            else some { e with callbacks := [] }) with
        reliableSubscribedTopics :=
          n.reliableSubscribedTopics.erase (makeCompositeKey topicName T.fullName) }

/-- Registers a peer or refreshes it.  Loopback delivers the node's own packets,
which are skipped. -/
def handleParticipantHeartbeat (n : Node N) (now : Int) (sender : Identity)
    (endpoints : List Endpoint) : Node N :=
  if sender.uid = n.selfParticipant.uid then n
  else n.alterParticipant sender.uid fun
    | none => some { id := sender, lastSeen := now, endpoints,
                     timeout := n.config.participantTimeout }
    | some p => some { p with lastSeen := now, endpoints }

def handleTopicAnnouncement (n : Node N) (sender : Identity) (topicName messageType : Bytes)
    (isPublisher : Bool) : Node N :=
  if sender.uid = n.selfParticipant.uid then n
  else n.updateTopic (makeCompositeKey topicName messageType) fun entry =>
    if isPublisher then
      { entry with topicName, messageType, publishers := entry.publishers.insert sender }
    else
      { entry with topicName, messageType, subscribers := entry.subscribers.insert sender }

def staleParticipants (n : Node N) (now : UInt64 → Int) : List Participant :=
  (List.finRange N).flatMap fun i =>
    (n.shards i).participants.toList.filterMap fun entry =>
      if entry.2.shouldBeRemoved (now entry.1) then some entry.2 else none

def isStale (stale : List Participant) (p : Identity) : Bool :=
  stale.any fun s => s.id.uid == p.uid

def purge (stale : List Participant) (entry : TopicEntry) : Option TopicEntry :=
  if (entry.publishers.filter fun p => !isStale stale p).isEmpty &&
      (entry.subscribers.filter fun p => !isStale stale p).isEmpty &&
      entry.callbacks.isEmpty then none
  else some { entry with
    publishers := entry.publishers.filter fun p => !isStale stale p
    subscribers := entry.subscribers.filter fun p => !isStale stale p }

def removeTimedOutParticipants (n : Node N) (now : UInt64 → Int) : Node N :=
  { n with
    shards := fun i =>
      { participants := (n.shards i).participants.filter fun uid p =>
          !p.shouldBeRemoved (now uid)
        topics := (n.shards i).topics.filterMap fun _ entry =>
          purge (n.staleParticipants now) entry }
    receiver := (n.staleParticipants now).foldl (fun r p => r.prune p.id.uid) n.receiver }

theorem topic?_removeTimedOutParticipants (n : Node N) (now : UInt64 → Int)
    (key : Bytes) :
    (n.removeTimedOutParticipants now).topic? key =
      (n.topic? key).bind (purge (n.staleParticipants now)) := by
  simp only [topic?, removeTimedOutParticipants, ExtTreeMap.getElem?_filterMap,
    Option.pbind_eq_bind]

def matchedCallbacks (n : Node N) (data : DataMessage) : List Callback :=
  match n.topic? (makeCompositeKey data.topicName data.messageType) with
  | none => []
  | some entry => entry.callbacks.filter fun cb => cb.messageType == data.messageType

end Node

/-- What `handleAutoDiscoveryParse` reads out of a message before it acts. -/
inductive Dispatch where
  | nothing
  | heartbeat (sender : Identity) (endpoints : List Endpoint)
  | data (message : DataMessage)
  | announcement (sender : Identity) (endpoints : List Endpoint)
      (topicName messageType : Bytes) (isPublisher : Bool)
deriving DecidableEq

def Identifier.sender (i : Identifier) : Identity :=
  { pid := i.pid.toUInt64, tid := i.tid, uid := i.uid }

/-- Unset sub-messages read as their default instance. -/
def Message.dispatch : Message → Dispatch
  | .notSet => .nothing
  | .identifier i => .heartbeat i.sender i.endpoints
  | .dataMessage d => .data d
  | .advertisement ad =>
      .announcement (ad.identifier.getD {}).sender (ad.identifier.getD {}).endpoints
        (ad.topic.getD {}).topicName (ad.topic.getD {}).messageType
        (ad.topic.getD {}).isPublisher

namespace Node

variable {N : Nat} [NeZero N]

/-- Acts on a received message: the node afterwards, and the callbacks a data
message goes to. -/
def handleAutoDiscoveryParse (n : Node N) (now : Int) (m : Message) :
    List Callback × Node N :=
  match m.dispatch with
  | .nothing => ([], n)
  | .heartbeat sender endpoints => ([], n.handleParticipantHeartbeat now sender endpoints)
  | .data d => (n.matchedCallbacks d, n)
  | .announcement sender endpoints topicName messageType isPublisher =>
      ([], (n.handleParticipantHeartbeat now sender endpoints).handleTopicAnnouncement
        sender topicName messageType isPublisher)

@[simp] theorem topic?_handleParticipantHeartbeat (n : Node N) (now : Int)
    (sender : Identity) (endpoints : List Endpoint) (key : Bytes) :
    (n.handleParticipantHeartbeat now sender endpoints).topic? key = n.topic? key := by
  rw [handleParticipantHeartbeat]
  split
  · rfl
  · rw [topic?_alterParticipant]

@[simp] theorem selfParticipant_handleParticipantHeartbeat (n : Node N) (now : Int)
    (sender : Identity) (endpoints : List Endpoint) :
    (n.handleParticipantHeartbeat now sender endpoints).selfParticipant =
      n.selfParticipant := by
  rw [handleParticipantHeartbeat]
  split <;> rfl

end Node

end Edriel
