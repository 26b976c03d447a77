import Edriel.Registry

namespace Edriel

open Proto3 Std

/-- One dial to a publisher.  `connected` is the candidate it is connected to,
empty in between. -/
structure ReliableSubscriberConnection where
  publisher : SubscriberKey
  candidates : List Bytes
  selfPid : UInt32
  selfTid : UInt64
  selfUid : UInt64
  connected : Bytes := []
deriving DecidableEq

structure Target where
  key : SubscriberKey
  candidates : List Bytes
deriving DecidableEq

abbrev Connections := ExtTreeMap SubscriberKey ReliableSubscriberConnection

/-- The connections after a reconciliation, with those it dropped and those it
dialed. -/
structure Reconciled where
  connections : Connections
  retired : List ReliableSubscriberConnection := []
  created : List ReliableSubscriberConnection := []

namespace Node

variable {N : Nat} [NeZero N]

/-- The publishers of one subscribed topic that advertise an endpoint. -/
def topicTargets (n : Node N) (topicKey : Bytes) : List Target :=
  match n.topic? topicKey with
  | none => []
  | some entry => entry.publishers.toList.filterMap fun pub =>
      match (n.participant? pub.uid).map (·.endpoints) with
      | none => none
      | some [] => none
      | some (ep :: eps) =>
          some { key := pub.subscriberKey, candidates := endpointCandidates (ep :: eps) }

def seedTargets (n : Node N) : List Target :=
  if n.reliableSubscribedTopics.isEmpty then []
  else n.config.peerEndpoints.map fun peer =>
    { key := peerKeyForEndpoint peer, candidates := [peer] }

def neededTargets (n : Node N) : List Target :=
  n.reliableSubscribedTopics.toList.flatMap n.topicTargets ++ n.seedTargets

def dial (n : Node N) (t : Target) : ReliableSubscriberConnection :=
  { publisher := t.key, candidates := t.candidates,
    selfPid := n.selfParticipant.pid.toUInt32, selfTid := n.selfParticipant.tid,
    selfUid := n.selfParticipant.uid }

def connectedStale (conn : ReliableSubscriberConnection) (t : Target) : Bool :=
  conn.connected ≠ [] && !t.candidates.contains conn.connected

/-- Dials one target, unless it has a connection that is not stale. -/
def dialTarget (n : Node N) (s : Reconciled) (t : Target) : Reconciled :=
  match s.connections[t.key]? with
  | none =>
      { s with
        connections := s.connections.insert t.key (n.dial t)
        created := s.created ++ [n.dial t] }
  | some existing =>
      if connectedStale existing t then
        { connections := s.connections.insert t.key (n.dial t)
          retired := s.retired ++ [existing]
          created := s.created ++ [n.dial t] }
      else s

/-- Drops the connections that no target needs, then dials the targets. -/
def reconcileReliableConnections (n : Node N) (conns : Connections) : Reconciled :=
  n.neededTargets.foldl n.dialTarget
    { connections := conns.filter fun key _ => n.neededTargets.any (·.key == key)
      retired := conns.toList.filterMap fun entry =>
        if n.neededTargets.any (·.key == entry.1) then none else some entry.2 }

omit [NeZero N] in
theorem mem_created_foldl (n : Node N) (ts : List Target) :
    ∀ (s : Reconciled) {conn : ReliableSubscriberConnection},
      conn ∈ (ts.foldl n.dialTarget s).created →
        conn ∈ s.created ∨ ∃ t ∈ ts, conn = n.dial t := by
  induction ts with
  | nil => intro s conn hmem; exact .inl hmem
  | cons t ts ih =>
      intro s conn hmem
      rcases ih _ hmem with hfirst | ⟨t', ht', rfl⟩
      · have hstep : conn ∈ s.created ∨ conn = n.dial t := by
          rw [dialTarget] at hfirst
          split at hfirst
          · simpa using hfirst
          · split at hfirst
            · simpa using hfirst
            · exact .inl hfirst
        rcases hstep with hold | rfl
        · exact .inl hold
        · exact .inr ⟨t, by simp, rfl⟩
      · exact .inr ⟨t', by simp [ht'], rfl⟩

/-- Every connection a reconciliation creates is for a publisher that the
registry lists under a subscribed topic, or for a static seed. -/
theorem origin_of_created (n : Node N) (conns : Connections)
    {conn : ReliableSubscriberConnection}
    (hmem : conn ∈ (n.reconcileReliableConnections conns).created) :
    (∃ topicKey ∈ n.reliableSubscribedTopics, ∃ entry, n.topic? topicKey = some entry ∧
      ∃ pub ∈ entry.publishers, conn.publisher = pub.subscriberKey) ∨
    ∃ peer ∈ n.config.peerEndpoints, conn.publisher = peerKeyForEndpoint peer := by
  rcases mem_created_foldl n _ _ hmem with hnone | ⟨t, ht, rfl⟩
  · simp at hnone
  · rcases List.mem_append.mp ht with hdiscovered | hseed
    · left
      obtain ⟨topicKey, htopic, ht⟩ := List.mem_flatMap.mp hdiscovered
      refine ⟨topicKey, ExtTreeSet.mem_toList.mp htopic, ?_⟩
      rw [topicTargets] at ht
      split at ht
      · simp at ht
      · rename_i entry hentry
        obtain ⟨pub, hpub, hsome⟩ := List.mem_filterMap.mp ht
        refine ⟨entry, hentry, pub, ExtTreeSet.mem_toList.mp hpub, ?_⟩
        split at hsome
        · cases hsome
        · cases hsome
        · obtain rfl := Option.some.inj hsome
          rfl
    · right
      rw [seedTargets] at hseed
      split at hseed
      · simp at hseed
      · obtain ⟨peer, hpeer, rfl⟩ := List.mem_map.mp hseed
        exact ⟨peer, hpeer, rfl⟩

end Node

/-- What else may happen to a receiver between the setup of a stream and its
first frame: other streams open and deliver, and peers time out. -/
inductive ReceiverEvent where
  | established (publisherUid : UInt64)
  | frame (pd : ParticipantData)
  | timedOut (uid : UInt64)

namespace ReliableReceiver

def handle (r : ReliableReceiver) : ReceiverEvent → ReliableReceiver
  | .established publisherUid => r.noteReliableStreamEstablished publisherUid
  | .frame pd => (r.handleReliableDataFrame pd).2
  | .timedOut uid => r.prune uid

def SilentOn (uid : UInt64) (events : List ReceiverEvent) : Prop :=
  ∀ pd, .frame pd ∈ events → ∀ d, pd.reliableMessage = some d → d.pubUid ≠ uid

theorem fresh_foldl_of_silent {uid : UInt64} (events : List ReceiverEvent) :
    ∀ {r : ReliableReceiver}, SilentOn uid events → uid ∈ r.reliableFreshPublishers →
      uid ∈ (events.foldl handle r).reliableFreshPublishers := by
  induction events with
  | nil => intro r _ hfresh; exact hfresh
  | cons event events ih =>
      intro r hsilent hfresh
      refine ih (fun pd hpd => hsilent pd (by simp [hpd])) ?_
      cases event with
      | established publisherUid =>
          rw [handle, noteReliableStreamEstablished, ExtTreeSet.mem_insert]
          exact .inr hfresh
      | timedOut uid' => exact hfresh
      | frame pd =>
          rw [handle, handleReliableDataFrame]
          split
          · exact hfresh
          · rename_i d hd
            rw [mem_fresh_receive]
            exact ⟨hfresh, (hsilent pd (by simp) d hd).symm⟩

end ReliableReceiver

namespace ReliableSubscriberConnection

open ReliableReceiver

/-- `run_` right after `stream->Write(identity)` succeeded. -/
def openStream (conn : ReliableSubscriberConnection) (r : ReliableReceiver) :
    ReliableReceiver :=
  r.noteReliableStreamEstablished conn.publisher.uid

/-- Whatever the receiver was like before, and whatever else reaches it meanwhile,
the first frame of the publisher serving as `uid` is delivered on arrival. -/
def Baselines (conn : ReliableSubscriberConnection) (uid : UInt64) : Prop :=
  ∀ r events pd d, SilentOn uid events → pd.reliableMessage = some d → d.pubUid = uid →
    d ∈ ((events.foldl handle (conn.openStream r)).handleReliableDataFrame pd).1

def secondFrame (uid : UInt64) : DataMessage :=
  { identifier := some { tid := 2, uid } }

theorem secondFrame_reliableMessage (uid : UInt64) :
    (reliableFrame (secondFrame uid)).reliableMessage = some (secondFrame uid) := by
  have hbody : (serialize (scalarField 2 2 ++ scalarField 3 uid.toNat)).length ≤ 40 := by
    have htid := length_serialize_scalarField_le 2 2
    have huid := length_serialize_scalarField_le 3 uid.toNat
    rw [serialize, List.flatMap_append, List.length_append]
    exact Nat.add_le_add htid huid
  have hfields : (secondFrame uid).toFields =
      [⟨1, .bytes (serialize (scalarField 2 2 ++ scalarField 3 uid.toNat))⟩] := by
    simp [DataMessage.toFields, secondFrame, messageField, bytesField,
      Identifier.toFields, scalarField]
  have hsize : (serialize (secondFrame uid).toFields).length ≤ maxSize := by
    have hfield := length_encodeField_bytes_le 1
      (serialize (scalarField 2 2 ++ scalarField 3 uid.toNat))
    have hmax : 60 ≤ maxSize := by decide
    rw [hfields, serialize, List.flatMap_singleton]
    omega
  have hne : serialize (secondFrame uid).toFields ≠ [] := by
    rw [hfields, serialize, List.flatMap_singleton]
    exact encodeField_ne_nil _
  have hutf8 : (secondFrame uid).Utf8 := by
    refine ⟨?_, validUtf8_nil, validUtf8_nil⟩
    intro i hi e he
    obtain rfl := Option.mem_some_iff.mp hi
    simp at he
  rw [ParticipantData.reliableMessage, reliableFrame, if_neg hne,
    DataMessage.parse_serialize hutf8 hsize]

theorem baselines_iff (conn : ReliableSubscriberConnection) (uid : UInt64) :
    conn.Baselines uid ↔ conn.publisher.uid = uid := by
  constructor
  · intro hbaselines
    by_contra hne
    have hdelivered := hbaselines {} [] _ _ (by simp [SilentOn])
      (secondFrame_reliableMessage uid) rfl
    rw [List.foldl_nil, handleReliableDataFrame_of_message (secondFrame_reliableMessage uid),
      mem_receive_iff] at hdelivered
    have hstale : (secondFrame uid).pubUid ∉
        (conn.openStream {}).reliableFreshPublishers := by
      rw [openStream, noteReliableStreamEstablished, ExtTreeSet.mem_insert,
        LawfulEqOrd.compare_eq_iff_eq]
      rintro (h | h)
      · exact hne h
      · exact ExtTreeSet.not_mem_empty h
    have hmet : (conn.openStream {}).windowMet (secondFrame uid).pubUid
        (secondFrame uid).windowKey = {} := by
      rw [windowMet, if_neg hstale, openStream, noteReliableStreamEstablished,
        getElem?_rebaseline]
      rfl
    have htid : (secondFrame uid).tid = 2 := rfl
    rw [hmet, htid, ReliableRxWindow.opens_default_iff (by decide)] at hdelivered
    revert hdelivered
    decide
  · rintro rfl r events pd d hsilent hd huid
    have hfresh : conn.publisher.uid ∈ (events.foldl handle
        (conn.openStream r)).reliableFreshPublishers := by
      refine fresh_foldl_of_silent events hsilent ?_
      rw [openStream, noteReliableStreamEstablished]
      exact ExtTreeSet.mem_insert_self
    rw [handleReliableDataFrame_of_message hd, mem_receive_iff, windowMet,
      if_pos (huid.symm ▸ hfresh)]
    exact ReliableRxWindow.opens_unbaselined d.tid

/-- The stream of a connection that a reconciliation creates baselines the windows
of the publisher serving at its end exactly when that publisher's uid is the one
of the connection's key: the uid announced on the group for a discovered
publisher, and a hash of the endpoint text for a static seed. -/
theorem created_baselines_iff {N : Nat} [NeZero N] (n : Node N) (conns : Connections)
    (conn : ReliableSubscriberConnection)
    (hmem : conn ∈ (n.reconcileReliableConnections conns).created) (uid : UInt64) :
    (∃ topicKey ∈ n.reliableSubscribedTopics, ∃ entry, n.topic? topicKey = some entry ∧
      ∃ pub ∈ entry.publishers, conn.publisher = pub.subscriberKey ∧
        (conn.Baselines uid ↔ pub.uid = uid)) ∨
    ∃ peer ∈ n.config.peerEndpoints, conn.publisher = peerKeyForEndpoint peer ∧
      (conn.Baselines uid ↔ (peerKeyForEndpoint peer).uid = uid) := by
  have hiff := baselines_iff conn uid
  rcases n.origin_of_created conns hmem with
    ⟨topicKey, htopic, entry, hentry, pub, hpub, hkey⟩ | ⟨peer, hpeer, hkey⟩
  · rw [hkey] at hiff
    exact .inl ⟨topicKey, htopic, entry, hentry, pub, hpub, hkey, hiff⟩
  · rw [hkey] at hiff
    exact .inr ⟨peer, hpeer, hkey, hiff⟩

/-- `10.0.0.3:4000`. -/
def seedEndpoint : Bytes :=
  [49, 48, 46, 48, 46, 48, 46, 51, 58, 52, 48, 48, 48]

/-- A node that subscribes to one reliable topic and knows one static seed. -/
def seededNode : Node 1 :=
  { selfParticipant := ⟨1, 0, 3⟩
    config := { peerEndpoints := [seedEndpoint] }
    reliableSubscribedTopics := ExtTreeSet.empty.insert (makeCompositeKey [116] [84]) }

def seedConnection : ReliableSubscriberConnection :=
  seededNode.dial { key := peerKeyForEndpoint seedEndpoint, candidates := [seedEndpoint] }

theorem seedConnection_mem_created :
    seedConnection ∈ (seededNode.reconcileReliableConnections ∅).created := by
  decide

/-- Publisher 7 serves at the seed: its first frame may be held. -/
theorem created_baselines_seed_fails :
    seedConnection ∈ (seededNode.reconcileReliableConnections ∅).created ∧
      ¬ seedConnection.Baselines 7 := by
  refine ⟨seedConnection_mem_created, ?_⟩
  rw [baselines_iff]
  decide

theorem created_baselines_iff_seed :
    (∃ topicKey ∈ seededNode.reliableSubscribedTopics, ∃ entry,
      seededNode.topic? topicKey = some entry ∧
        ∃ pub ∈ entry.publishers, seedConnection.publisher = pub.subscriberKey ∧
          (seedConnection.Baselines 7 ↔ pub.uid = 7)) ∨
    ∃ peer ∈ seededNode.config.peerEndpoints,
      seedConnection.publisher = peerKeyForEndpoint peer ∧
        (seedConnection.Baselines 7 ↔ (peerKeyForEndpoint peer).uid = 7) :=
  created_baselines_iff seededNode ∅ seedConnection seedConnection_mem_created 7

end ReliableSubscriberConnection

end Edriel
