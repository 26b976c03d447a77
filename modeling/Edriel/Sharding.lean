import Edriel.FanOut
import Edriel.Gate
import Edriel.Lib.Partitioned

namespace Edriel

open Proto3 Std Partitioned

/-- The shard that owns a topic and the shard that owns a peer. -/
structure Placement (N : Nat) where
  topic : Bytes → Fin N
  uid : UInt64 → Fin N

/-- `shardIndexForTopic` and `shardIndexForUid` over a hash of strings. -/
def Placement.ofHash {N : Nat} [NeZero N] (hash : Bytes → UInt64) : Placement N where
  topic key := if N ≤ 1 then 0 else Fin.ofNat N (hash key).toNat
  uid uid := if N ≤ 1 then 0 else Fin.ofNat N (hash (Text.decimal uid.toNat)).toNat

/-- What a node is handed: an operation on its registry or a data message. -/
inductive RegistryInput where
  | operation (op : Operation)
  | dataMessage (data : DataMessage)

namespace Node

variable {N : Nat}

def topicParts (n : Node N) : Parts N Bytes TopicEntry :=
  fun i => (n.shards i).topics

def participantParts (n : Node N) : Parts N UInt64 Participant :=
  fun i => (n.shards i).participants

def mergeRegistrySnapshot (n : Node N) : ExtTreeMap Bytes TopicEntry :=
  merge Prod.fst Prod.snd (entries n.topicParts)

/-- A set of participants, which are told apart by pid, tid and uid. -/
def mergeParticipantSnapshot (n : Node N) : ExtTreeMap Identity Participant :=
  merge (fun entry => entry.2.id) Prod.snd (entries n.participantParts)

end Node

namespace Placement

variable {N : Nat} (s : Placement N)

def topic? (n : Node N) (key : Bytes) : Option TopicEntry :=
  (n.shards (s.topic key)).topics[key]?

def participant? (n : Node N) (uid : UInt64) : Option Participant :=
  (n.shards (s.uid uid)).participants[uid]?

def alterTopic (n : Node N) (key : Bytes) (f : Option TopicEntry → Option TopicEntry) :
    Node N :=
  { n with
    shards := Function.update n.shards (s.topic key)
      { n.shards (s.topic key) with
        topics := (n.shards (s.topic key)).topics.alter key f } }

def alterParticipant (n : Node N) (uid : UInt64)
    (f : Option Participant → Option Participant) : Node N :=
  { n with
    shards := Function.update n.shards (s.uid uid)
      { n.shards (s.uid uid) with
        participants := (n.shards (s.uid uid)).participants.alter uid f } }

def updateTopic (n : Node N) (key : Bytes) (f : TopicEntry → TopicEntry) : Node N :=
  s.alterTopic n key fun entry => some (f (entry.getD {}))

def registerTopic (n : Node N) (topicName : Bytes) (T : MessageName) (reliable : Bool) :
    Node N :=
  s.updateTopic n (makeCompositeKey topicName T.fullName) fun entry =>
    { entry with topicName, messageType := T.fullName, reliable }

def pushCallback (n : Node N) (topicName : Bytes) (T : MessageName) (invoke : Nat) :
    Node N :=
  s.updateTopic n (makeCompositeKey topicName T.fullName) fun entry =>
    { entry with callbacks := entry.callbacks ++ [{ messageType := T.fullName, invoke }] }

def registerSubscriberTopic (n : Node N) (topicName : Bytes) (T : MessageName)
    (reliable : Bool) : Node N :=
  (s.registerTopic n topicName T reliable).noteReliableSubscription
    (makeCompositeKey topicName T.fullName) reliable

def apply (n : Node N) : Operation → Node N
  | .registerPublisherTopic topicName T reliable => s.registerTopic n topicName T reliable
  | .registerSubscriberTopic topicName T reliable =>
      s.registerSubscriberTopic n topicName T reliable
  | .registerSubscriberTopicWith topicName T callback reliable =>
      match callback with
      | none => n
      | some invoke =>
          s.registerSubscriberTopic
            ((s.pushCallback (s.registerTopic n topicName T reliable) topicName T
              invoke).noteReliableSubscription (makeCompositeKey topicName T.fullName) reliable)
            topicName T reliable
  | .subscribe topicName T callback =>
      match callback with
      | none => n
      | some invoke =>
          match s.topic? n (makeCompositeKey topicName T.fullName) with
          | none => n
          | some _ => s.pushCallback n topicName T invoke
  | .unregisterPublisherTopic topicName T =>
      s.alterTopic n (makeCompositeKey topicName T.fullName) fun entry =>
        entry.bind fun e => if e.callbacks.isEmpty then none else some e
  | .unregisterSubscriberTopic topicName T =>
      match s.topic? n (makeCompositeKey topicName T.fullName) with
      | none => n
      | some _ =>
          { s.alterTopic n (makeCompositeKey topicName T.fullName) (fun entry =>
              entry.bind fun e =>
                if e.publishers.isEmpty && e.subscribers.isEmpty then none
                else some { e with callbacks := [] }) with
            reliableSubscribedTopics :=
              n.reliableSubscribedTopics.erase (makeCompositeKey topicName T.fullName) }
  | .heartbeat now sender endpoints =>
      if sender.uid = n.selfParticipant.uid then n
      else s.alterParticipant n sender.uid fun
        | none => some { id := sender, lastSeen := now, endpoints,
                         timeout := n.config.participantTimeout }
        | some p => some { p with lastSeen := now, endpoints }
  | .announcement sender topicName messageType isPublisher =>
      if sender.uid = n.selfParticipant.uid then n
      else s.updateTopic n (makeCompositeKey topicName messageType) fun entry =>
        if isPublisher then
          { entry with topicName, messageType, publishers := entry.publishers.insert sender }
        else
          { entry with topicName, messageType, subscribers := entry.subscribers.insert sender }
  | .removeTimedOutParticipants now => n.removeTimedOutParticipants now

def matchedCallbacks (n : Node N) (data : DataMessage) : List Callback :=
  match s.topic? n (makeCompositeKey data.topicName data.messageType) with
  | none => []
  | some entry => entry.callbacks.filter fun cb => cb.messageType == data.messageType

def lookupParticipantData (n : Node N) (k : SubscriberKey) : Option ParticipantInfo :=
  (s.participant? n k.uid).map fun found =>
    { pid := k.pid
      tid := k.tid
      uid := k.uid
      status := [111, 110, 108, 105, 110, 101]
      endpoints := found.endpoints
      topicsPublished := n.topicNames fun entry => entry.publishers.contains found.id
      topicsSubscribed := n.topicNames fun entry => entry.subscribers.contains found.id }

/-- The subscribers that `tryPublishReliable` reads out of the topic's shard. -/
def fanOut (n : Node N) (topicName messageType : Bytes) : ExtTreeSet Identity :=
  match s.topic? n (makeCompositeKey topicName messageType) with
  | none => ∅
  | some entry => entry.subscribers

def step (n : Node N) : RegistryInput → Node N
  | .operation op => s.apply n op
  | .dataMessage _ => n

def run (n : Node N) (inputs : List RegistryInput) : Node N :=
  inputs.foldl s.step n

def invoked (n : Node N) : RegistryInput → List Callback
  | .operation _ => []
  | .dataMessage data => s.matchedCallbacks n data

def evicted (n : Node N) : RegistryInput → List Participant
  | .operation (.removeTimedOutParticipants now) => n.staleParticipants now
  | _ => []

end Placement

namespace Node

variable {N : Nat} [NeZero N]

theorem apply_ofHash (n : Node N) (op : Operation) :
    (Placement.ofHash fnv1a64).apply n op = n.apply op := by
  cases op with
  | registerSubscriberTopicWith topicName T callback reliable => cases callback <;> rfl
  | subscribe topicName T callback => cases callback <;> rfl
  | _ => rfl

theorem run_ofHash (n : Node N) (ops : List Operation) :
    (Placement.ofHash fnv1a64).run n (ops.map .operation) = n.run ops := by
  induction ops generalizing n with
  | nil => rfl
  | cons op ops ih =>
      rw [run, List.foldl_cons, ← apply_ofHash]
      exact ih _

theorem matchedCallbacks_ofHash (n : Node N) (data : DataMessage) :
    (Placement.ofHash fnv1a64).matchedCallbacks n data = n.matchedCallbacks data :=
  rfl

theorem lookupParticipantData_ofHash (n : Node N) (k : SubscriberKey) :
    (Placement.ofHash fnv1a64).lookupParticipantData n k = n.lookupParticipantData k :=
  rfl

theorem fanOut_ofHash {p : ReliablePublisher} {n : Node N}
    {topicName messageType payload : Bytes} {c : Call}
    (h : p.Opening n topicName messageType payload c) :
    c.remaining = ((Placement.ofHash fnv1a64).fanOut n topicName messageType).toList := by
  obtain ⟨entry, hentry, hremaining⟩ := h.recorded
  have hkey : c.data.key = makeCompositeKey topicName messageType := by
    rw [h.data]
    rfl
  have hfound : (Placement.ofHash fnv1a64).topic? n (makeCompositeKey topicName messageType) =
      some entry := by
    rw [← hkey]
    exact hentry
  rw [Placement.fanOut, hfound]
  exact hremaining

end Node

namespace Placement

variable {N M : Nat} {s : Placement N} {n : Node N}

/-- Each topic and each peer stands in its own shard only, a peer under its own uid. -/
structure Sound (s : Placement N) (n : Node N) : Prop where
  topics : Located s.topic n.topicParts
  participants : Located s.uid n.participantParts
  keyed : ∀ uid p, s.participant? n uid = some p → p.id.uid = uid

theorem topicParts_alterTopic (key : Bytes) (f : Option TopicEntry → Option TopicEntry) :
    (s.alterTopic n key f).topicParts = alter s.topic n.topicParts key f := by
  funext i
  simp only [Node.topicParts, alterTopic, alter, Function.update_apply]
  split <;> rfl

theorem participantParts_alterTopic (key : Bytes)
    (f : Option TopicEntry → Option TopicEntry) :
    (s.alterTopic n key f).participantParts = n.participantParts := by
  funext i
  simp only [Node.participantParts, alterTopic, Function.update_apply]
  split
  · rename_i hi
    rw [hi]
  · rfl

theorem participantParts_alterParticipant (uid : UInt64)
    (f : Option Participant → Option Participant) :
    (s.alterParticipant n uid f).participantParts = alter s.uid n.participantParts uid f := by
  funext i
  simp only [Node.participantParts, alterParticipant, alter, Function.update_apply]
  split <;> rfl

theorem topicParts_alterParticipant (uid : UInt64)
    (f : Option Participant → Option Participant) :
    (s.alterParticipant n uid f).topicParts = n.topicParts := by
  funext i
  simp only [Node.topicParts, alterParticipant, Function.update_apply]
  split
  · rename_i hi
    rw [hi]
  · rfl

theorem topic?_alterTopic (key key' : Bytes) (f : Option TopicEntry → Option TopicEntry) :
    s.topic? (s.alterTopic n key f) key' =
      if key = key' then f (s.topic? n key) else s.topic? n key' := by
  show lookup s.topic (s.alterTopic n key f).topicParts key' = _
  rw [topicParts_alterTopic, lookup_alter]
  rfl

theorem participant?_alterTopic (key : Bytes) (f : Option TopicEntry → Option TopicEntry)
    (uid : UInt64) : s.participant? (s.alterTopic n key f) uid = s.participant? n uid := by
  show lookup s.uid (s.alterTopic n key f).participantParts uid = _
  rw [participantParts_alterTopic]
  rfl

theorem participant?_alterParticipant (uid uid' : UInt64)
    (f : Option Participant → Option Participant) :
    s.participant? (s.alterParticipant n uid f) uid' =
      if uid = uid' then f (s.participant? n uid) else s.participant? n uid' := by
  show lookup s.uid (s.alterParticipant n uid f).participantParts uid' = _
  rw [participantParts_alterParticipant, lookup_alter]
  rfl

theorem topic?_alterParticipant (uid : UInt64) (f : Option Participant → Option Participant)
    (key : Bytes) : s.topic? (s.alterParticipant n uid f) key = s.topic? n key := by
  show lookup s.topic (s.alterParticipant n uid f).topicParts key = _
  rw [topicParts_alterParticipant]
  rfl

theorem topic?_removeTimedOutParticipants (now : UInt64 → Int) (key : Bytes) :
    s.topic? (n.removeTimedOutParticipants now) key =
      (s.topic? n key).bind (Node.purge (n.staleParticipants now)) :=
  lookup_filterMap s.topic n.topicParts _ key

theorem participant?_removeTimedOutParticipants (now : UInt64 → Int) (uid : UInt64) :
    s.participant? (n.removeTimedOutParticipants now) uid =
      (s.participant? n uid).filter fun p => !p.shouldBeRemoved (now uid) :=
  lookup_filter s.uid n.participantParts (fun uid p => !p.shouldBeRemoved (now uid)) uid

namespace Sound

theorem fresh (me : Identity) (config : Config) :
    s.Sound (Node.fresh me config) where
  topics := Located.empty
  participants := Located.empty
  keyed uid p hp := by
    rw [participant?, Node.fresh, ExtTreeMap.getElem?_empty] at hp
    cases hp

theorem alterTopic (h : s.Sound n) (key : Bytes)
    (f : Option TopicEntry → Option TopicEntry) : s.Sound (s.alterTopic n key f) where
  topics := by
    rw [topicParts_alterTopic]
    exact h.topics.alter key f
  participants := by
    rw [participantParts_alterTopic]
    exact h.participants
  keyed uid p hp := by
    rw [participant?_alterTopic] at hp
    exact h.keyed uid p hp

theorem alterParticipant (h : s.Sound n) (uid : UInt64)
    {f : Option Participant → Option Participant}
    (hf : ∀ old p, (∀ q, old = some q → q.id.uid = uid) → f old = some p → p.id.uid = uid) :
    s.Sound (s.alterParticipant n uid f) where
  topics := by
    rw [topicParts_alterParticipant]
    exact h.topics
  participants := by
    rw [participantParts_alterParticipant]
    exact h.participants.alter uid f
  keyed uid' p hp := by
    rw [participant?_alterParticipant] at hp
    split at hp
    · rename_i huid
      subst huid
      exact hf _ p (h.keyed uid) hp
    · exact h.keyed uid' p hp

theorem noteReliableSubscription (h : s.Sound n) (key : Bytes) (reliable : Bool) :
    s.Sound (n.noteReliableSubscription key reliable) := by
  cases reliable
  · exact h
  · exact ⟨h.topics, h.participants, h.keyed⟩

theorem registerSubscriberTopic (h : s.Sound n) (topicName : Bytes) (T : MessageName)
    (reliable : Bool) : s.Sound (s.registerSubscriberTopic n topicName T reliable) :=
  (h.alterTopic _ _).noteReliableSubscription _ _

theorem removeTimedOutParticipants (h : s.Sound n) (now : UInt64 → Int) :
    s.Sound (n.removeTimedOutParticipants now) where
  topics := h.topics.filterMap _
  participants := h.participants.filter _
  keyed uid p hp := by
    rw [participant?_removeTimedOutParticipants] at hp
    exact h.keyed uid p (Option.filter_eq_some_iff.mp hp).1

theorem apply (h : s.Sound n) (op : Operation) : s.Sound (s.apply n op) := by
  cases op with
  | registerPublisherTopic topicName T reliable => exact h.alterTopic _ _
  | registerSubscriberTopic topicName T reliable => exact h.registerSubscriberTopic _ _ _
  | registerSubscriberTopicWith topicName T callback reliable =>
      cases callback with
      | none => exact h
      | some invoke =>
          apply registerSubscriberTopic
          exact ((h.alterTopic _ _).alterTopic _ _).noteReliableSubscription _ _
  | subscribe topicName T callback =>
      cases callback with
      | none => exact h
      | some invoke =>
          rw [Placement.apply]
          split
          · exact h
          · exact h.alterTopic _ _
  | unregisterPublisherTopic topicName T => exact h.alterTopic _ _
  | unregisterSubscriberTopic topicName T =>
      rw [Placement.apply]
      split
      · exact h
      · obtain ⟨htopics, hparticipants, hkeyed⟩ := h.alterTopic
          (makeCompositeKey topicName T.fullName) fun entry => entry.bind fun e =>
            if e.publishers.isEmpty && e.subscribers.isEmpty then none
            else some { e with callbacks := [] }
        exact ⟨htopics, hparticipants, hkeyed⟩
  | heartbeat now sender endpoints =>
      rw [Placement.apply]
      split
      · exact h
      · apply h.alterParticipant
        intro old p hold hp
        cases old with
        | none =>
            obtain rfl := Option.some.inj hp
            rfl
        | some q =>
            obtain rfl := Option.some.inj hp
            exact hold q rfl
  | announcement sender topicName messageType isPublisher =>
      rw [Placement.apply]
      split
      · exact h
      · exact h.alterTopic _ _
  | removeTimedOutParticipants now => exact h.removeTimedOutParticipants now

theorem mem_topics (h : s.Sound n) {key : Bytes} {e : TopicEntry} :
    (key, e) ∈ entries n.topicParts ↔ s.topic? n key = some e :=
  h.topics.mem_entries

theorem mem_participants (h : s.Sound n) {uid : UInt64} {p : Participant} :
    (uid, p) ∈ entries n.participantParts ↔ s.participant? n uid = some p :=
  h.participants.mem_entries

end Sound

/-- Two nodes answer alike for every topic and every peer. -/
structure Alike (s : Placement N) (s' : Placement M) (n : Node N) (m : Node M) : Prop where
  self : n.selfParticipant = m.selfParticipant
  config : n.config = m.config
  topic : ∀ key, s.topic? n key = s'.topic? m key
  participant : ∀ uid, s.participant? n uid = s'.participant? m uid

theorem Sound.mem_stale (h : s.Sound n) (now : UInt64 → Int) (p : Participant) :
    p ∈ n.staleParticipants now ↔
      ∃ uid, s.participant? n uid = some p ∧ p.shouldBeRemoved (now uid) = true := by
  have hentries : p ∈ n.staleParticipants now ↔
      ∃ entry ∈ entries n.participantParts,
        entry.2 = p ∧ entry.2.shouldBeRemoved (now entry.1) = true := by
    simp only [Node.staleParticipants, entries, Node.participantParts, List.mem_flatMap,
      List.mem_filterMap, Option.ite_none_right_eq_some, Option.some.injEq]
    constructor
    · rintro ⟨i, hi, entry, hentry, hstale, hp⟩
      exact ⟨entry, ⟨i, hi, hentry⟩, hp, hstale⟩
    · rintro ⟨entry, ⟨i, hi, hentry⟩, hp, hstale⟩
      exact ⟨i, hi, entry, hentry, hstale, hp⟩
  rw [hentries]
  constructor
  · rintro ⟨⟨uid, q⟩, hmem, rfl, hstale⟩
    exact ⟨uid, h.mem_participants.mp hmem, hstale⟩
  · rintro ⟨uid, hp, hstale⟩
    exact ⟨(uid, p), h.mem_participants.mpr hp, rfl, hstale⟩

namespace Alike

variable {s' : Placement M} {m : Node M}

theorem alterTopic (h : Alike s s' n m) (key : Bytes)
    (f : Option TopicEntry → Option TopicEntry) :
    Alike s s' (s.alterTopic n key f) (s'.alterTopic m key f) where
  self := h.self
  config := h.config
  topic key' := by
    rw [topic?_alterTopic, topic?_alterTopic, h.topic, h.topic]
  participant uid := by
    rw [participant?_alterTopic, participant?_alterTopic, h.participant]

theorem alterParticipant (h : Alike s s' n m) (uid : UInt64)
    (f : Option Participant → Option Participant) :
    Alike s s' (s.alterParticipant n uid f) (s'.alterParticipant m uid f) where
  self := h.self
  config := h.config
  topic key := by
    rw [topic?_alterParticipant, topic?_alterParticipant, h.topic]
  participant uid' := by
    rw [participant?_alterParticipant, participant?_alterParticipant, h.participant,
      h.participant]

theorem noteReliableSubscription (h : Alike s s' n m) (key : Bytes) (reliable : Bool) :
    Alike s s' (n.noteReliableSubscription key reliable)
      (m.noteReliableSubscription key reliable) := by
  cases reliable
  · exact h
  · exact ⟨h.self, h.config, h.topic, h.participant⟩

theorem registerSubscriberTopic (h : Alike s s' n m) (topicName : Bytes) (T : MessageName)
    (reliable : Bool) :
    Alike s s' (s.registerSubscriberTopic n topicName T reliable)
      (s'.registerSubscriberTopic m topicName T reliable) :=
  (h.alterTopic _ _).noteReliableSubscription _ _

theorem mem_stale_iff (h : Alike s s' n m) (hn : s.Sound n) (hm : s'.Sound m)
    (now : UInt64 → Int) (p : Participant) :
    p ∈ n.staleParticipants now ↔ p ∈ m.staleParticipants now := by
  rw [hn.mem_stale, hm.mem_stale]
  simp only [h.participant]

theorem isStale_eq (h : Alike s s' n m) (hn : s.Sound n) (hm : s'.Sound m)
    (now : UInt64 → Int) :
    Node.isStale (n.staleParticipants now) = Node.isStale (m.staleParticipants now) := by
  funext p
  rw [Bool.eq_iff_iff, Node.isStale, Node.isStale, List.any_eq_true, List.any_eq_true]
  simp only [h.mem_stale_iff hn hm now]

/-- A cleanup forgets the same peers and purges the same entries. -/
theorem removeTimedOutParticipants (h : Alike s s' n m) (hn : s.Sound n) (hm : s'.Sound m)
    (now : UInt64 → Int) :
    Alike s s' (n.removeTimedOutParticipants now) (m.removeTimedOutParticipants now) where
  self := h.self
  config := h.config
  topic key := by
    have hpurge : Node.purge (n.staleParticipants now) = Node.purge (m.staleParticipants now) := by
      funext entry
      rw [Node.purge, Node.purge, h.isStale_eq hn hm now]
    rw [topic?_removeTimedOutParticipants, topic?_removeTimedOutParticipants, h.topic, hpurge]
  participant uid := by
    rw [participant?_removeTimedOutParticipants, participant?_removeTimedOutParticipants,
      h.participant]

theorem apply (h : Alike s s' n m) (hn : s.Sound n) (hm : s'.Sound m) (op : Operation) :
    Alike s s' (s.apply n op) (s'.apply m op) := by
  cases op with
  | registerPublisherTopic topicName T reliable => exact h.alterTopic _ _
  | registerSubscriberTopic topicName T reliable => exact h.registerSubscriberTopic _ _ _
  | registerSubscriberTopicWith topicName T callback reliable =>
      cases callback with
      | none => exact h
      | some invoke =>
          apply registerSubscriberTopic
          exact ((h.alterTopic _ _).alterTopic _ _).noteReliableSubscription _ _
  | subscribe topicName T callback =>
      cases callback with
      | none => exact h
      | some invoke =>
          simp only [Placement.apply, h.topic]
          split
          · exact h
          · exact h.alterTopic _ _
  | unregisterPublisherTopic topicName T => exact h.alterTopic _ _
  | unregisterSubscriberTopic topicName T =>
      simp only [Placement.apply, h.topic]
      split
      · exact h
      · obtain ⟨hself, hconfig, htopic, hparticipant⟩ := h.alterTopic
          (makeCompositeKey topicName T.fullName) fun entry => entry.bind fun e =>
            if e.publishers.isEmpty && e.subscribers.isEmpty then none
            else some { e with callbacks := [] }
        exact ⟨hself, hconfig, htopic, hparticipant⟩
  | heartbeat now sender endpoints =>
      simp only [Placement.apply, h.self, h.config]
      split
      · exact h
      · exact h.alterParticipant _ _
  | announcement sender topicName messageType isPublisher =>
      simp only [Placement.apply, h.self]
      split
      · exact h
      · exact h.alterTopic _ _
  | removeTimedOutParticipants now => exact h.removeTimedOutParticipants hn hm now

theorem run (h : Alike s s' n m) (hn : s.Sound n) (hm : s'.Sound m)
    (inputs : List RegistryInput) :
    s.Sound (s.run n inputs) ∧ s'.Sound (s'.run m inputs) ∧
      Alike s s' (s.run n inputs) (s'.run m inputs) := by
  induction inputs generalizing n m with
  | nil => exact ⟨hn, hm, h⟩
  | cons input inputs ih =>
      cases input with
      | operation op => exact ih (h.apply hn hm op) (hn.apply op) (hm.apply op)
      | dataMessage data => exact ih h hn hm

end Alike

/-- Two nodes show the same registry. -/
structure SameView (s : Placement N) (s' : Placement M) (n : Node N) (m : Node M) : Prop where
  topics : n.mergeRegistrySnapshot = m.mergeRegistrySnapshot
  participants : n.mergeParticipantSnapshot = m.mergeParticipantSnapshot
  known : ∀ k, n.isKnownParticipant k = m.isKnownParticipant k
  found : ∀ k, s.lookupParticipantData n k = s'.lookupParticipantData m k
  fanOut : ∀ topicName messageType,
    s.fanOut n topicName messageType = s'.fanOut m topicName messageType

theorem Sound.mergeRegistrySnapshot_eq_some (h : s.Sound n) {key : Bytes} {e : TopicEntry} :
    n.mergeRegistrySnapshot[key]? = some e ↔ s.topic? n key = some e := by
  rw [Node.mergeRegistrySnapshot, getElem?_merge_eq_some]
  · constructor
    · rintro ⟨⟨key', e'⟩, hmem, rfl, rfl⟩
      exact h.mem_topics.mp hmem
    · intro he
      exact ⟨(key, e), h.mem_topics.mpr he, rfl, rfl⟩
  · rintro ⟨key, e⟩ he ⟨key', e'⟩ he' hkey
    obtain rfl : key = key' := hkey
    exact Option.some.inj ((h.mem_topics.mp he).symm.trans (h.mem_topics.mp he'))

theorem Sound.mergeParticipantSnapshot_eq_some (h : s.Sound n) {id : Identity}
    {p : Participant} :
    n.mergeParticipantSnapshot[id]? = some p ↔ s.participant? n id.uid = some p ∧ p.id = id := by
  rw [Node.mergeParticipantSnapshot, getElem?_merge_eq_some]
  · constructor
    · rintro ⟨⟨uid, q⟩, hmem, rfl, rfl⟩
      have hq := h.mem_participants.mp hmem
      refine ⟨?_, rfl⟩
      rw [h.keyed uid q hq]
      exact hq
    · rintro ⟨hp, hid⟩
      exact ⟨(id.uid, p), h.mem_participants.mpr hp, hid, rfl⟩
  · rintro ⟨uid, q⟩ hq ⟨uid', q'⟩ hq' hid
    have hfound := h.mem_participants.mp hq
    have hfound' := h.mem_participants.mp hq'
    obtain rfl : uid = uid' := by
      rw [← h.keyed uid q hfound, ← h.keyed uid' q' hfound']
      exact congrArg Identity.uid hid
    exact Option.some.inj (hfound.symm.trans hfound')

theorem Sound.registered_iff (h : s.Sound n) (k : SubscriberKey) :
    n.Registered k ↔ ∃ uid p, s.participant? n uid = some p ∧ p.id.Is k := by
  constructor
  · rintro ⟨p, ⟨i, uid, hp⟩, hk⟩
    exact ⟨uid, p, h.participants.exists_iff.mp ⟨i, hp⟩, hk⟩
  · rintro ⟨uid, p, hp, hk⟩
    exact ⟨p, ⟨s.uid uid, uid, hp⟩, hk⟩

theorem Sound.announced_iff (h : s.Sound n) (k : SubscriberKey) :
    n.Announced k ↔ ∃ key e p, s.topic? n key = some e ∧ e.Lists p ∧ p.Is k := by
  constructor
  · rintro ⟨p, ⟨i, key, e, he, hp⟩, hk⟩
    exact ⟨key, e, p, h.topics.exists_iff.mp ⟨i, he⟩, hp, hk⟩
  · rintro ⟨key, e, p, he, hp, hk⟩
    exact ⟨p, ⟨s.topic key, key, e, he, hp⟩, hk⟩

theorem Sound.mem_topicNames (h : s.Sound n) (select : TopicEntry → Bool) (name : Bytes) :
    name ∈ ((List.finRange N).flatMap fun i =>
        (n.shards i).topics.toList.filterMap fun kv =>
          if select kv.2 then some kv.2.topicName else none) ↔
      ∃ key e, s.topic? n key = some e ∧ select e = true ∧ e.topicName = name := by
  simp only [List.mem_flatMap, List.mem_finRange, true_and, List.mem_filterMap,
    Option.ite_none_right_eq_some, Option.some.injEq]
  constructor
  · rintro ⟨i, ⟨key, e⟩, he, hselect, hname⟩
    rw [ExtTreeMap.mem_toList_iff_getElem?_eq_some] at he
    exact ⟨key, e, h.topics.exists_iff.mp ⟨i, he⟩, hselect, hname⟩
  · rintro ⟨key, e, he, hselect, hname⟩
    refine ⟨s.topic key, (key, e), ?_, hselect, hname⟩
    exact ExtTreeMap.mem_toList_iff_getElem?_eq_some.mpr he

namespace Alike

variable {s' : Placement M} {m : Node M}

theorem topicNames_eq (h : Alike s s' n m) (hn : s.Sound n) (hm : s'.Sound m)
    (select : TopicEntry → Bool) : n.topicNames select = m.topicNames select := by
  rw [Node.topicNames, Node.topicNames]
  apply congrArg ExtTreeSet.toList
  apply ExtTreeSet.ext_mem
  intro name
  rw [ExtTreeSet.mem_ofList, ExtTreeSet.mem_ofList, List.contains_iff_mem,
    List.contains_iff_mem, hn.mem_topicNames, hm.mem_topicNames]
  simp only [h.topic]

/-- Sound nodes that answer alike show the same registry. -/
theorem sameView (h : Alike s s' n m) (hn : s.Sound n) (hm : s'.Sound m) :
    SameView s s' n m where
  topics := by
    apply ExtTreeMap.ext_getElem?
    intro key
    ext e
    rw [hn.mergeRegistrySnapshot_eq_some, hm.mergeRegistrySnapshot_eq_some, h.topic]
  participants := by
    apply ExtTreeMap.ext_getElem?
    intro id
    ext p
    rw [hn.mergeParticipantSnapshot_eq_some, hm.mergeParticipantSnapshot_eq_some,
      h.participant]
  known k := by
    rw [Bool.eq_iff_iff, Node.isKnownParticipant_iff, Node.isKnownParticipant_iff,
      hn.registered_iff, hm.registered_iff, hn.announced_iff, hm.announced_iff,
      Node.matchesSeed, Node.matchesSeed, h.config]
    simp only [h.topic, h.participant]
  found k := by
    rw [lookupParticipantData, lookupParticipantData, h.participant]
    simp only [h.topicNames_eq hn hm]
  fanOut topicName messageType := by
    rw [fanOut, fanOut, h.topic]

end Alike

/-- After any sequence of inputs, a node with `N` shards and a node with one show the
same registry, and whatever comes next invokes the same callbacks and evicts the same
peers of both. -/
theorem sharding_invisible (s : Placement N) (one : Placement 1) (me : Identity)
    (config : Config) (inputs : List RegistryInput) :
    SameView s one (s.run (.fresh me config) inputs) (one.run (.fresh me config) inputs) ∧
      ∀ next,
        s.invoked (s.run (.fresh me config) inputs) next =
          one.invoked (one.run (.fresh me config) inputs) next ∧
        ∀ p, p ∈ evicted (s.run (.fresh me config) inputs) next ↔
          p ∈ evicted (one.run (.fresh me config) inputs) next := by
  have hfresh : Alike s one (.fresh me config) (.fresh me config) := by
    refine ⟨rfl, rfl, fun key => ?_, fun uid => ?_⟩
    · rw [topic?, topic?, Node.fresh, Node.fresh]
    · rw [participant?, participant?, Node.fresh, Node.fresh]
  obtain ⟨hn, hm, halike⟩ := hfresh.run (Sound.fresh me config) (Sound.fresh me config) inputs
  refine ⟨halike.sameView hn hm, fun next => ⟨?_, fun p => ?_⟩⟩
  · cases next with
    | operation op => rfl
    | dataMessage data => rw [invoked, invoked, matchedCallbacks, matchedCallbacks, halike.topic]
  · cases next with
    | operation op =>
        cases op with
        | removeTimedOutParticipants now => exact halike.mem_stale_iff hn hm now p
        | _ => exact Iff.rfl
    | dataMessage data => exact Iff.rfl

end Placement

end Edriel
