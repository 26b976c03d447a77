import Edriel.Listed
import Edriel.Reconcile

namespace Edriel

open Proto3 Std

/-- The participant goes by exactly the presented pid, tid and uid. -/
def Identity.Is (p : Identity) (k : SubscriberKey) : Prop :=
  p.pid = k.pid.toUInt64 ∧ p.tid = k.tid ∧ p.uid = k.uid

instance (p : Identity) (k : SubscriberKey) : Decidable (p.Is k) :=
  inferInstanceAs (Decidable (_ ∧ _))

def TopicEntry.Lists (e : TopicEntry) (p : Identity) : Prop :=
  p ∈ e.publishers ∨ p ∈ e.subscribers

/-- The sender of the packet behind an operation, where there is one. -/
def Operation.sender? : Operation → Option Identity
  | .heartbeat _ sender _ => some sender
  | .announcement sender _ _ _ => some sender
  | _ => none

/-- The answer of `lookupParticipantData`. -/
structure ParticipantInfo extends ParticipantData where
  topicsPublished : List Bytes
  topicsSubscribed : List Bytes

namespace Node

variable {N : Nat}

/-- Some seed of `peers:` has the presented pid and uid. -/
def matchesSeed (n : Node N) (k : SubscriberKey) : Bool :=
  n.config.peerEndpoints.any fun seed =>
    k.pid == (peerKeyForEndpoint seed).pid && k.uid == (peerKeyForEndpoint seed).uid

def isKnownParticipant (n : Node N) (k : SubscriberKey) : Bool :=
  ((List.finRange N).any fun i =>
    (n.shards i).participants.toList.any fun kv => decide (kv.2.id.Is k)) ||
  ((List.finRange N).any fun i =>
    (n.shards i).topics.toList.any fun kv =>
      kv.2.publishers.toList.any (fun p => decide (p.Is k)) ||
        kv.2.subscribers.toList.any (fun p => decide (p.Is k))) ||
  n.matchesSeed k

/-- The names of the selected topics of all shards, each once and in order. -/
def topicNames (n : Node N) (select : TopicEntry → Bool) : List Bytes :=
  (ExtTreeSet.ofList ((List.finRange N).flatMap fun i =>
    (n.shards i).topics.toList.filterMap fun kv =>
      if select kv.2 then some kv.2.topicName else none)).toList

variable [NeZero N]

/-- The reply echoes what was presented; the registry is asked by uid. -/
def lookupParticipantData (n : Node N) (k : SubscriberKey) : Option ParticipantInfo :=
  (n.participant? k.uid).map fun found =>
    { pid := k.pid
      tid := k.tid
      uid := k.uid
      status := [111, 110, 108, 105, 110, 101]
      endpoints := found.endpoints
      topicsPublished := n.topicNames fun entry => entry.publishers.contains found.id
      topicsSubscribed := n.topicNames fun entry => entry.subscribers.contains found.id }

def Holds (n : Node N) (p : Participant) : Prop :=
  ∃ (i : Fin N) (uid : UInt64), (n.shards i).participants[uid]? = some p

def Names (n : Node N) (p : Identity) : Prop :=
  ∃ (i : Fin N) (key : Bytes) (e : TopicEntry),
    (n.shards i).topics[key]? = some e ∧ e.Lists p

def Registered (n : Node N) (k : SubscriberKey) : Prop :=
  ∃ p, n.Holds p ∧ p.id.Is k

def Announced (n : Node N) (k : SubscriberKey) : Prop :=
  ∃ p, n.Names p ∧ p.Is k

omit [NeZero N] in
theorem isKnownParticipant_iff (n : Node N) (k : SubscriberKey) :
    n.isKnownParticipant k = true ↔
      n.Registered k ∨ n.Announced k ∨ n.matchesSeed k = true := by
  rw [isKnownParticipant, Bool.or_eq_true, Bool.or_eq_true, or_assoc]
  refine or_congr ?_ (or_congr_left ?_)
  · simp only [List.any_eq_true, List.mem_finRange, true_and, decide_eq_true_eq]
    constructor
    · rintro ⟨i, ⟨uid, p⟩, hp, hk⟩
      exact ⟨p, ⟨i, uid, ExtTreeMap.mem_toList_iff_getElem?_eq_some.mp hp⟩, hk⟩
    · rintro ⟨p, ⟨i, uid, hp⟩, hk⟩
      exact ⟨i, ⟨uid, p⟩, ExtTreeMap.mem_toList_iff_getElem?_eq_some.mpr hp, hk⟩
  · simp only [List.any_eq_true, List.mem_finRange, true_and, Bool.or_eq_true,
      decide_eq_true_eq, ExtTreeSet.mem_toList]
    constructor
    · rintro ⟨i, ⟨key, e⟩, he, hlisted⟩
      have he := ExtTreeMap.mem_toList_iff_getElem?_eq_some.mp he
      rcases hlisted with ⟨p, hp, hk⟩ | ⟨p, hp, hk⟩
      · exact ⟨p, ⟨i, key, e, he, .inl hp⟩, hk⟩
      · exact ⟨p, ⟨i, key, e, he, .inr hp⟩, hk⟩
    · rintro ⟨p, ⟨i, key, e, he, hp⟩, hk⟩
      refine ⟨i, ⟨key, e⟩, ExtTreeMap.mem_toList_iff_getElem?_eq_some.mpr he, ?_⟩
      exact hp.imp (fun hp => ⟨p, hp, hk⟩) (fun hp => ⟨p, hp, hk⟩)

theorem participants_alterTopic (n : Node N) (key : Bytes)
    (f : Option TopicEntry → Option TopicEntry) (i : Fin N) :
    ((n.alterTopic key f).shards i).participants = (n.shards i).participants := by
  simp only [alterTopic, Function.update_apply]
  split
  · rename_i hi
    rw [hi]
  · rfl

theorem participants_unregisterSubscriberTopic (n : Node N) (topicName : Bytes)
    (T : MessageName) (i : Fin N) :
    ((n.unregisterSubscriberTopic topicName T).shards i).participants =
      (n.shards i).participants := by
  rw [unregisterSubscriberTopic]
  split
  · rfl
  · exact participants_alterTopic _ _ _ _

theorem participants_handleTopicAnnouncement (n : Node N) (sender : Identity)
    (topicName messageType : Bytes) (isPublisher : Bool) (i : Fin N) :
    ((n.handleTopicAnnouncement sender topicName messageType isPublisher).shards i).participants =
      (n.shards i).participants := by
  rw [handleTopicAnnouncement]
  split
  · rfl
  · exact participants_alterTopic _ _ _ _

theorem participants_registerSubscriberTopic (n : Node N) (topicName : Bytes)
    (T : MessageName) (reliable : Bool) (i : Fin N) :
    ((n.registerSubscriberTopic topicName T reliable).2.shards i).participants =
      (n.shards i).participants := by
  rw [registerSubscriberTopic, shards_noteReliableSubscription]
  exact participants_alterTopic _ _ _ _

theorem participant_of_heartbeat {n : Node N} {now : Int} {sender : Identity}
    {endpoints : List Endpoint} {i : Fin N} {uid : UInt64} {p : Participant}
    (h : ((n.handleParticipantHeartbeat now sender endpoints).shards i).participants[uid]? =
      some p) :
    (∃ p', (n.shards i).participants[uid]? = some p' ∧ p'.id = p.id ∧ p'.timeout = p.timeout) ∨
      sender = p.id ∧ i = shardIndexForUid uid ∧ p.id.uid = uid ∧
        p.timeout = n.config.participantTimeout := by
  rw [handleParticipantHeartbeat] at h
  split at h
  · exact .inl ⟨p, h, rfl, rfl⟩
  · simp only [alterParticipant, Function.update_apply] at h
    split at h
    · rename_i hi
      rw [ExtTreeMap.getElem?_alter] at h
      split at h
      · rename_i huid
        obtain rfl : sender.uid = uid := LawfulEqOrd.compare_eq_iff_eq.mp huid
        split at h
        · obtain rfl := Option.some.inj h
          exact .inr ⟨rfl, hi, rfl, rfl⟩
        · rename_i p' hp'
          obtain rfl := Option.some.inj h
          exact .inl ⟨p', hi ▸ hp', rfl, rfl⟩
      · exact .inl ⟨p, hi ▸ h, rfl, rfl⟩
    · exact .inl ⟨p, h, rfl, rfl⟩

theorem participant_of_apply {n : Node N} {op : Operation} {i : Fin N} {uid : UInt64}
    {p : Participant} (h : ((n.apply op).shards i).participants[uid]? = some p) :
    (∃ p', (n.shards i).participants[uid]? = some p' ∧ p'.id = p.id ∧ p'.timeout = p.timeout) ∨
      op.sender? = some p.id ∧ i = shardIndexForUid uid ∧ p.id.uid = uid ∧
        p.timeout = n.config.participantTimeout := by
  have hsame : ((n.apply op).shards i).participants = (n.shards i).participants →
      ∃ p', (n.shards i).participants[uid]? = some p' ∧ p'.id = p.id ∧ p'.timeout = p.timeout :=
    fun hsame => ⟨p, hsame ▸ h, rfl, rfl⟩
  cases op with
  | registerPublisherTopic topicName T reliable =>
      exact .inl (hsame (participants_alterTopic _ _ _ _))
  | registerSubscriberTopic topicName T reliable =>
      exact .inl (hsame (participants_registerSubscriberTopic _ _ _ _ _))
  | registerSubscriberTopicWith topicName T callback reliable =>
      cases callback with
      | none => exact .inl (hsame rfl)
      | some invoke =>
          refine .inl (hsame ?_)
          rw [apply, registerSubscriberTopicWith, participants_registerSubscriberTopic,
            shards_noteReliableSubscription, pushCallback, updateTopic, participants_alterTopic,
            registerTopic, updateTopic, participants_alterTopic]
  | subscribe topicName T callback =>
      cases callback with
      | none => exact .inl (hsame rfl)
      | some invoke =>
          refine .inl (hsame ?_)
          rw [apply, subscribe]
          split
          · rfl
          · exact participants_alterTopic _ _ _ _
  | unregisterPublisherTopic topicName T =>
      exact .inl (hsame (participants_alterTopic _ _ _ _))
  | unregisterSubscriberTopic topicName T =>
      exact .inl (hsame (participants_unregisterSubscriberTopic _ _ _ _))
  | heartbeat now sender endpoints =>
      refine (participant_of_heartbeat h).imp_right ?_
      rintro ⟨hsender, hrest⟩
      exact ⟨congrArg some hsender, hrest⟩
  | announcement sender topicName messageType isPublisher =>
      exact .inl (hsame (participants_handleTopicAnnouncement _ _ _ _ _ _))
  | removeTimedOutParticipants now =>
      simp only [apply, removeTimedOutParticipants] at h
      rw [ExtTreeMap.getElem?_filter'] at h
      exact .inl ⟨p, (Option.filter_eq_some_iff.mp h).1, rfl, rfl⟩

omit [NeZero N] in
theorem names_iff {n : Node N} {p : Identity} :
    n.Names p ↔ ∃ i key isPublisher, n.ListedAt i key isPublisher p := by
  constructor
  · rintro ⟨i, key, e, he, hp | hp⟩
    · exact ⟨i, key, true, e, he, hp⟩
    · exact ⟨i, key, false, e, he, hp⟩
  · rintro ⟨i, key, isPublisher, e, he, hp⟩
    cases isPublisher with
    | true => exact ⟨i, key, e, he, .inl hp⟩
    | false => exact ⟨i, key, e, he, .inr hp⟩

theorem names_of_apply {n : Node N} {op : Operation} {p : Identity}
    (h : (n.apply op).Names p) : n.Names p ∨ op.sender? = some p := by
  obtain ⟨i, key, isPublisher, hlisted⟩ := names_iff.mp h
  rcases listedAt_apply hlisted with hlisted | ⟨topicName, messageType, announces, rfl⟩
  · exact .inl (names_iff.mpr ⟨i, key, isPublisher, hlisted⟩)
  · exact .inr rfl

/-- What holds of the registry of a node that has heard the senders of `ops`. -/
structure Heard (n : Node N) (ops : List Operation) : Prop where
  located : ∀ (i : Fin N) (uid : UInt64) (p : Participant),
    (n.shards i).participants[uid]? = some p → i = shardIndexForUid uid ∧ p.id.uid = uid
  held : ∀ p, n.Holds p → ∃ op ∈ ops, op.sender? = some p.id
  named : ∀ p, n.Names p → ∃ op ∈ ops, op.sender? = some p

theorem heard_run (me : Identity) (config : Config) (ops : List Operation) :
    ((fresh me config : Node N).run ops).Heard ops := by
  induction ops using List.reverseRecOn with
  | nil =>
      have hnone : ∀ i : Fin N, (fresh me config : Node N).shards i = {} := fun _ => rfl
      constructor
      case located =>
        intro i uid p hp
        exact absurd hp (by simp [run, hnone])
      case held =>
        rintro p ⟨i, uid, hp⟩
        exact absurd hp (by simp [run, hnone])
      case named =>
        rintro p ⟨i, key, e, he, -⟩
        exact absurd he (by simp [run, hnone])
  | append_singleton ops op ih =>
      obtain ⟨hlocated, hheld, hnamed⟩ := ih
      have hold : ∀ {p}, (∃ op ∈ ops, op.sender? = some p) →
          ∃ op' ∈ ops ++ [op], op'.sender? = some p := by
        rintro p ⟨op', hmem, hop'⟩
        exact ⟨op', List.mem_append_left _ hmem, hop'⟩
      rw [run_concat]
      constructor
      case located =>
        intro i uid p hp
        rcases participant_of_apply hp with ⟨p', hp', hid, -⟩ | ⟨-, hi, huid, -⟩
        · rw [← hid]
          exact hlocated i uid p' hp'
        · exact ⟨hi, huid⟩
      case held =>
        rintro p ⟨i, uid, hp⟩
        rcases participant_of_apply hp with ⟨p', hp', hid, -⟩ | ⟨hsender, -⟩
        · rw [← hid]
          exact hold (hheld p' ⟨i, uid, hp'⟩)
        · exact ⟨op, by simp, hsender⟩
      case named =>
        intro p hp
        rcases names_of_apply hp with hp | hsender
        · exact hold (hnamed p hp)
        · exact ⟨op, by simp, hsender⟩

theorem config_run (n : Node N) (ops : List Operation) : (n.run ops).config = n.config := by
  induction ops using List.reverseRecOn with
  | nil => rfl
  | append_singleton ops op ih => rw [run_concat, config_apply, ih]

/-- The gate and the lookup answer for exact identities only. -/
structure OnlyExact (n : Node N) (k : SubscriberKey) : Prop where
  known : n.isKnownParticipant k = true → n.Registered k ∨ n.Announced k ∨
    ∃ seed ∈ n.config.peerEndpoints, peerKeyForEndpoint seed = k
  found : (n.lookupParticipantData k).isSome = true ↔ n.Registered k
  endpoints : ∀ info, n.lookupParticipantData k = some info →
    ∃ p, n.Holds p ∧ p.id.Is k ∧ info.endpoints = p.endpoints

omit [NeZero N] in
theorem matchesSeed_iff (n : Node N) (k : SubscriberKey) :
    n.matchesSeed k = true ↔ ∃ seed ∈ n.config.peerEndpoints,
      k.pid = (peerKeyForEndpoint seed).pid ∧ k.uid = (peerKeyForEndpoint seed).uid := by
  simp only [matchesSeed, List.any_eq_true, Bool.and_eq_true, beq_iff_eq]

omit [NeZero N] in
/-- A static seed is matched without its tid, which is zero. -/
theorem known_iff (n : Node N) (k : SubscriberKey) :
    (n.isKnownParticipant k = true → n.Registered k ∨ n.Announced k ∨
      ∃ seed ∈ n.config.peerEndpoints, peerKeyForEndpoint seed = k) ↔
    ∀ seed ∈ n.config.peerEndpoints, k.pid = (peerKeyForEndpoint seed).pid →
      k.uid = (peerKeyForEndpoint seed).uid →
        k.tid = 0 ∨ n.Registered k ∨ n.Announced k := by
  rw [isKnownParticipant_iff, matchesSeed_iff]
  constructor
  · intro hexact seed hseed hpid huid
    rcases hexact (.inr (.inr ⟨seed, hseed, hpid, huid⟩)) with h | h | ⟨seed', -, rfl⟩
    · exact .inr (.inl h)
    · exact .inr (.inr h)
    · exact .inl rfl
  · rintro hcond (h | h | ⟨seed, hseed, hpid, huid⟩)
    · exact .inl h
    · exact .inr (.inl h)
    · rcases hcond seed hseed hpid huid with htid | h | h
      · refine .inr (.inr ⟨seed, hseed, ?_⟩)
        obtain ⟨pid, tid, uid⟩ := k
        exact congr (congr (congrArg SubscriberKey.mk hpid.symm) (Eq.symm htid)) huid.symm
      · exact .inl h
      · exact .inr (.inl h)

/-- The participant that the registry has under a uid. -/
theorem Heard.participant?_iff {n : Node N} {ops : List Operation} (h : n.Heard ops)
    {uid : UInt64} {p : Participant} :
    n.participant? uid = some p ↔ n.Holds p ∧ p.id.uid = uid := by
  constructor
  · intro hp
    exact ⟨⟨_, uid, hp⟩, (h.located _ uid p hp).2⟩
  · rintro ⟨⟨i, uid', hp⟩, rfl⟩
    obtain ⟨rfl, huid⟩ := h.located i uid' p hp
    rw [participant?, huid]
    exact hp

theorem found_iff {n : Node N} {ops : List Operation} (h : n.Heard ops) (k : SubscriberKey) :
    ((n.lookupParticipantData k).isSome = true ↔ n.Registered k) ∧
      (∀ info, n.lookupParticipantData k = some info →
        ∃ p, n.Holds p ∧ p.id.Is k ∧ info.endpoints = p.endpoints) ↔
    ∀ p, n.Holds p → p.id.uid = k.uid → p.id.Is k := by
  simp only [lookupParticipantData, Option.isSome_map]
  constructor
  · rintro ⟨-, hendpoints⟩ p hp huid
    have hfound : n.participant? k.uid = some p := h.participant?_iff.mpr ⟨hp, huid⟩
    obtain ⟨p', hp', hk, -⟩ := hendpoints _ (congrArg _ hfound)
    have hfound' : n.participant? k.uid = some p' := h.participant?_iff.mpr ⟨hp', hk.2.2⟩
    obtain rfl : p = p' := Option.some.inj (hfound.symm.trans hfound')
    exact hk
  · intro hcond
    refine ⟨⟨fun hsome => ?_, ?_⟩, fun info hinfo => ?_⟩
    · obtain ⟨p, hp⟩ := Option.isSome_iff_exists.mp hsome
      obtain ⟨hheld, huid⟩ := h.participant?_iff.mp hp
      exact ⟨p, hheld, hcond p hheld huid⟩
    · rintro ⟨p, hp, hk⟩
      rw [h.participant?_iff.mpr ⟨hp, hk.2.2⟩]
      rfl
    · obtain ⟨p, hp, rfl⟩ := Option.map_eq_some_iff.mp hinfo
      obtain ⟨hheld, huid⟩ := h.participant?_iff.mp hp
      exact ⟨p, hheld, hcond p hheld huid, rfl⟩

/-- In every registry that a node can reach, exactly these presented identities are
answered for as they should be: no registered participant shares the uid alone, and no
static seed the pid and the uid alone. -/
theorem onlyExact_iff (me : Identity) (config : Config) (ops : List Operation)
    (k : SubscriberKey) :
    ((fresh me config : Node N).run ops).OnlyExact k ↔
      (∀ seed ∈ config.peerEndpoints, k.pid = (peerKeyForEndpoint seed).pid →
        k.uid = (peerKeyForEndpoint seed).uid → k.tid = 0 ∨
          ((fresh me config : Node N).run ops).Registered k ∨
            ((fresh me config : Node N).run ops).Announced k) ∧
      ∀ p, ((fresh me config : Node N).run ops).Holds p → p.id.uid = k.uid → p.id.Is k := by
  have hconfig : ((fresh me config : Node N).run ops).config = config :=
    config_run (fresh me config : Node N) ops
  have hknown := known_iff ((fresh me config : Node N).run ops) k
  have hfound := found_iff (heard_run (N := N) me config ops) k
  rw [hconfig] at hknown
  rw [← hknown, ← hfound]
  constructor
  · rintro ⟨hexact, hsome, hendpoints⟩
    rw [hconfig] at hexact
    exact ⟨hexact, hsome, hendpoints⟩
  · rintro ⟨hexact, hsome, hendpoints⟩
    refine ⟨?_, hsome, hendpoints⟩
    rw [hconfig]
    exact hexact

def watchful : Node 1 :=
  (fresh ⟨1, 2, 3⟩ { peerEndpoints := [ReliableSubscriberConnection.seedEndpoint] }).run
    [.heartbeat 0 ⟨4, 5, 6⟩ []]

/-- The key of the seed but for its tid. -/
def seedImpostor : SubscriberKey :=
  { peerKeyForEndpoint ReliableSubscriberConnection.seedEndpoint with tid := 1 }

theorem watchful_heard : watchful.Heard [.heartbeat 0 ⟨4, 5, 6⟩ []] :=
  heard_run _ _ _

theorem watchful_knows_seedImpostor : watchful.isKnownParticipant seedImpostor = true := by
  decide

/-- The gate lets the impostor in, and the lookup answers for a stranger that shares
nothing but the uid of participant 6. -/
theorem onlyExact_watchful_fails :
    ¬ watchful.OnlyExact seedImpostor ∧ ¬ watchful.OnlyExact ⟨9, 9, 6⟩ := by
  have honly : ∀ p : Identity, (∃ op ∈ [Operation.heartbeat 0 ⟨4, 5, 6⟩ []],
      op.sender? = some p) → p = ⟨4, 5, 6⟩ := by
    rintro p ⟨op, hop, hp⟩
    rw [List.mem_singleton.mp hop] at hp
    exact (Option.some.inj hp).symm
  constructor
  · intro hexact
    rcases hexact.known watchful_knows_seedImpostor with
      ⟨p, hp, -, htid, -⟩ | ⟨p, hp, -, htid, -⟩ | ⟨seed, -, hseed⟩
    · rw [honly _ (watchful_heard.held p hp)] at htid
      exact absurd htid (by decide)
    · rw [honly _ (watchful_heard.named p hp)] at htid
      exact absurd htid (by decide)
    · have htid : (0 : UInt64) = 1 := congrArg SubscriberKey.tid hseed
      exact absurd htid (by decide)
  · intro hexact
    obtain ⟨p, hp, -, htid, -⟩ := hexact.found.mp (by decide)
    rw [honly _ (watchful_heard.held p hp)] at htid
    exact absurd htid (by decide)

theorem onlyExact_iff_watchful :
    watchful.OnlyExact ⟨9, 9, 6⟩ ↔
      (∀ seed ∈ [ReliableSubscriberConnection.seedEndpoint],
        (9 : UInt32) = (peerKeyForEndpoint seed).pid →
          (6 : UInt64) = (peerKeyForEndpoint seed).uid → (9 : UInt64) = 0 ∨
            watchful.Registered ⟨9, 9, 6⟩ ∨ watchful.Announced ⟨9, 9, 6⟩) ∧
      ∀ p, watchful.Holds p → p.id.uid = 6 → p.id.Is ⟨9, 9, 6⟩ :=
  onlyExact_iff ⟨1, 2, 3⟩ { peerEndpoints := [ReliableSubscriberConnection.seedEndpoint] }
    [.heartbeat 0 ⟨4, 5, 6⟩ []] ⟨9, 9, 6⟩

end Node

/-- What `run_` writes when a stream opens. -/
def ReliableSubscriberConnection.identity (conn : ReliableSubscriberConnection) :
    SubscriberKey :=
  { pid := conn.selfPid, tid := conn.selfTid, uid := conn.selfUid }

namespace Node

variable {M N : Nat} [NeZero M] [NeZero N]

theorem identity_of_created (n : Node M) (conns : Connections)
    {conn : ReliableSubscriberConnection}
    (hmem : conn ∈ (n.reconcileReliableConnections conns).created) :
    conn.identity = n.selfParticipant.subscriberKey := by
  rcases mem_created_foldl n _ _ hmem with hnone | ⟨t, -, rfl⟩
  · simp at hnone
  · rfl

/-- A dialer that the server has never heard passes the gate exactly when one of the
server's seeds hashes to the dialer's own pid and uid. -/
theorem passes_gate_iff (dialer : Node M) (conns : Connections)
    {conn : ReliableSubscriberConnection}
    (hmem : conn ∈ (dialer.reconcileReliableConnections conns).created) (me : Identity)
    (config : Config) (ops : List Operation)
    (hblind : ∀ op ∈ ops, ∀ p, op.sender? = some p →
      ¬ p.Is dialer.selfParticipant.subscriberKey) :
    ((fresh me config : Node N).run ops).isKnownParticipant conn.identity = true ↔
      ∃ seed ∈ config.peerEndpoints,
        (peerKeyForEndpoint seed).pid = dialer.selfParticipant.pid.toUInt32 ∧
          (peerKeyForEndpoint seed).uid = dialer.selfParticipant.uid := by
  have hconfig : ((fresh me config : Node N).run ops).config = config :=
    config_run (fresh me config : Node N) ops
  have hheard := heard_run (N := N) me config ops
  rw [identity_of_created dialer conns hmem, isKnownParticipant_iff, matchesSeed_iff, hconfig]
  constructor
  · rintro (⟨p, hp, hk⟩ | ⟨p, hp, hk⟩ | ⟨seed, hseed, hpid, huid⟩)
    · obtain ⟨op, hop, hsender⟩ := hheard.held p hp
      exact absurd hk (hblind op hop _ hsender)
    · obtain ⟨op, hop, hsender⟩ := hheard.named p hp
      exact absurd hk (hblind op hop _ hsender)
    · exact ⟨seed, hseed, hpid.symm, huid.symm⟩
  · rintro ⟨seed, hseed, hpid, huid⟩
    exact .inr (.inr ⟨seed, hseed, hpid.symm, huid.symm⟩)

/-- `10.0.0.4:4000`, where `seededNode` serves. -/
def dialerEndpoint : Bytes :=
  [49, 48, 46, 48, 46, 48, 46, 52, 58, 52, 48, 48, 48]

/-- The server's list of peers holds the dialer's endpoint, and the gate turns the
dialer away. -/
theorem passes_gate_seeded_fails :
    ReliableSubscriberConnection.seedConnection ∈
        (ReliableSubscriberConnection.seededNode.reconcileReliableConnections ∅).created ∧
      (fresh ⟨1, 2, 7⟩ { peerEndpoints := [dialerEndpoint] } : Node 1).isKnownParticipant
        ReliableSubscriberConnection.seedConnection.identity = false := by
  decide

theorem passes_gate_iff_seeded :
    ((fresh ⟨1, 2, 7⟩ { peerEndpoints := [dialerEndpoint] } : Node 1).run
        []).isKnownParticipant ReliableSubscriberConnection.seedConnection.identity = true ↔
      ∃ seed ∈ [dialerEndpoint],
        (peerKeyForEndpoint seed).pid =
            ReliableSubscriberConnection.seededNode.selfParticipant.pid.toUInt32 ∧
          (peerKeyForEndpoint seed).uid =
            ReliableSubscriberConnection.seededNode.selfParticipant.uid :=
  passes_gate_iff ReliableSubscriberConnection.seededNode ∅
    ReliableSubscriberConnection.seedConnection_mem_created ⟨1, 2, 7⟩
    { peerEndpoints := [dialerEndpoint] } [] nofun

end Node

end Edriel
