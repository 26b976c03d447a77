import Edriel.QosRouting
import Edriel.SubscriberReactor

namespace Edriel

open Proto3 Std

inductive ReliableSendResult where
  | sent
  | backpressured
  | noSubscribers
  | notServing
deriving DecidableEq

/-- The token bucket of the pacing ceiling.  The clock is in nanoseconds, and a
bucket that was never used has its last refill at the epoch. -/
structure TokenBucket where
  tokens : ℚ := 0
  lastRefill : Int := 0

namespace TokenBucket

def primed (b : TokenBucket) (rate : Nat) (now : Int) : TokenBucket :=
  if b.lastRefill = 0 then { tokens := rate, lastRefill := now } else b

/-- Adds what has accrued once it is a whole token, up to one second's worth. -/
def refilled (b : TokenBucket) (rate : Nat) (now : Int) : TokenBucket :=
  let refill : ℚ := (now - b.lastRefill : Int) / 1000000000 * rate
  if 1 ≤ refill then { tokens := min (b.tokens + refill) rate, lastRefill := now } else b

/-- Whether a call at `now` is admitted, and the bucket afterwards. -/
def take (b : TokenBucket) (rate : Nat) (now : Int) : Bool × TokenBucket :=
  let b := (b.primed rate now).refilled rate now
  if b.tokens < 1 then (false, b) else (true, { b with tokens := b.tokens - 1 })

end TokenBucket

def Participant.presence (p : Participant) : ParticipantData :=
  { pid := p.id.pid.toUInt32
    tid := p.id.tid
    uid := p.id.uid
    status := [111, 110, 108, 105, 110, 101]
    endpoints := p.endpoints }

/-- What an outbox holds.  `call` numbers the send that a data frame belongs to;
it does not go on the wire. -/
inductive OutFrame where
  | presence (p : Participant)
  | data (call : Nat) (d : DataMessage)

def OutFrame.IsPresence : OutFrame → Prop
  | .presence _ => True
  | .data _ _ => False

def OutFrame.participantData : OutFrame → ParticipantData
  | .presence p => p.presence
  | .data _ d => reliableFrame d

def DataMessage.key (d : DataMessage) : Bytes :=
  makeCompositeKey d.topicName d.messageType

/-- The frame of a publisher for a topic, under a sequence number. -/
def reliableData (self : Identity) (topicName messageType payload : Bytes)
    (nextSeq : UInt64) : DataMessage :=
  { identifier := some { pid := self.pid.toUInt32, tid := nextSeq, uid := self.uid }
    topicName
    messageType
    payload }

/-- A send whose fan-out is under way.  `number` tells the sends of a node
apart. -/
structure Call where
  number : Nat
  nextSeq : UInt64
  data : DataMessage
  remaining : List Identity
  acceptedAny : Bool := false
  anyLiveBackpressured : Bool := false
  deliverability : ExtTreeMap Bytes OutboxStatus := ∅

/-- `pid:tid:uid`, under which a send reports the status of a subscriber. -/
def SubscriberKey.text (sk : SubscriberKey) : Bytes :=
  Text.decimal sk.pid.toNat ++ 58 :: Text.decimal sk.tid.toNat ++
    58 :: Text.decimal sk.uid.toNat

namespace Call

def noted (c : Call) (sk : SubscriberKey) (status : OutboxStatus) : Call :=
  { c with
    remaining := c.remaining.tail
    acceptedAny := c.acceptedAny || decide (status = .accepted)
    anyLiveBackpressured := c.anyLiveBackpressured || decide (status = .backpressured)
    deliverability := c.deliverability.insert sk.text status }

def result (c : Call) : ReliableSendResult :=
  if c.acceptedAny then .sent
  else if c.anyLiveBackpressured then .backpressured
  else .noSubscribers

end Call

inductive Refusal where
  | notServing
  | paced
  | noSubscribers
  | notSerialised
  | tooLarge
deriving DecidableEq

def Refusal.result : Refusal → ReliableSendResult
  | .notServing => .notServing
  | .paced => .backpressured
  | .noSubscribers => .noSubscribers
  | .notSerialised => .notServing
  | .tooLarge => .notServing

/-- The state that only sends touch.  One send runs at a time, under
`grpcServiceMutex_`; `calls` counts them. -/
structure ReliablePublisher where
  bucket : TokenBucket := {}
  reliablePublisherSeq : ExtTreeMap Bytes UInt64 := ∅
  calls : Nat := 0
  call : Option Call := none

namespace ReliablePublisher

variable {N : Nat} [NeZero N]

def seq (p : ReliablePublisher) (key : Bytes) : UInt64 :=
  p.reliablePublisherSeq[key]?.getD 0

/-- The pacing gate, which is off at rate zero. -/
def pace (p : ReliablePublisher) (rate : Nat) (now : Int) : Bool × ReliablePublisher :=
  if rate = 0 then (true, p)
  else ((p.bucket.take rate now).1, { p with bucket := (p.bucket.take rate now).2 })

/-- The stamping and the checks of a send to known subscribers. -/
def stamp (p : ReliablePublisher) (self : Identity) (topicName messageType payload : Bytes)
    (subscribers : ExtTreeSet Identity) : Except Refusal Call × ReliablePublisher :=
  let key := makeCompositeKey topicName messageType
  let nextSeq := p.seq key + 1
  let data := reliableData self topicName messageType payload nextSeq
  -- looking a key up creates its entry
  let p := { p with reliablePublisherSeq := p.reliablePublisherSeq.insertIfNew key 0 }
  match serializeToString data.toFields with
  | none => (.error .notSerialised, p)
  | some serialized =>
      if recvBufferSize < serialized.length then (.error .tooLarge, p)
      else
        (.ok { number := p.calls, nextSeq, data, remaining := subscribers.toList }, p)

/-- A send up to its fan-out: an early return, or the call to fan out. -/
def offer (p : ReliablePublisher) (n : Node N) (serving : Bool)
    (topicName messageType payload : Bytes) (now : Int) :
    Except Refusal Call × ReliablePublisher :=
  if serving then
    let paced := p.pace n.config.reliableSendRateLimit now
    if paced.1 then
      match n.topic? (makeCompositeKey topicName messageType) with
      | none => (.error .noSubscribers, paced.2)
      | some entry =>
          if entry.subscribers.isEmpty then (.error .noSubscribers, paced.2)
          else paced.2.stamp n.selfParticipant topicName messageType payload entry.subscribers
    else (.error .paced, paced.2)
  else (.error .notServing, p)

/-- The end of a send: the sequence number is committed only when a subscriber
has accepted the frame. -/
def finish (p : ReliablePublisher) (c : Call) : ReliablePublisher :=
  { p with
    call := none
    reliablePublisherSeq :=
      if c.acceptedAny then p.reliablePublisherSeq.insert c.data.key c.nextSeq
      else p.reliablePublisherSeq }

theorem seq_insertIfNew (p : ReliablePublisher) (key key' : Bytes) :
    ({ p with reliablePublisherSeq := p.reliablePublisherSeq.insertIfNew key 0 } :
      ReliablePublisher).seq key' = p.seq key' := by
  simp only [seq, ExtTreeMap.getElem?_insertIfNew, LawfulEqOrd.compare_eq_iff_eq]
  split
  · rename_i hnew
    obtain ⟨rfl, habsent⟩ := hnew
    rw [ExtTreeMap.getElem?_eq_none habsent, Option.getD_some, Option.getD_none]
  · rfl

theorem seq_finish (p : ReliablePublisher) (c : Call) (key : Bytes) :
    (p.finish c).seq key =
      if c.acceptedAny = true ∧ c.data.key = key then c.nextSeq else p.seq key := by
  rw [seq, finish]
  by_cases haccepted : c.acceptedAny = true
  · simp only [haccepted, if_true, true_and, ExtTreeMap.getElem?_insert,
      LawfulEqOrd.compare_eq_iff_eq]
    split <;> rfl
  · rw [if_neg haccepted, if_neg (fun h => haccepted h.1), seq]

@[simp] theorem seq_pace (p : ReliablePublisher) (rate : Nat) (now : Int) (key : Bytes) :
    (p.pace rate now).2.seq key = p.seq key := by
  rw [pace]
  split <;> rfl

@[simp] theorem calls_pace (p : ReliablePublisher) (rate : Nat) (now : Int) :
    (p.pace rate now).2.calls = p.calls := by
  rw [pace]
  split <;> rfl

@[simp] theorem call_pace (p : ReliablePublisher) (rate : Nat) (now : Int) :
    (p.pace rate now).2.call = p.call := by
  rw [pace]
  split <;> rfl

/-- What a send has fixed when its fan-out starts. -/
structure Opening (p : ReliablePublisher) (n : Node N) (topicName messageType payload : Bytes)
    (c : Call) : Prop where
  number : c.number = p.calls
  nextSeq : c.nextSeq = p.seq c.data.key + 1
  data : c.data = reliableData n.selfParticipant topicName messageType payload c.nextSeq
  recorded : ∃ entry, n.topic? c.data.key = some entry ∧
    c.remaining = entry.subscribers.toList
  fits : (serialize c.data.toFields).length ≤ recvBufferSize
  untouched : c.acceptedAny = false ∧ c.anyLiveBackpressured = false

theorem stamp_eq {p p' : ReliablePublisher} {self : Identity}
    {topicName messageType payload : Bytes} {subscribers : ExtTreeSet Identity}
    {result : Except Refusal Call}
    (h : p.stamp self topicName messageType payload subscribers = (result, p')) :
    p' = { p with reliablePublisherSeq :=
      p.reliablePublisherSeq.insertIfNew (makeCompositeKey topicName messageType) 0 } := by
  simp only [stamp] at h
  split at h
  · exact (Prod.mk.inj h).2.symm
  · split at h
    · exact (Prod.mk.inj h).2.symm
    · exact (Prod.mk.inj h).2.symm

theorem opening_stamp {p p' : ReliablePublisher} {n : Node N} {entry : TopicEntry}
    {topicName messageType payload : Bytes} {c : Call}
    (hentry : n.topic? (makeCompositeKey topicName messageType) = some entry)
    (h : p.stamp n.selfParticipant topicName messageType payload entry.subscribers =
      (.ok c, p')) : Opening p n topicName messageType payload c := by
  simp only [stamp] at h
  split at h
  · cases (Prod.mk.inj h).1
  · rename_i serialized hserialized
    split at h
    · cases (Prod.mk.inj h).1
    · rename_i hfits
      obtain rfl := Except.ok.inj (Prod.mk.inj h).1
      rw [serializeToString] at hserialized
      split at hserialized
      · obtain rfl := Option.some.inj hserialized
        exact ⟨rfl, rfl, rfl, ⟨entry, hentry, rfl⟩, Nat.not_lt.mp hfits, rfl, rfl⟩
      · cases hserialized

structure SameSeqs (p p' : ReliablePublisher) : Prop where
  seq : ∀ key, p'.seq key = p.seq key
  calls : p'.calls = p.calls
  call : p'.call = p.call

theorem sameSeqs_offer {p p' : ReliablePublisher} {n : Node N} {serving : Bool}
    {topicName messageType payload : Bytes} {now : Int} {result : Except Refusal Call}
    (h : p.offer n serving topicName messageType payload now = (result, p')) :
    SameSeqs p p' := by
  have hpaced : SameSeqs p (p.pace n.config.reliableSendRateLimit now).2 :=
    ⟨p.seq_pace _ now, p.calls_pace _ now, p.call_pace _ now⟩
  simp only [offer] at h
  split at h
  · split at h
    · split at h
      · obtain ⟨-, rfl⟩ := Prod.mk.inj h
        exact hpaced
      · split at h
        · obtain ⟨-, rfl⟩ := Prod.mk.inj h
          exact hpaced
        · obtain rfl := stamp_eq h
          exact ⟨fun key => (seq_insertIfNew _ _ key).trans (hpaced.seq key),
            hpaced.calls, hpaced.call⟩
    · obtain ⟨-, rfl⟩ := Prod.mk.inj h
      exact hpaced
  · obtain ⟨-, rfl⟩ := Prod.mk.inj h
    exact ⟨fun _ => rfl, rfl, rfl⟩

theorem opening_of_offer {p p' : ReliablePublisher} {n : Node N} {serving : Bool}
    {topicName messageType payload : Bytes} {now : Int} {c : Call}
    (h : p.offer n serving topicName messageType payload now = (.ok c, p')) :
    Opening p n topicName messageType payload c := by
  simp only [offer] at h
  split at h
  · split at h
    · split at h
      · cases (Prod.mk.inj h).1
      · rename_i entry hentry
        split at h
        · cases (Prod.mk.inj h).1
        · obtain ⟨hnumber, hnextSeq, hdata, hrecorded, hfits, huntouched⟩ :=
            opening_stamp hentry h
          rw [calls_pace] at hnumber
          rw [seq_pace] at hnextSeq
          exact ⟨hnumber, hnextSeq, hdata, hrecorded, hfits, huntouched⟩
    · cases (Prod.mk.inj h).1
  · cases (Prod.mk.inj h).1

end ReliablePublisher

end Edriel
