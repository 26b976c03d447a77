import Edriel.AutoDiscovery
import Edriel.Lib.Text

namespace Edriel

open Proto3 Std

/-- The ASCII unit separator between topic name and message type. -/
def kTopicKeySeparator : UInt8 := 0x1F

def makeCompositeKey (topicName messageType : Bytes) : Bytes :=
  topicName ++ kTopicKeySeparator :: messageType

/-- The `full_name` of a protobuf descriptor: identifiers joined by dots, so the
separator is not one of its characters. -/
structure MessageName where
  fullName : Bytes
  separator_notMem : kTopicKeySeparator ∉ fullName
deriving DecidableEq

theorem makeCompositeKey_inj {t t' : Bytes} {m m' : MessageName} :
    makeCompositeKey t m.fullName = makeCompositeKey t' m'.fullName ↔
      t = t' ∧ m = m' := by
  constructor
  · intro h
    obtain ⟨htopic, htype⟩ :=
      Text.cut_last m.separator_notMem m'.separator_notMem h
    obtain ⟨fullName, hm⟩ := m
    obtain ⟨fullName', hm'⟩ := m'
    obtain rfl : fullName = fullName' := htype
    exact ⟨htopic, rfl⟩
  · rintro ⟨rfl, rfl⟩
    rfl

def fnvOffset : UInt64 := 14695981039346656037

def fnvPrime : UInt64 := 1099511628211

def fnv1a64 (s : Bytes) : UInt64 :=
  s.foldl (fun h c => (h ^^^ c.toUInt64) * fnvPrime) fnvOffset

/-- The `(pid, tid, uid)` that tells participants apart and orders them. -/
structure Identity where
  pid : UInt64
  tid : UInt64
  uid : UInt64
deriving DecidableEq

instance : Ord Identity where
  compare := compareLex (compareOn Identity.pid)
    (compareLex (compareOn Identity.tid) (compareOn Identity.uid))

instance : TransOrd Identity :=
  inferInstanceAs (TransCmp (compareLex (compareOn Identity.pid)
    (compareLex (compareOn Identity.tid) (compareOn Identity.uid))))

instance : LawfulEqOrd Identity where
  eq_of_compare {a b} h := by
    have hparts : compare a.pid b.pid = .eq ∧ compare a.tid b.tid = .eq ∧
        compare a.uid b.uid = .eq := by
      simpa [compare, compareLex, compareOn, Ordering.then_eq_eq] using h
    obtain ⟨pid, tid, uid⟩ := a
    obtain ⟨pid', tid', uid'⟩ := b
    simp only [LawfulEqOrd.compare_eq_iff_eq] at hparts
    obtain ⟨rfl, rfl, rfl⟩ := hparts
    rfl

/-- The identity a subscriber dials with; it keys its stream on the server. -/
structure SubscriberKey where
  pid : UInt32
  tid : UInt64
  uid : UInt64
deriving DecidableEq

instance : Ord SubscriberKey where
  compare := compareLex (compareOn SubscriberKey.pid)
    (compareLex (compareOn SubscriberKey.tid) (compareOn SubscriberKey.uid))

instance : TransOrd SubscriberKey :=
  inferInstanceAs (TransCmp (compareLex (compareOn SubscriberKey.pid)
    (compareLex (compareOn SubscriberKey.tid) (compareOn SubscriberKey.uid))))

instance : LawfulEqOrd SubscriberKey where
  eq_of_compare {a b} h := by
    have hparts : compare a.pid b.pid = .eq ∧ compare a.tid b.tid = .eq ∧
        compare a.uid b.uid = .eq := by
      simpa [compare, compareLex, compareOn, Ordering.then_eq_eq] using h
    obtain ⟨pid, tid, uid⟩ := a
    obtain ⟨pid', tid', uid'⟩ := b
    simp only [LawfulEqOrd.compare_eq_iff_eq] at hparts
    obtain ⟨rfl, rfl, rfl⟩ := hparts
    rfl

/-- `static_cast<std::uint32_t>` of the pid, as every key on the stream has it. -/
def Identity.subscriberKey (i : Identity) : SubscriberKey :=
  { pid := i.pid.toUInt32, tid := i.tid, uid := i.uid }

def Endpoint.candidate (e : Endpoint) : Bytes :=
  e.address ++ 58 :: Text.decimal e.port.toNat

/-- Advertised endpoints as ordered dial candidates. -/
def endpointCandidates (eps : List Endpoint) : List Bytes :=
  eps.map Endpoint.candidate

def nonzeroPid (pid : UInt32) : UInt32 :=
  if pid = 0 then 1 else pid

def nonzeroUid (uid : UInt64) : UInt64 :=
  if uid = 0 then 1 else uid

/-- The key a static peer endpoint is dialed under: it has no identity of its
own before it is reached, so one is made from the hash of the endpoint text. -/
def peerKeyForEndpoint (endpoint : Bytes) : SubscriberKey :=
  { pid := nonzeroPid ((fnv1a64 endpoint >>> 1).toUInt32)
    tid := 0
    uid := nonzeroUid ((fnv1a64 endpoint <<< 33) ^^^ (fnv1a64 endpoint >>> 31)) }

end Edriel
