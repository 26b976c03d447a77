import Edriel.Identity

namespace Edriel

open Proto3 Std

def kReliableWindowSize : Nat := 256

def DataMessage.pubUid (d : DataMessage) : UInt64 :=
  (d.identifier.getD {}).uid

def DataMessage.tid (d : DataMessage) : Nat :=
  (d.identifier.getD {}).tid.toNat

/-- `nextExpected` is the next contiguous tid; zero marks a window that the next
frame baselines.  Frames past a gap wait in `buffer` by tid. -/
structure ReliableRxWindow where
  nextExpected : Nat := 1
  buffer : ExtTreeMap Nat DataMessage := ∅

namespace ReliableRxWindow

/-- A window whose next frame is delivered whatever its tid. -/
def unbaselined : ReliableRxWindow :=
  { nextExpected := 0, buffer := ∅ }

def bump (n : Nat) : Nat :=
  if n < 2 ^ 64 - 1 then n + 1 else n

/-- `nextExpected` after the buffered frames are flushed in ascending order,
absorbing the holes between them. -/
def flushed (n : Nat) (held : List (Nat × DataMessage)) : Nat :=
  held.foldl (fun n e => bump (max n e.1)) n

/-- Dispatches `m`, whose tid is `w.nextExpected`, and the whole buffer behind it. -/
def deliver (w : ReliableRxWindow) (m : DataMessage) :
    List DataMessage × ReliableRxWindow :=
  (m :: w.buffer.toList.map (·.2),
    { nextExpected := flushed (bump w.nextExpected) w.buffer.toList })

def receive (w : ReliableRxWindow) (m : DataMessage) :
    List DataMessage × ReliableRxWindow :=
  if w.nextExpected = 0 then
    { w with nextExpected := m.tid }.deliver m
  else if m.tid = w.nextExpected then
    w.deliver m
  else if w.nextExpected < m.tid then
    if m.tid - w.nextExpected < kReliableWindowSize ∧
        w.buffer.size < kReliableWindowSize then
      -- an ordinary reordering cannot be told from a gap, so the frame is held
      ([], { w with buffer := w.buffer.insertIfNew m.tid m })
    else if kReliableWindowSize ≤ m.tid - w.nextExpected ∧ w.buffer.isEmpty then
      { w with nextExpected := m.tid }.deliver m
    else
      ([], w)
  else
    ([], w)

/-- When a frame with this tid is delivered on arrival. -/
def Opens (w : ReliableRxWindow) (tid : Nat) : Prop :=
  w.nextExpected = 0 ∨ tid = w.nextExpected ∨
    (w.nextExpected + kReliableWindowSize ≤ tid ∧ w.buffer.isEmpty = true)

instance (w : ReliableRxWindow) (tid : Nat) : Decidable (w.Opens tid) :=
  inferInstanceAs (Decidable (_ ∨ _))

theorem mem_deliver (w : ReliableRxWindow) (m : DataMessage) : m ∈ (w.deliver m).1 :=
  List.mem_cons_self

theorem mem_receive_iff (w : ReliableRxWindow) (m : DataMessage) :
    m ∈ (w.receive m).1 ↔ w.Opens m.tid := by
  rw [receive, Opens]
  split_ifs with hbase hnext hlate hheld hgap
  · exact iff_of_true (mem_deliver _ m) (.inl hbase)
  · exact iff_of_true (mem_deliver _ m) (.inr (.inl hnext))
  · refine iff_of_false List.not_mem_nil ?_
    rintro (h | h | ⟨h, -⟩) <;> omega
  · exact iff_of_true (mem_deliver _ m) (.inr (.inr ⟨by omega, hgap.2⟩))
  · refine iff_of_false List.not_mem_nil ?_
    rintro (h | h | ⟨h, hempty⟩)
    · exact hbase h
    · exact hnext h
    · exact hgap ⟨by omega, hempty⟩
  · refine iff_of_false List.not_mem_nil ?_
    rintro (h | h | ⟨h, -⟩) <;> omega

theorem opens_unbaselined (tid : Nat) : unbaselined.Opens tid :=
  .inl rfl

/-- A window that a frame creates expects the first tid of its publisher. -/
theorem opens_default_iff {tid : Nat} (hpos : 1 ≤ tid) :
    ({} : ReliableRxWindow).Opens tid ↔
      tid = 1 ∨ 1 + kReliableWindowSize ≤ tid := by
  have hempty : (∅ : ExtTreeMap Nat DataMessage).isEmpty = true := rfl
  simp only [Opens, hempty, and_true]
  omega

end ReliableRxWindow

structure ReliableReceiver where
  reliableWindows : ExtTreeMap Bytes ReliableRxWindow := ∅
  reliableFreshPublishers : ExtTreeSet UInt64 := ∅

/-- `std::to_string(uid) + "|"`, in front of every window key of a publisher. -/
def windowPrefix (uid : UInt64) : Bytes :=
  Text.decimal uid.toNat ++ [124]

def DataMessage.windowKey (d : DataMessage) : Bytes :=
  windowPrefix d.pubUid ++ makeCompositeKey d.topicName d.messageType

theorem windowPrefix_isPrefixOf_iff (uid uid' : UInt64) (key : Bytes) :
    (windowPrefix uid).isPrefixOf (windowPrefix uid' ++ key) = true ↔ uid = uid' := by
  rw [windowPrefix, windowPrefix, List.append_assoc, List.singleton_append,
    Text.decimal_isPrefixOf_iff (by decide), UInt64.toNat_inj]

/-- The message a reliable frame carries.  A presence frame carries none, and an
undecodable one is dropped. -/
def ParticipantData.reliableMessage (pd : ParticipantData) : Option DataMessage :=
  if pd.reliableData = [] then none else DataMessage.parse pd.reliableData

namespace ReliableReceiver

/-- Resets every window of a publisher to the unbaselined state. -/
def rebaseline (uid : UInt64) (windows : ExtTreeMap Bytes ReliableRxWindow) :
    ExtTreeMap Bytes ReliableRxWindow :=
  windows.map fun key w =>
    if (windowPrefix uid).isPrefixOf key then .unbaselined else w

/-- A dial to `publisherUid` has opened a stream. -/
def noteReliableStreamEstablished (r : ReliableReceiver) (publisherUid : UInt64) :
    ReliableReceiver :=
  { reliableWindows := rebaseline publisherUid r.reliableWindows
    reliableFreshPublishers := r.reliableFreshPublishers.insert publisherUid }

/-- The window a frame meets: the first frame of a fresh publisher resets the
window it lands in, and a missing one is created with its default. -/
def windowMet (r : ReliableReceiver) (uid : UInt64) (key : Bytes) : ReliableRxWindow :=
  if uid ∈ r.reliableFreshPublishers then .unbaselined
  else r.reliableWindows[key]?.getD {}

def receive (r : ReliableReceiver) (d : DataMessage) :
    List DataMessage × ReliableReceiver :=
  let windows :=
    if d.pubUid ∈ r.reliableFreshPublishers then rebaseline d.pubUid r.reliableWindows
    else r.reliableWindows
  let result := (r.windowMet d.pubUid d.windowKey).receive d
  (result.1,
    { reliableWindows := windows.insert d.windowKey result.2
      reliableFreshPublishers := r.reliableFreshPublishers.erase d.pubUid })

/-- Handles a frame read from a publisher's stream: the messages dispatched to
the local callbacks, and the receiver afterwards. -/
def handleReliableDataFrame (r : ReliableReceiver) (pd : ParticipantData) :
    List DataMessage × ReliableReceiver :=
  match pd.reliableMessage with
  | none => ([], r)
  | some d => r.receive d

/-- The receiver after the frames of a stream have been read in order. -/
def readAll (r : ReliableReceiver) (frames : List ParticipantData) : ReliableReceiver :=
  frames.foldl (fun r pd => (r.handleReliableDataFrame pd).2) r

/-- `removeTimedOutParticipants`, phase 3: a stale publisher's windows go. -/
def prune (r : ReliableReceiver) (uid : UInt64) : ReliableReceiver :=
  { r with
    reliableWindows := r.reliableWindows.filter fun key _ =>
      !(windowPrefix uid).isPrefixOf key }

theorem getElem?_rebaseline (uid : UInt64) (windows : ExtTreeMap Bytes ReliableRxWindow)
    (key : Bytes) :
    (rebaseline uid windows)[key]? =
      windows[key]?.map fun w =>
        if (windowPrefix uid).isPrefixOf key then .unbaselined else w := by
  rw [rebaseline, ExtTreeMap.getElem?_map]

theorem handleReliableDataFrame_of_message {r : ReliableReceiver} {pd : ParticipantData}
    {d : DataMessage} (h : pd.reliableMessage = some d) :
    r.handleReliableDataFrame pd = r.receive d := by
  rw [handleReliableDataFrame, h]

theorem readAll_append (r : ReliableReceiver) (xs ys : List ParticipantData) :
    r.readAll (xs ++ ys) = (r.readAll xs).readAll ys :=
  List.foldl_append

theorem readAll_concat (r : ReliableReceiver) (xs : List ParticipantData)
    (pd : ParticipantData) :
    r.readAll (xs ++ [pd]) = ((r.readAll xs).handleReliableDataFrame pd).2 :=
  readAll_append r xs [pd]

/-- A frame is delivered on arrival exactly when the window it meets opens for
its tid. -/
theorem mem_receive_iff (r : ReliableReceiver) (d : DataMessage) :
    d ∈ (r.receive d).1 ↔ (r.windowMet d.pubUid d.windowKey).Opens d.tid :=
  ReliableRxWindow.mem_receive_iff _ d

/-- A frame uses up the marker of its publisher and leaves the others. -/
theorem mem_fresh_receive (r : ReliableReceiver) (d : DataMessage) (uid : UInt64) :
    uid ∈ (r.receive d).2.reliableFreshPublishers ↔
      uid ∈ r.reliableFreshPublishers ∧ uid ≠ d.pubUid := by
  have herase : uid ∈ (r.receive d).2.reliableFreshPublishers ↔
      d.pubUid ≠ uid ∧ uid ∈ r.reliableFreshPublishers := by
    rw [receive, ExtTreeSet.mem_erase, ne_eq, LawfulEqOrd.compare_eq_iff_eq]
  rw [herase, and_comm, ne_comm]

theorem getElem?_receive_self (r : ReliableReceiver) (d : DataMessage) :
    (r.receive d).2.reliableWindows[d.windowKey]? =
      some ((r.windowMet d.pubUid d.windowKey).receive d).2 := by
  rw [receive, ExtTreeMap.getElem?_insert_self]

theorem getElem?_receive_of_ne (r : ReliableReceiver) {d : DataMessage} {key : Bytes}
    (hne : key ≠ d.windowKey) :
    (r.receive d).2.reliableWindows[key]? =
      r.reliableWindows[key]?.map fun w =>
        if d.pubUid ∈ r.reliableFreshPublishers ∧
            (windowPrefix d.pubUid).isPrefixOf key then .unbaselined else w := by
  rw [receive, ExtTreeMap.getElem?_insert,
    if_neg (LawfulEqOrd.compare_eq_iff_eq.not.mpr hne.symm)]
  split
  · rename_i hfresh
    simp only [getElem?_rebaseline, hfresh, true_and]
  · rename_i hfresh
    simp [hfresh]

theorem windowMet_receive_self (r : ReliableReceiver) (d : DataMessage) :
    (r.receive d).2.windowMet d.pubUid d.windowKey =
      ((r.windowMet d.pubUid d.windowKey).receive d).2 := by
  have hused : d.pubUid ∉ (r.receive d).2.reliableFreshPublishers := by
    simp [mem_fresh_receive]
  rw [windowMet, if_neg hused, getElem?_receive_self, Option.getD_some]

theorem windowMet_note_self (r : ReliableReceiver) (uid : UInt64) (key : Bytes) :
    (r.noteReliableStreamEstablished uid).windowMet uid key = .unbaselined := by
  have hfresh : uid ∈ (r.noteReliableStreamEstablished uid).reliableFreshPublishers := by
    rw [noteReliableStreamEstablished, ExtTreeSet.mem_insert,
      LawfulEqOrd.compare_eq_iff_eq]
    exact .inl rfl
  rw [windowMet, if_pos hfresh]

end ReliableReceiver

end Edriel
