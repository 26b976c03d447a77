import Edriel.ReliableReceiver

namespace Edriel

open Proto3 Std ReliableReceiver

/-- A reliable frame of publisher `uid` with a tid that a publisher stamps. -/
def ParticipantData.IsFrameOf (uid : UInt64) (pd : ParticipantData) : Prop :=
  ∃ d, pd.reliableMessage = some d ∧ d.pubUid = uid ∧ 1 ≤ d.tid

/-- None of the earlier frames is for the topic and message type of `d`. -/
def FirstOfTopic (earlier : List ParticipantData) (d : DataMessage) : Prop :=
  ∀ pd ∈ earlier, ∀ e, pd.reliableMessage = some e →
    ¬ (e.topicName = d.topicName ∧ e.messageType = d.messageType)

/-- The window key of `d` is one that an earlier frame used: the names of the
two topics run together to the same key. -/
def KeyUsed (earlier : List ParticipantData) (d : DataMessage) : Prop :=
  ∃ pd ∈ earlier, ∃ e, pd.reliableMessage = some e ∧ e.windowKey = d.windowKey

def FirstsDelivered (r : ReliableReceiver) (frames : List ParticipantData) : Prop :=
  ∀ before pd after d, frames = before ++ pd :: after → pd.reliableMessage = some d →
    FirstOfTopic before d → d ∈ ((r.readAll before).handleReliableDataFrame pd).1

namespace ReliableReceiver

theorem exists_message {uid : UInt64} {frames : List ParticipantData}
    (hframes : ∀ pd ∈ frames, pd.IsFrameOf uid) {pd : ParticipantData}
    (hpd : pd ∈ frames) {d : DataMessage} (hd : pd.reliableMessage = some d) :
    d.pubUid = uid ∧ 1 ≤ d.tid := by
  obtain ⟨e, he, huid, htid⟩ := hframes pd hpd
  obtain rfl : e = d := Option.some.inj (he.symm.trans hd)
  exact ⟨huid, htid⟩

/-- The first frame of a publisher uses up its marker for good. -/
theorem notMem_fresh_readAll {uid : UInt64} (r : ReliableReceiver)
    {frames : List ParticipantData} (hframes : ∀ pd ∈ frames, pd.IsFrameOf uid)
    (hne : frames ≠ []) : uid ∉ (r.readAll frames).reliableFreshPublishers := by
  obtain ⟨pds, pd, rfl⟩ : ∃ pds pd, frames = pds ++ [pd] :=
    ⟨_, _, (List.dropLast_append_getLast hne).symm⟩
  obtain ⟨d, hd, rfl, -⟩ := hframes pd (by simp)
  rw [readAll_concat, handleReliableDataFrame_of_message hd, mem_fresh_receive]
  exact fun h => h.2 rfl

/-- A window that no frame of its publisher has landed in yet stays as the
stream setup left it: unbaselined when it existed, missing when it did not. -/
theorem getElem?_readAll_note {uid : UInt64} (r : ReliableReceiver) (key : Bytes)
    (frames : List ParticipantData) :
    (∀ pd ∈ frames, pd.IsFrameOf uid) →
    (∀ pd ∈ frames, ∀ e, pd.reliableMessage = some e →
      e.windowKey ≠ windowPrefix uid ++ key) →
    ((r.noteReliableStreamEstablished uid).readAll frames).reliableWindows[
        windowPrefix uid ++ key]? =
      r.reliableWindows[windowPrefix uid ++ key]?.map fun _ => .unbaselined := by
  have hprefix : (windowPrefix uid).isPrefixOf (windowPrefix uid ++ key) = true :=
    (windowPrefix_isPrefixOf_iff uid uid key).mpr rfl
  induction frames using List.reverseRecOn with
  | nil =>
      intro _ _
      change (rebaseline uid r.reliableWindows)[windowPrefix uid ++ key]? = _
      simp only [getElem?_rebaseline, hprefix, if_true]
  | append_singleton pds pd ih =>
      intro hframes hunused
      obtain ⟨d, hd, rfl, -⟩ := hframes pd (by simp)
      have hne := hunused pd (by simp) d hd
      have hbefore := ih (fun x hx => hframes x (by simp [hx]))
        (fun x hx => hunused x (by simp [hx]))
      rw [readAll_concat, handleReliableDataFrame_of_message hd,
        getElem?_receive_of_ne _ hne.symm, hbefore, Option.map_map]
      congr 1
      funext w
      simp

theorem opens_first_iff {uid : UInt64} (r : ReliableReceiver)
    {before : List ParticipantData} (hbefore : ∀ pd ∈ before, pd.IsFrameOf uid)
    (hne : before ≠ []) {d : DataMessage} (huid : d.pubUid = uid) (htid : 1 ≤ d.tid)
    (hunused : ¬ KeyUsed before d) :
    (((r.noteReliableStreamEstablished uid).readAll before).windowMet
        d.pubUid d.windowKey).Opens d.tid ↔
      d.windowKey ∈ r.reliableWindows ∨ d.tid = 1 ∨
        1 + kReliableWindowSize ≤ d.tid := by
  subst huid
  have hused := notMem_fresh_readAll (r.noteReliableStreamEstablished d.pubUid) hbefore hne
  have hwindow : ((r.noteReliableStreamEstablished d.pubUid).readAll
        before).reliableWindows[d.windowKey]? =
      r.reliableWindows[d.windowKey]?.map fun _ => .unbaselined :=
    getElem?_readAll_note r _ before hbefore fun pd hpd e he heq =>
      hunused ⟨pd, hpd, e, he, heq⟩
  rw [windowMet, if_neg hused, hwindow, ← ExtTreeMap.isSome_getElem?_iff_mem]
  cases r.reliableWindows[d.windowKey]? with
  | none =>
      simp only [Option.map_none, Option.getD_none, Option.isSome_none,
        Bool.false_eq_true, false_or]
      exact ReliableRxWindow.opens_default_iff htid
  | some w =>
      simp only [Option.map_some, Option.getD_some, Option.isSome_some, true_or,
        iff_true]
      exact ReliableRxWindow.opens_unbaselined d.tid

end ReliableReceiver

/-- Every topic that first appears behind another one has a window from before
the stream, or starts at the first tid or past the span of a default window.
(Where two topics share a window key, the window the other one left must open.) -/
def LaterTopicsOpen (r : ReliableReceiver) (uid : UInt64)
    (frames : List ParticipantData) : Prop :=
  ∀ before pd after d, frames = before ++ pd :: after → pd.reliableMessage = some d →
    FirstOfTopic before d → before ≠ [] →
      (¬ KeyUsed before d → d.windowKey ∈ r.reliableWindows ∨ d.tid = 1 ∨
        1 + kReliableWindowSize ≤ d.tid) ∧
      (KeyUsed before d →
        (((r.noteReliableStreamEstablished uid).readAll before).windowMet
          uid d.windowKey).Opens d.tid)

/-- After a stream of publisher `uid` is established its very first frame is
always delivered on arrival, and the first frames of the other topics exactly
when these are open to them. -/
theorem firstsDelivered_iff (r : ReliableReceiver) (uid : UInt64)
    (frames : List ParticipantData) (hframes : ∀ pd ∈ frames, pd.IsFrameOf uid) :
    FirstsDelivered (r.noteReliableStreamEstablished uid) frames ↔
      LaterTopicsOpen r uid frames := by
  have harrival : ∀ {before pd after d}, frames = before ++ pd :: after →
      pd.reliableMessage = some d →
        (d ∈ (((r.noteReliableStreamEstablished uid).readAll
            before).handleReliableDataFrame pd).1 ↔
          (((r.noteReliableStreamEstablished uid).readAll before).windowMet
            d.pubUid d.windowKey).Opens d.tid) := by
    intro before pd after d _ hd
    rw [handleReliableDataFrame_of_message hd, mem_receive_iff]
  constructor
  · intro hall before pd after d hsplit hd hfirst hne
    obtain ⟨huid, htid⟩ := exists_message hframes (by simp [hsplit]) hd
    have hopens := (harrival hsplit hd).mp (hall before pd after d hsplit hd hfirst)
    have hbefore : ∀ x ∈ before, x.IsFrameOf uid :=
      fun x hx => hframes x (by simp [hsplit, hx])
    refine ⟨fun hunused => ?_, fun _ => huid ▸ hopens⟩
    exact (opens_first_iff r hbefore hne huid htid hunused).mp hopens
  · intro hcond before pd after d hsplit hd hfirst
    obtain ⟨huid, htid⟩ := exists_message hframes (by simp [hsplit]) hd
    refine (harrival hsplit hd).mpr ?_
    by_cases hne : before = []
    · subst hne huid
      rw [show (r.noteReliableStreamEstablished d.pubUid).readAll [] =
        r.noteReliableStreamEstablished d.pubUid from rfl, windowMet_note_self]
      exact ReliableRxWindow.opens_unbaselined d.tid
    · have hbefore : ∀ x ∈ before, x.IsFrameOf uid :=
        fun x hx => hframes x (by simp [hsplit, hx])
      obtain ⟨hnew, hshared⟩ := hcond before pd after d hsplit hd hfirst hne
      by_cases hused : KeyUsed before d
      · exact huid.symm ▸ hshared hused
      · exact (opens_first_iff r hbefore hne huid htid hused).mpr (hnew hused)

def firstOnA : DataMessage :=
  { identifier := some { pid := 1, tid := 1, uid := 7 }, topicName := [97],
    messageType := [84], payload := [1] }

/-- Its second frame on topic `b`, to a node that was not there for the first. -/
def secondOnB : DataMessage :=
  { identifier := some { pid := 1, tid := 2, uid := 7 }, topicName := [98],
    messageType := [84], payload := [2] }

def lateTopicFrames : List ParticipantData :=
  [reliableFrame firstOnA, reliableFrame secondOnB]

theorem lateTopicFrames_isFrameOf : ∀ pd ∈ lateTopicFrames, pd.IsFrameOf 7 := by
  intro pd hpd
  rcases List.mem_pair.mp hpd with rfl | rfl
  · exact ⟨firstOnA, by decide, by decide, by decide⟩
  · exact ⟨secondOnB, by decide, by decide, by decide⟩

/-- The frame of the second topic is held: the marker went with the first one. -/
theorem firstsDelivered_lateTopic_fails :
    (∀ pd ∈ lateTopicFrames, pd.IsFrameOf 7) ∧
      ¬ FirstsDelivered (({} : ReliableReceiver).noteReliableStreamEstablished 7)
        lateTopicFrames := by
  refine ⟨lateTopicFrames_isFrameOf, fun h => ?_⟩
  have hsecond := h [reliableFrame firstOnA] (reliableFrame secondOnB) [] secondOnB rfl
    (by decide) (by
      intro pd hpd e he
      obtain rfl := List.mem_singleton.mp hpd
      obtain rfl : firstOnA = e := Option.some.inj
        ((show (reliableFrame firstOnA).reliableMessage = some firstOnA by decide).symm.trans he)
      decide)
  revert hsecond
  decide

theorem firstsDelivered_iff_lateTopic :
    FirstsDelivered (({} : ReliableReceiver).noteReliableStreamEstablished 7)
      lateTopicFrames ↔ LaterTopicsOpen {} 7 lateTopicFrames :=
  firstsDelivered_iff {} 7 lateTopicFrames lateTopicFrames_isFrameOf

end Edriel
