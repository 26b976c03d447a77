import Edriel.Straggler

namespace Edriel

open Proto3 Std

namespace ReliableRxWindow

def Drops (w : ReliableRxWindow) (m : DataMessage) : Prop :=
  w.receive m = ([], w)

/-- What can become of an arriving frame. -/
inductive Arrival (w : ReliableRxWindow) (m : DataMessage) :
    List DataMessage × ReliableRxWindow → Prop where
  | dropped : Arrival w m ([], w)
  | held (hnew : w.buffer[m.tid]? = none) (hlate : w.nextExpected < m.tid)
      (hnear : m.tid < w.nextExpected + kReliableWindowSize) (hbase : w.nextExpected ≠ 0) :
      Arrival w m ([], { w with buffer := w.buffer.insert m.tid m })
  | delivered (hle : w.nextExpected ≤ m.tid)
      (hnext : m.tid = w.nextExpected ∨ w.buffer = ∅) :
      Arrival w m ({ w with nextExpected := m.tid }.deliver m)

theorem arrival_receive {w : ReliableRxWindow} (h : w.Ahead) (m : DataMessage) :
    Arrival w m (w.receive m) := by
  rw [receive]
  split_ifs with hbase hnext hlate hheld hgap
  · exact .delivered (by omega) (.inr (h.unbaselined hbase))
  · have hdelivered := Arrival.delivered (w := w) hnext.ge (.inl hnext)
    rw [hnext] at hdelivered
    exact hdelivered
  · cases hold : w.buffer[m.tid]? with
    | none =>
        have hnotMem : m.tid ∉ w.buffer := by
          rw [← ExtTreeMap.isSome_getElem?_iff_mem, hold]
          exact Bool.false_ne_true
        have hinsert : w.buffer.insertIfNew m.tid m = w.buffer.insert m.tid m := by
          apply ExtTreeMap.ext_getElem?
          intro tid
          rw [ExtTreeMap.getElem?_insertIfNew, ExtTreeMap.getElem?_insert]
          simp only [hnotMem, not_false_eq_true, and_true]
        rw [hinsert]
        exact .held hold hlate (by omega) hbase
    | some a =>
        have hmem : m.tid ∈ w.buffer := by
          rw [← ExtTreeMap.isSome_getElem?_iff_mem, hold]
          rfl
        have hinsert : w.buffer.insertIfNew m.tid m = w.buffer := by
          apply ExtTreeMap.ext_getElem?
          intro tid
          rw [ExtTreeMap.getElem?_insertIfNew]
          split
          · rename_i hkey
            obtain rfl := LawfulEqOrd.compare_eq_iff_eq.mp hkey.1
            exact absurd hmem hkey.2
          · rfl
        rw [hinsert]
        exact .dropped
  · exact .delivered (by omega) (.inr (ExtTreeMap.isEmpty_iff.mp hgap.2))
  · exact .dropped
  · exact .dropped

/-- The frames that wait are less than a window ahead. -/
def Within (w : ReliableRxWindow) : Prop :=
  ∀ tid ∈ w.buffer, w.nextExpected < tid ∧ tid < w.nextExpected + kReliableWindowSize

theorem within_empty (n : Nat) : Within { nextExpected := n } := by
  intro tid htid
  exact absurd htid ExtTreeMap.not_mem_empty

theorem Within.receive {w : ReliableRxWindow} (h : w.Ahead) (hwithin : w.Within)
    (m : DataMessage) : (w.receive m).2.Within := by
  have harrival := arrival_receive h m
  revert harrival
  generalize w.receive m = out
  intro harrival
  cases harrival with
  | dropped => exact hwithin
  | held hnew hlate hnear hbase =>
      intro tid htid
      rcases ExtTreeMap.mem_insert.mp htid with hkey | hold
      · obtain rfl := LawfulEqOrd.compare_eq_iff_eq.mp hkey
        exact ⟨hlate, hnear⟩
      · exact hwithin tid hold
  | delivered hle hnext => exact within_empty _

theorem Within.size_lt {w : ReliableRxWindow} (h : w.Within) :
    w.buffer.size < kReliableWindowSize := by
  have hsubset : w.buffer.keys.toFinset ⊆
      Finset.Ioo w.nextExpected (w.nextExpected + kReliableWindowSize) := by
    intro tid htid
    rw [List.mem_toFinset, ExtTreeMap.mem_keys] at htid
    exact Finset.mem_Ioo.mpr (h tid htid)
  have hcard := Finset.card_le_card hsubset
  rw [List.toFinset_card_of_nodup ExtTreeMap.nodup_keys, ExtTreeMap.length_keys,
    Nat.card_Ioo] at hcard
  have hwidth : 0 < kReliableWindowSize := by decide
  omega

/-- What comes out or waits afterwards has waited before or is the new frame, which then is
the only one of its tid. -/
theorem origin_receive {w : ReliableRxWindow} (h : w.Ahead) (m : DataMessage)
    {a : DataMessage}
    (ha : a ∈ (w.receive m).1 ∨ (w.receive m).2.buffer[a.tid]? = some a) :
    w.buffer[a.tid]? = some a ∨
      (a = m ∧ w.nextExpected ≤ m.tid ∧ w.buffer[m.tid]? = none ∧ ¬ w.Drops m) := by
  have harrival := arrival_receive h m
  rw [Drops]
  revert ha harrival
  generalize w.receive m = out
  intro ha harrival
  cases harrival with
  | dropped => exact .inl (ha.resolve_left List.not_mem_nil)
  | held hnew hlate hnear hbase =>
      have hentry := ha.resolve_left List.not_mem_nil
      rw [ExtTreeMap.getElem?_insert] at hentry
      split at hentry
      · obtain rfl := Option.some.inj hentry
        refine .inr ⟨rfl, hlate.le, hnew, ?_⟩
        intro hsame
        have hbuffer := congrArg (fun out => out.2.buffer[m.tid]?) hsame
        simp [hnew] at hbuffer
      · exact .inl hentry
  | delivered hle hnext =>
      have hnone : ∀ n : Nat, ({ nextExpected := n } : ReliableRxWindow).buffer[a.tid]? ≠
          some a := by
        intro n
        rw [ExtTreeMap.getElem?_empty]
        exact nofun
      have hmem := ha.resolve_right (hnone _)
      rcases List.mem_cons.mp hmem with rfl | hheld
      · refine .inr ⟨rfl, hle, ?_, nofun⟩
        rcases hnext with heq | hempty
        · cases hentry : w.buffer[a.tid]? with
          | none => rfl
          | some b =>
              have hlater := (h.waiting _ b hentry).2
              omega
        · rw [hempty, ExtTreeMap.getElem?_empty]
      · obtain ⟨⟨tid, b⟩, hentry, rfl⟩ := List.mem_map.mp hheld
        have hwaits := ExtTreeMap.mem_toList_iff_getElem?_eq_some.mp hentry
        rw [← (h.waiting tid b hwaits).1] at hwaits
        exact .inl hwaits

/-- What waits comes out or waits on, and so does the new frame unless it is dropped. -/
theorem kept_receive {w : ReliableRxWindow} (h : w.Ahead) (m : DataMessage)
    {a : DataMessage}
    (ha : w.buffer[a.tid]? = some a ∨ (a = m ∧ ¬ w.Drops m)) :
    a ∈ (w.receive m).1 ∨ (w.receive m).2.buffer[a.tid]? = some a := by
  have harrival := arrival_receive h m
  rw [Drops] at ha
  revert ha harrival
  generalize w.receive m = out
  intro ha harrival
  cases harrival with
  | dropped =>
      rcases ha with hwaits | ⟨-, hkept⟩
      · exact .inr hwaits
      · exact absurd rfl hkept
  | held hnew hlate hnear hbase =>
      right
      rcases ha with hwaits | ⟨rfl, -⟩
      · have hne : m.tid ≠ a.tid := by
          intro heq
          rw [heq, hwaits] at hnew
          cases hnew
        rw [ExtTreeMap.getElem?_insert, if_neg (LawfulEqOrd.compare_eq_iff_eq.not.mpr hne)]
        exact hwaits
      · exact ExtTreeMap.getElem?_insert_self
  | delivered hle hnext =>
      left
      rcases ha with hwaits | ⟨rfl, -⟩
      · exact List.mem_cons_of_mem _ (List.mem_map_of_mem
          (ExtTreeMap.mem_toList_iff_getElem?_eq_some.mpr hwaits))
      · exact mem_deliver _ a

end ReliableRxWindow

/-- All frames carry messages of one topic of one publisher. -/
def OfTopic (uid : UInt64) (topicName messageType : Bytes) (frames : List ParticipantData) :
    Prop :=
  ∀ pd ∈ frames, ∃ d, pd.reliableMessage = some d ∧
    d.pubUid = uid ∧ d.topicName = topicName ∧ d.messageType = messageType

/-- No frame has the last tid, behind which `nextExpected` cannot be set. -/
def BelowLast (frames : List ParticipantData) : Prop :=
  ∀ pd ∈ frames, ∀ d, pd.reliableMessage = some d → d.tid < 2 ^ 64 - 1

namespace ReliableReceiver

def dispatchAll (r : ReliableReceiver) : List ParticipantData → List DataMessage
  | [] => []
  | pd :: frames =>
      (r.handleReliableDataFrame pd).1 ++ (r.handleReliableDataFrame pd).2.dispatchAll frames

theorem dispatchAll_append (r : ReliableReceiver) (xs ys : List ParticipantData) :
    r.dispatchAll (xs ++ ys) = r.dispatchAll xs ++ (r.readAll xs).dispatchAll ys := by
  induction xs generalizing r with
  | nil => rfl
  | cons pd xs ih =>
      rw [List.cons_append, dispatchAll, dispatchAll, ih, List.append_assoc]
      rfl

theorem dispatchAll_concat (r : ReliableReceiver) (xs : List ParticipantData)
    (pd : ParticipantData) :
    r.dispatchAll (xs ++ [pd]) =
      r.dispatchAll xs ++ ((r.readAll xs).handleReliableDataFrame pd).1 := by
  rw [dispatchAll_append, dispatchAll, dispatchAll, List.append_nil]

def topicWindow (r : ReliableReceiver) (uid : UInt64) (topicName messageType : Bytes) :
    ReliableRxWindow :=
  r.windowMet uid (windowPrefix uid ++ makeCompositeKey topicName messageType)

/-- The frame that brings `d` is the first of its tid that the window does not drop. -/
def FirstKept (r : ReliableReceiver) (uid : UInt64) (topicName messageType : Bytes)
    (frames : List ParticipantData) (d : DataMessage) : Prop :=
  ∃ before pd after, frames = before ++ pd :: after ∧ pd.reliableMessage = some d ∧
    ¬ ((r.readAll before).topicWindow uid topicName messageType).Drops d ∧
    ∀ b pd' b' d', before = b ++ pd' :: b' → pd'.reliableMessage = some d' →
      d'.tid = d.tid → ((r.readAll b).topicWindow uid topicName messageType).Drops d'

variable {uid : UInt64} {topicName messageType : Bytes} {r : ReliableReceiver}
  {frames : List ParticipantData}

theorem FirstKept.append {d : DataMessage}
    (h : FirstKept r uid topicName messageType frames d) (more : List ParticipantData) :
    FirstKept r uid topicName messageType (frames ++ more) d := by
  obtain ⟨before, pd, after, rfl, hrest⟩ := h
  refine ⟨before, pd, after ++ more, ?_, hrest⟩
  rw [List.append_assoc, List.cons_append]

/-- What holds after any number of frames of a topic. -/
structure Sorting (r : ReliableReceiver) (uid : UInt64) (topicName messageType : Bytes)
    (frames : List ParticipantData) : Prop where
  ahead : ((r.readAll frames).topicWindow uid topicName messageType).Ahead
  within : ((r.readAll frames).topicWindow uid topicName messageType).Within
  ascending : (r.dispatchAll frames).Pairwise DataMessage.Before
  passed : ∀ d ∈ r.dispatchAll frames,
    d.tid < ((r.readAll frames).topicWindow uid topicName messageType).nextExpected
  /-- Whatever has come out or still waits was the first of its tid to be kept. -/
  first : ∀ d, d ∈ r.dispatchAll frames ∨
      ((r.readAll frames).topicWindow uid topicName messageType).buffer[d.tid]? = some d →
    FirstKept r uid topicName messageType frames d
  kept : ∀ before pd after d, frames = before ++ pd :: after → pd.reliableMessage = some d →
    ¬ ((r.readAll before).topicWindow uid topicName messageType).Drops d →
    d ∈ r.dispatchAll frames ∨
      ((r.readAll frames).topicWindow uid topicName messageType).buffer[d.tid]? = some d

theorem handle_of_topic (r : ReliableReceiver) {pd : ParticipantData} {d : DataMessage}
    (hd : pd.reliableMessage = some d) (huid : d.pubUid = uid)
    (hname : d.topicName = topicName) (htype : d.messageType = messageType) :
    (r.handleReliableDataFrame pd).1 =
        ((r.topicWindow uid topicName messageType).receive d).1 ∧
      (r.handleReliableDataFrame pd).2.topicWindow uid topicName messageType =
        ((r.topicWindow uid topicName messageType).receive d).2 := by
  subst huid hname htype
  rw [handleReliableDataFrame_of_message hd]
  exact ⟨rfl, windowMet_receive_self r d⟩

theorem sorting_nil (hstart : r.topicWindow uid topicName messageType = {} ∨
    r.topicWindow uid topicName messageType = .unbaselined) :
    Sorting r uid topicName messageType [] := by
  obtain ⟨n, hn⟩ : ∃ n : Nat, r.topicWindow uid topicName messageType = { nextExpected := n } := by
    rcases hstart with h | h
    · exact ⟨1, h⟩
    · exact ⟨0, h⟩
  have hwindow : (r.readAll []).topicWindow uid topicName messageType = { nextExpected := n } := hn
  refine ⟨?_, ?_, .nil, List.forall_mem_nil _, ?_, ?_⟩
  · rw [hwindow]
    exact ReliableRxWindow.ahead_empty n
  · rw [hwindow]
    exact ReliableRxWindow.within_empty n
  · rintro d (hd | hd)
    · cases hd
    · rw [hwindow, ExtTreeMap.getElem?_empty] at hd
      cases hd
  · intro before pd after d hsplit
    simp at hsplit

theorem Sorting.step (h : Sorting r uid topicName messageType frames) {pd : ParticipantData}
    (hframes : OfTopic uid topicName messageType (frames ++ [pd]))
    (hlast : BelowLast (frames ++ [pd])) :
    Sorting r uid topicName messageType (frames ++ [pd]) := by
  obtain ⟨d, hd, huid, hname, htype⟩ := hframes pd (by simp)
  obtain ⟨hout, hwindow⟩ := handle_of_topic (r.readAll frames) hd huid hname htype
  rw [← readAll_concat] at hwindow
  have hdispatch := (dispatchAll_concat r frames pd).trans (congrArg _ hout)
  have hresult := ReliableRxWindow.dispatched_receive h.ahead d
  have hfirst : ∀ a, a ∈ r.dispatchAll (frames ++ [pd]) ∨
      ((r.readAll (frames ++ [pd])).topicWindow uid topicName
        messageType).buffer[a.tid]? = some a →
      FirstKept r uid topicName messageType (frames ++ [pd]) a := by
    intro a ha
    rw [hdispatch, hwindow, List.mem_append, or_assoc] at ha
    rcases ha with hearlier | ha
    · exact (h.first a (.inl hearlier)).append _
    · rcases ReliableRxWindow.origin_receive h.ahead d ha with hwaits | ⟨rfl, hle, hnew, hkept⟩
      · exact (h.first a (.inr hwaits)).append _
      · refine ⟨frames, pd, [], rfl, hd, hkept, ?_⟩
        intro b pd' b' d' hsplit hd' htid
        by_contra hdrops
        rcases h.kept b pd' b' d' hsplit hd' hdrops with hout | hwaits
        · have hpassed := h.passed d' hout
          omega
        · rw [htid, hnew] at hwaits
          cases hwaits
  refine ⟨hwindow ▸ hresult.ahead, hwindow ▸ h.within.receive h.ahead d, ?_, ?_, hfirst, ?_⟩
  · rw [hdispatch]
    refine List.pairwise_append.mpr ⟨h.ascending, hresult.ascending, ?_⟩
    intro a ha b hb
    have hpassed := h.passed a ha
    have hfresh := hresult.fresh b hb
    rw [DataMessage.Before]
    omega
  · intro a ha
    obtain ⟨before, pd', after, hsplit, hmessage, -⟩ := hfirst a (.inl ha)
    have hbelow := hlast pd' (by simp [hsplit]) a hmessage
    rw [hdispatch] at ha
    rw [hwindow]
    rcases List.mem_append.mp ha with hearlier | hnow
    · exact (h.passed a hearlier).trans_le hresult.mono
    · have hpassed := hresult.passed a hnow
      rw [ReliableRxWindow.Passed] at hpassed
      omega
  · intro before pd' after d' hsplit hd' hkept
    rw [hdispatch, hwindow, List.mem_append, or_assoc]
    rcases after.eq_nil_or_concat with rfl | ⟨after, pd'', rfl⟩
    · obtain ⟨rfl, hlastPd⟩ := List.append_inj' hsplit rfl
      obtain rfl := (List.cons.inj hlastPd).1
      obtain rfl := Option.some.inj (hd.symm.trans hd')
      exact .inr (ReliableRxWindow.kept_receive h.ahead d (.inr ⟨rfl, hkept⟩))
    · rw [List.concat_eq_append, ← List.cons_append, ← List.append_assoc] at hsplit
      obtain ⟨hearlier, -⟩ := List.append_inj' hsplit rfl
      rcases h.kept before pd' after d' hearlier hd' hkept with hout | hwaits
      · exact .inl hout
      · exact .inr (ReliableRxWindow.kept_receive h.ahead d (.inl hwaits))

theorem sorting (hframes : OfTopic uid topicName messageType frames)
    (hlast : BelowLast frames) (hstart : r.topicWindow uid topicName messageType = {} ∨
      r.topicWindow uid topicName messageType = .unbaselined) :
    Sorting r uid topicName messageType frames := by
  induction frames using List.reverseRecOn with
  | nil => exact sorting_nil hstart
  | append_singleton frames pd ih =>
      apply (ih ?_ ?_).step hframes hlast
      · intro pd' hpd'
        exact hframes pd' (List.mem_append_left _ hpd')
      · intro pd' hpd'
        exact hlast pd' (List.mem_append_left _ hpd')

/-- Whatever arrives on a topic whose window is new or unbaselined: the tids that come out
are strictly increasing, each message is the first of its tid that was not dropped, and the
frames that wait lie strictly inside the window, ahead of everything delivered. -/
theorem ascending_and_bounded (r : ReliableReceiver) {uid : UInt64}
    {topicName messageType : Bytes} {frames : List ParticipantData}
    (hframes : OfTopic uid topicName messageType frames) (hlast : BelowLast frames)
    (hstart : r.topicWindow uid topicName messageType = {} ∨
      r.topicWindow uid topicName messageType = .unbaselined) :
    (r.dispatchAll frames).Pairwise DataMessage.Before ∧
      (∀ d ∈ r.dispatchAll frames, FirstKept r uid topicName messageType frames d) ∧
      ∀ before after, frames = before ++ after →
        let w := (r.readAll before).topicWindow uid topicName messageType
        (∀ tid ∈ w.buffer, w.nextExpected < tid ∧
          tid < w.nextExpected + kReliableWindowSize ∧
          ∀ d ∈ r.dispatchAll before, d.tid < tid) ∧
        w.buffer.size < kReliableWindowSize := by
  have hwhole := sorting hframes hlast hstart
  refine ⟨hwhole.ascending, fun d hd => hwhole.first d (.inl hd), ?_⟩
  rintro before after rfl
  have hbefore : Sorting r uid topicName messageType before := by
    apply sorting _ _ hstart
    · intro pd hpd
      exact hframes pd (List.mem_append_left _ hpd)
    · intro pd hpd
      exact hlast pd (List.mem_append_left _ hpd)
  refine ⟨?_, hbefore.within.size_lt⟩
  intro tid htid
  obtain ⟨hahead, hnear⟩ := hbefore.within tid htid
  refine ⟨hahead, hnear, ?_⟩
  intro d hd
  exact (hbefore.passed d hd).trans hahead

theorem reliableMessage_numbered (tid : UInt64) :
    (reliableFrame (numbered tid)).reliableMessage = some (numbered tid) := by
  have hfields : (numbered tid).toFields =
      [⟨1, .bytes (serialize (scalarField 2 tid.toNat ++ scalarField 3 7))⟩] := by
    simp [DataMessage.toFields, numbered, Identifier.toFields, messageField, bytesField,
      scalarField]
  have hbody : (serialize (scalarField 2 tid.toNat ++ scalarField 3 7)).length ≤ 40 := by
    rw [serialize, List.flatMap_append, List.length_append]
    exact Nat.add_le_add (length_serialize_scalarField_le 2 _)
      (length_serialize_scalarField_le 3 7)
  have hsize : (serialize (numbered tid).toFields).length ≤ maxSize := by
    rw [hfields, serialize, List.flatMap_singleton]
    have hfield := length_encodeField_bytes_le 1
      (serialize (scalarField 2 tid.toNat ++ scalarField 3 7))
    have hmax : 60 ≤ maxSize := by decide
    omega
  have hne : (reliableFrame (numbered tid)).reliableData ≠ [] := by
    change serialize (numbered tid).toFields ≠ []
    rw [hfields, serialize, List.flatMap_singleton]
    exact encodeField_ne_nil _
  rw [ParticipantData.reliableMessage, if_neg hne]
  apply DataMessage.parse_serialize _ hsize
  refine ⟨?_, validUtf8_nil, validUtf8_nil⟩
  intro i hi
  obtain rfl := Option.mem_some_iff.mp hi
  exact List.forall_mem_nil _

def numberedFrames (tids : List UInt64) : List ParticipantData :=
  tids.map fun tid => reliableFrame (numbered tid)

theorem ofTopic_numberedFrames (tids : List UInt64) : OfTopic 7 [] [] (numberedFrames tids) := by
  intro pd hpd
  obtain ⟨tid, -, rfl⟩ := List.mem_map.mp hpd
  exact ⟨numbered tid, reliableMessage_numbered tid, rfl, rfl, rfl⟩

theorem tid_numberedFrames {tids : List UInt64} {pd : ParticipantData}
    (hpd : pd ∈ numberedFrames tids) {d : DataMessage} (hd : pd.reliableMessage = some d) :
    ∃ tid ∈ tids, d = numbered tid := by
  obtain ⟨tid, htid, rfl⟩ := List.mem_map.mp hpd
  rw [reliableMessage_numbered] at hd
  exact ⟨tid, htid, (Option.some.inj hd).symm⟩

/-- Frames 3 and 1 arrive with copies and a late frame 2. -/
theorem ascending_and_bounded_late :
    (dispatchAll {} (numberedFrames [3, 1, 1, 2, 3])).Pairwise DataMessage.Before := by
  refine (ascending_and_bounded {} (ofTopic_numberedFrames _) ?_ (.inl rfl)).1
  intro pd hpd d hd
  obtain ⟨tid, htid, rfl⟩ := tid_numberedFrames hpd hd
  have hsmall : ∀ tid ∈ [3, 1, 1, 2, (3 : UInt64)], tid.toNat < 2 ^ 64 - 1 := by simp
  exact hsmall tid htid

end ReliableReceiver

end Edriel
