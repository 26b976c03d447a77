import Edriel.CallbackOrder

/-!
A re-dial: the old connection still hands over a frame that it has read while the new one
opens its stream, and both share the marker of a fresh publisher.
-/

namespace Edriel

open Proto3 Std Interleaving

namespace ReliableRxWindow

theorem opens_past_iff {a m : DataMessage} : (past a.tid).Opens m.tid ↔ a.Near m := by
  have hempty : (past a.tid).buffer.isEmpty = true := rfl
  have hnext : (past a.tid).nextExpected = a.tid + 1 := rfl
  simp only [Opens, hempty, hnext, and_true, DataMessage.Near]
  omega

end ReliableRxWindow

namespace ReliableReceiver

/-- A frame is dispatched when it arrives for the first time. -/
def DeliveredOnArrival (r : ReliableReceiver) (events : List ReceiverEvent)
    (pd : ParticipantData) (d : DataMessage) : Prop :=
  ∀ before after, events = before ++ .frame pd :: after → .frame pd ∉ before →
    d ∈ ((before.foldl handle r).handleReliableDataFrame pd).1

variable {r : ReliableReceiver} {uid : UInt64} {straggler first : DataMessage}
  {old opening : ParticipantData} {later : List ReceiverEvent}

theorem deliveredOnArrival_iff (r : ReliableReceiver) (before after : List ReceiverEvent)
    {pd : ParticipantData} (d : DataMessage) (hfirst : .frame pd ∉ before) :
    DeliveredOnArrival r (before ++ .frame pd :: after) pd d ↔
      d ∈ ((before.foldl handle r).handleReliableDataFrame pd).1 := by
  constructor
  · intro h
    exact h before after rfl hfirst
  · intro h before' after' heq hfirst'
    have hsame : before = before' := by
      rcases place_cases heq with hsame | ⟨between, rfl⟩ | ⟨between, rfl⟩
      · exact hsame
      · exact absurd (by simp) hfirst'
      · exact absurd (by simp) hfirst
    exact hsame ▸ h

/-- Nothing of the new stream has been handled before its first frame, and the straggler
had its turn before the stream was established, if at all. -/
theorem delivered_of_established (hopening : opening.reliableMessage = some first)
    (huid : first.pubUid = uid) (r : ReliableReceiver) :
    first ∈ ((r.noteReliableStreamEstablished uid).handleReliableDataFrame opening).1 := by
  subst huid
  rw [handleReliableDataFrame_of_message hopening, mem_receive_iff, windowMet_note_self]
  exact ReliableRxWindow.opens_unbaselined _

/-- A straggler that comes right after the new stream takes its baseline. -/
theorem delivered_of_straggler_iff (hold : old.reliableMessage = some straggler)
    (hopening : opening.reliableMessage = some first) (huid : straggler.pubUid = uid)
    (hsame : first.pubUid = straggler.pubUid ∧ first.windowKey = straggler.windowKey)
    (hlt : straggler.tid < first.tid) (r : ReliableReceiver) :
    first ∈ (((r.noteReliableStreamEstablished uid).handleReliableDataFrame
      old).2.handleReliableDataFrame opening).1 ↔ straggler.Near first := by
  subst huid
  have hmet := windowMet_receive_self
    (r.noteReliableStreamEstablished straggler.pubUid) straggler
  have hlast : straggler.tid < 2 ^ 64 - 1 := by
    have hbound := first.tid_lt
    omega
  rw [windowMet_note_self, ReliableRxWindow.receive_unbaselined hlast] at hmet
  rw [handleReliableDataFrame_of_message hold, handleReliableDataFrame_of_message hopening,
    mem_receive_iff, hsame.1, hsame.2, hmet]
  exact ReliableRxWindow.opens_past_iff

/-- Whatever the old stream has left behind, and whatever the new one brings after its first
frame: that frame is held, and not delivered on arrival, exactly when the straggler comes
between the two and the gap behind it is neither none nor a whole window wide. -/
theorem first_delivered_iff (r : ReliableReceiver)
    (hold : old.reliableMessage = some straggler)
    (hopening : opening.reliableMessage = some first)
    (huid : straggler.pubUid = uid ∧ first.pubUid = uid)
    (htopic : straggler.topicName = first.topicName ∧
      straggler.messageType = first.messageType)
    (hlt : straggler.tid < first.tid) {events : List ReceiverEvent}
    (hevents : Shuffle (.established uid :: .frame opening :: later) [.frame old] events) :
    DeliveredOnArrival r events opening first ↔
      events ≠ .established uid :: .frame old :: .frame opening :: later ∨
        straggler.Near first := by
  have hne : old ≠ opening := by
    rintro rfl
    rw [hold] at hopening
    obtain rfl := Option.some.inj hopening
    exact absurd hlt (lt_irrefl _)
  have hkey : first.windowKey = straggler.windowKey := by
    rw [DataMessage.windowKey, DataMessage.windowKey, huid.1, huid.2, htopic.1, htopic.2]
  obtain ⟨before, after, hsplit, rfl⟩ := shuffle_singleton.mp hevents
  cases before with
  | nil =>
      obtain rfl : _ = after := hsplit
      rw [List.nil_append]
      refine iff_of_true ?_ (.inl fun h => by cases (List.cons.inj h).1)
      exact (deliveredOnArrival_iff r [.frame old, .established uid] later first
        (by simp [hne.symm])).mpr (delivered_of_established hopening huid.2 _)
  | cons e before =>
      obtain ⟨rfl, htail⟩ := List.cons.inj hsplit
      cases before with
      | nil =>
          obtain rfl : _ = after := htail
          have hnot : .frame opening ∉ [ReceiverEvent.established uid, .frame old] := by
            simp [hne.symm]
          have harrival := deliveredOnArrival_iff r [.established uid, .frame old] later
            first hnot
          have hstraggler := delivered_of_straggler_iff hold hopening huid.1
            ⟨huid.2.trans huid.1.symm, hkey⟩ hlt r
          rw [List.cons_append, List.nil_append]
          exact (harrival.trans hstraggler).trans (or_iff_right fun h => h rfl).symm
      | cons e before =>
          obtain ⟨rfl, rfl⟩ := List.cons.inj htail
          refine iff_of_true ?_ (.inl fun h => ?_)
          · exact (deliveredOnArrival_iff r [.established uid] _ first (by simp)).mpr
              (delivered_of_established hopening huid.2 _)
          · have hhead := (List.cons.inj (List.cons.inj h).2).1
            exact hne.symm (by injection hhead)

def numbered (tid : UInt64) : DataMessage :=
  { identifier := some { tid, uid := 7 } }

theorem numbered_reliableMessage :
    (reliableFrame (numbered 2)).reliableMessage = some (numbered 2) ∧
      (reliableFrame (numbered 4)).reliableMessage = some (numbered 4) := by
  exact ⟨rfl, rfl⟩

/-- The new stream of publisher 7 starts at frame 4. -/
def redialed : List ReceiverEvent :=
  [.established 7, .frame (reliableFrame (numbered 4)), .frame (reliableFrame (numbered 5))]

/-- Frame 2 is handled after the stream that starts at frame 4 has been established. -/
theorem straggler_baselines :
    (reliableFrame (numbered 2)).reliableMessage = some (numbered 2) ∧
      (reliableFrame (numbered 4)).reliableMessage = some (numbered 4) ∧
      ∃ events, Shuffle redialed [.frame (reliableFrame (numbered 2))] events ∧
        ¬ DeliveredOnArrival {} events (reliableFrame (numbered 4)) (numbered 4) := by
  obtain ⟨hold, hopening⟩ := numbered_reliableMessage
  refine ⟨hold, hopening, _, .left (.right (.left (.left .nil))), ?_⟩
  have hne : reliableFrame (numbered 4) ≠ reliableFrame (numbered 2) := by
    intro heq
    rw [heq, hold] at hopening
    exact absurd (Option.some.inj hopening) (by decide)
  intro h
  have hdelivered := h [.established 7, .frame (reliableFrame (numbered 2))] _ rfl
    (by simpa using hne)
  have hnear := (delivered_of_straggler_iff hold hopening rfl ⟨rfl, rfl⟩
    (show 2 < 4 by decide) {}).mp hdelivered
  rcases hnear with hnext | hfar
  · exact absurd (show 4 = 2 + 1 from hnext) (by decide)
  · exact absurd (show 2 + 256 < 4 from hfar) (by decide)

/-- Handled first, it does no harm. -/
theorem first_delivered_iff_early :
    DeliveredOnArrival {} (.frame (reliableFrame (numbered 2)) :: redialed)
      (reliableFrame (numbered 4)) (numbered 4) := by
  obtain ⟨hold, hopening⟩ := numbered_reliableMessage
  have hevents : Shuffle redialed [.frame (reliableFrame (numbered 2))]
      (.frame (reliableFrame (numbered 2)) :: redialed) :=
    .right (.left (.left (.left .nil)))
  apply (first_delivered_iff {} hold hopening ⟨rfl, rfl⟩ ⟨rfl, rfl⟩ (show 2 < 4 by decide)
    hevents).mpr
  exact .inl fun h => by cases (List.cons.inj h).1

end ReliableReceiver

end Edriel
