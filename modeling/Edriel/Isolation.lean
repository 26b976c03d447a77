import Edriel.FreshStream
import Edriel.Orphans

namespace Edriel

open Proto3 Std Interleaving

/-- The publisher an event is about; a frame without a message is about nobody. -/
def ReceiverEvent.publisher : ReceiverEvent → Option UInt64
  | .established uid => some uid
  | .frame pd => pd.reliableMessage.map DataMessage.pubUid
  | .timedOut uid => some uid

def ReceiverEvent.isOf (uid : UInt64) (e : ReceiverEvent) : Bool :=
  e.publisher == some uid

namespace ReliableReceiver

def dispatch (r : ReliableReceiver) : ReceiverEvent → List DataMessage
  | .frame pd => (r.handleReliableDataFrame pd).1
  | _ => []

/-- The frames of one publisher that a sequence of events dispatches, in their order. -/
def dispatchedOf (uid : UInt64) : ReliableReceiver → List ReceiverEvent → List DataMessage :=
  outputs handle fun r e => (r.dispatch e).filter fun d => d.pubUid == uid

def windowsOf (uid : UInt64) (r : ReliableReceiver) : ExtTreeMap Bytes ReliableRxWindow :=
  r.reliableWindows.filter fun key _ => (windowPrefix uid).isPrefixOf key

/-- Every window of the receiver has a property, which may depend on the window's key. -/
def EveryWindow (P : Bytes → ReliableRxWindow → Prop) (r : ReliableReceiver) : Prop :=
  ∀ (key : Bytes) (w : ReliableRxWindow), r.reliableWindows[key]? = some w → P key w

theorem everyWindow_empty (P : Bytes → ReliableRxWindow → Prop) : EveryWindow P {} := by
  intro key w hw
  rw [ExtTreeMap.getElem?_empty] at hw
  cases hw

section EveryWindow

variable {P : Bytes → ReliableRxWindow → Prop} {r : ReliableReceiver}

theorem everyWindow_windowMet (hunbaselined : ∀ key, P key .unbaselined)
    (hdefault : ∀ key, P key {}) (h : EveryWindow P r) (uid : UInt64) (key : Bytes) :
    P key (r.windowMet uid key) := by
  rw [windowMet]
  split
  · exact hunbaselined key
  · cases hw : r.reliableWindows[key]? with
    | none => exact hdefault key
    | some w => exact h key w hw

theorem everyWindow_established (hunbaselined : ∀ key, P key .unbaselined)
    (h : EveryWindow P r) (uid : UInt64) :
    EveryWindow P (r.noteReliableStreamEstablished uid) := by
  intro key w hw
  rw [noteReliableStreamEstablished, getElem?_rebaseline] at hw
  obtain ⟨w', hw', rfl⟩ := Option.map_eq_some_iff.mp hw
  split
  · exact hunbaselined key
  · exact h key w' hw'

theorem everyWindow_receive (hunbaselined : ∀ key, P key .unbaselined)
    (hdefault : ∀ key, P key {})
    (hreceive : ∀ (w : ReliableRxWindow) (d : DataMessage),
      P d.windowKey w → P d.windowKey (w.receive d).2)
    (h : EveryWindow P r) (d : DataMessage) : EveryWindow P (r.receive d).2 := by
  intro key w hw
  by_cases hkey : key = d.windowKey
  · subst hkey
    rw [getElem?_receive_self] at hw
    obtain rfl := Option.some.inj hw
    exact hreceive _ d (everyWindow_windowMet hunbaselined hdefault h d.pubUid d.windowKey)
  · rw [getElem?_receive_of_ne r hkey] at hw
    obtain ⟨w', hw', rfl⟩ := Option.map_eq_some_iff.mp hw
    split
    · exact hunbaselined key
    · exact h key w' hw'

/-- A property of windows that fresh ones have and arriving frames keep holds of every
window for good. -/
theorem everyWindow_handle (hunbaselined : ∀ key, P key .unbaselined)
    (hdefault : ∀ key, P key {})
    (hreceive : ∀ (w : ReliableRxWindow) (d : DataMessage),
      P d.windowKey w → P d.windowKey (w.receive d).2)
    (h : EveryWindow P r) (e : ReceiverEvent) : EveryWindow P (r.handle e) := by
  cases e with
  | established uid => exact everyWindow_established hunbaselined h uid
  | frame pd =>
      rw [handle, handleReliableDataFrame]
      split
      · exact h
      · exact everyWindow_receive hunbaselined hdefault hreceive h _
  | timedOut uid =>
      intro key w hw
      exact h key w ((getElem?_prune r uid key w).mp hw).1

theorem everyWindow_foldl_handle (hunbaselined : ∀ key, P key .unbaselined)
    (hdefault : ∀ key, P key {})
    (hreceive : ∀ (w : ReliableRxWindow) (d : DataMessage),
      P d.windowKey w → P d.windowKey (w.receive d).2)
    (es : List ReceiverEvent) : EveryWindow P (es.foldl handle {}) := by
  induction es using List.reverseRecOn with
  | nil => exact everyWindow_empty P
  | append_singleton es e ih =>
      rw [List.foldl_append]
      exact everyWindow_handle hunbaselined hdefault hreceive ih e

end EveryWindow

def HoldsOnly (key : Bytes) (w : ReliableRxWindow) : Prop :=
  ∀ (tid : Nat) (m : DataMessage), w.buffer[tid]? = some m → m.windowKey = key

/-- Every frame that waits is in the window of its own key. -/
abbrev Sorted (r : ReliableReceiver) : Prop :=
  EveryWindow HoldsOnly r

theorem holdsOnly_empty (key : Bytes) (n : Nat) : HoldsOnly key { nextExpected := n } := by
  intro tid m hm
  rw [ExtTreeMap.getElem?_empty] at hm
  cases hm

theorem holdsOnly_deliver {key : Bytes} {w : ReliableRxWindow} (hw : HoldsOnly key w)
    {d : DataMessage} (hd : d.windowKey = key) :
    (∀ m ∈ (w.deliver d).1, m.windowKey = key) ∧ HoldsOnly key (w.deliver d).2 := by
  refine ⟨?_, holdsOnly_empty key _⟩
  intro m hm
  rcases List.mem_cons.mp hm with rfl | hm
  · exact hd
  · obtain ⟨⟨tid, m'⟩, hentry, rfl⟩ := List.mem_map.mp hm
    exact hw tid m' (ExtTreeMap.mem_toList_iff_getElem?_eq_some.mp hentry)

/-- A window dispatches and keeps frames of its own key only. -/
theorem holdsOnly_receive {key : Bytes} {w : ReliableRxWindow} (hw : HoldsOnly key w)
    {d : DataMessage} (hd : d.windowKey = key) :
    (∀ m ∈ (w.receive d).1, m.windowKey = key) ∧ HoldsOnly key (w.receive d).2 := by
  have hinsert : HoldsOnly key { w with buffer := w.buffer.insertIfNew d.tid d } := by
    intro tid m hm
    rw [ExtTreeMap.getElem?_insertIfNew] at hm
    split at hm
    · obtain rfl := Option.some.inj hm
      exact hd
    · exact hw tid m hm
  rw [ReliableRxWindow.receive]
  split_ifs
  · exact holdsOnly_deliver (w := { w with nextExpected := d.tid }) hw hd
  · exact holdsOnly_deliver hw hd
  · exact ⟨List.forall_mem_nil _, hinsert⟩
  · exact holdsOnly_deliver (w := { w with nextExpected := d.tid }) hw hd
  · exact ⟨List.forall_mem_nil _, hw⟩
  · exact ⟨List.forall_mem_nil _, hw⟩

theorem sorted_handle {r : ReliableReceiver} (h : r.Sorted) (e : ReceiverEvent) :
    (r.handle e).Sorted :=
  everyWindow_handle (fun key => holdsOnly_empty key 0) (fun key => holdsOnly_empty key 1)
    (fun _ _ hw => (holdsOnly_receive hw rfl).2) h e

theorem holdsOnly_windowMet {r : ReliableReceiver} (h : r.Sorted) (uid : UInt64)
    (key : Bytes) : HoldsOnly key (r.windowMet uid key) :=
  everyWindow_windowMet (fun key => holdsOnly_empty key 0) (fun key => holdsOnly_empty key 1)
    h uid key

theorem pubUid_of_mem_receive {r : ReliableReceiver} (h : r.Sorted) {d m : DataMessage}
    (hm : m ∈ (r.receive d).1) : m.pubUid = d.pubUid := by
  have hkey := (holdsOnly_receive (holdsOnly_windowMet h d.pubUid d.windowKey) rfl).1 m hm
  have hprefix := windowPrefix_isPrefixOf_windowKey m
  rw [hkey] at hprefix
  exact uid_unique hprefix (windowPrefix_isPrefixOf_windowKey d)

structure AlikeFor (uid : UInt64) (r r' : ReliableReceiver) : Prop where
  sorted : r.Sorted
  sorted' : r'.Sorted
  fresh : uid ∈ r.reliableFreshPublishers ↔ uid ∈ r'.reliableFreshPublishers
  windows : ∀ key, (windowPrefix uid).isPrefixOf key = true →
    r.reliableWindows[key]? = r'.reliableWindows[key]?

variable {uid : UInt64} {r r' : ReliableReceiver}

theorem not_isPrefixOf_of_ne {uid' : UInt64} (hne : uid' ≠ uid) {key : Bytes}
    (hkey : (windowPrefix uid).isPrefixOf key = true) :
    ¬ (windowPrefix uid').isPrefixOf key = true :=
  fun h => hne (uid_unique h hkey)

theorem AlikeFor.foreign (h : AlikeFor uid r r') {e : ReceiverEvent}
    (he : e.isOf uid = false) :
    AlikeFor uid (r.handle e) r' ∧ (r.dispatch e).filter (fun d => d.pubUid == uid) = [] := by
  have hpublisher : e.publisher ≠ some uid := by
    simpa [ReceiverEvent.isOf] using he
  have hsorted := sorted_handle h.sorted e
  cases e with
  | established uid' =>
      have hne : uid' ≠ uid := fun heq => hpublisher (congrArg some heq)
      refine ⟨⟨hsorted, h.sorted', ?_, ?_⟩, rfl⟩
      · rw [handle, noteReliableStreamEstablished, ExtTreeSet.mem_insert,
          LawfulEqOrd.compare_eq_iff_eq]
        exact (or_iff_right hne).trans h.fresh
      · intro key hkey
        rw [handle, noteReliableStreamEstablished, getElem?_rebaseline, ← h.windows key hkey]
        simp [not_isPrefixOf_of_ne hne hkey]
  | frame pd =>
      have hmessage : ∀ d, pd.reliableMessage = some d → d.pubUid ≠ uid := by
        intro d hd heq
        exact hpublisher (by rw [ReceiverEvent.publisher, hd, Option.map_some, heq])
      rw [handle, dispatch, handleReliableDataFrame]
      split
      · exact ⟨h, rfl⟩
      · rename_i d hd
        have hne := hmessage d hd
        rw [handle, handleReliableDataFrame_of_message hd] at hsorted
        refine ⟨⟨hsorted, h.sorted', ?_, ?_⟩, ?_⟩
        · rw [mem_fresh_receive]
          exact (and_iff_left hne.symm).trans h.fresh
        · intro key hkey
          have hother : key ≠ d.windowKey := by
            rintro rfl
            exact not_isPrefixOf_of_ne hne hkey (windowPrefix_isPrefixOf_windowKey d)
          rw [getElem?_receive_of_ne r hother, ← h.windows key hkey]
          simp [not_isPrefixOf_of_ne hne hkey]
        · rw [List.filter_eq_nil_iff]
          intro m hm
          rw [pubUid_of_mem_receive h.sorted hm, beq_iff_eq]
          exact hne
  | timedOut uid' =>
      have hne : uid' ≠ uid := fun heq => hpublisher (congrArg some heq)
      refine ⟨⟨hsorted, h.sorted', h.fresh, ?_⟩, rfl⟩
      intro key hkey
      rw [← h.windows key hkey]
      ext w
      rw [handle, getElem?_prune]
      exact and_iff_left (not_isPrefixOf_of_ne hne hkey)

theorem AlikeFor.own (h : AlikeFor uid r r') {e : ReceiverEvent} (he : e.isOf uid = true) :
    AlikeFor uid (r.handle e) (r'.handle e) ∧
      (r.dispatch e).filter (fun d => d.pubUid == uid) =
        (r'.dispatch e).filter fun d => d.pubUid == uid := by
  have hpublisher : e.publisher = some uid := by
    simpa [ReceiverEvent.isOf] using he
  have hsorted := sorted_handle h.sorted e
  have hsorted' := sorted_handle h.sorted' e
  cases e with
  | established uid' =>
      obtain rfl : uid' = uid := Option.some.inj hpublisher
      refine ⟨⟨hsorted, hsorted', ?_, ?_⟩, rfl⟩
      · simp [handle, noteReliableStreamEstablished]
      · intro key hkey
        rw [handle, handle, noteReliableStreamEstablished, noteReliableStreamEstablished,
          getElem?_rebaseline, getElem?_rebaseline, h.windows key hkey]
  | frame pd =>
      obtain ⟨d, hd, rfl⟩ := Option.map_eq_some_iff.mp hpublisher
      have hmet : ∀ key, (windowPrefix d.pubUid).isPrefixOf key = true →
          r.windowMet d.pubUid key = r'.windowMet d.pubUid key := by
        intro key hkey
        simp only [windowMet, h.fresh, h.windows key hkey]
      have hself := hmet d.windowKey (windowPrefix_isPrefixOf_windowKey d)
      simp only [handle, dispatch, handleReliableDataFrame_of_message hd] at hsorted hsorted' ⊢
      refine ⟨⟨hsorted, hsorted', ?_, ?_⟩, ?_⟩
      · rw [mem_fresh_receive, mem_fresh_receive, h.fresh]
      · intro key hkey
        by_cases hkey' : key = d.windowKey
        · subst hkey'
          rw [getElem?_receive_self, getElem?_receive_self, hself]
        · rw [getElem?_receive_of_ne r hkey', getElem?_receive_of_ne r' hkey',
            h.windows key hkey]
          simp only [h.fresh]
      · have hdispatch : (r.receive d).1 = (r'.receive d).1 := by
          rw [receive, receive, hself]
        rw [hdispatch]
  | timedOut uid' =>
      obtain rfl : uid' = uid := Option.some.inj hpublisher
      refine ⟨⟨hsorted, hsorted', h.fresh, ?_⟩, rfl⟩
      intro key hkey
      ext w
      rw [handle, handle, getElem?_prune, getElem?_prune, h.windows key hkey]

theorem AlikeFor.windowsOf_eq (h : AlikeFor uid r r') : windowsOf uid r = windowsOf uid r' := by
  apply ExtTreeMap.ext_getElem?
  intro key
  rw [windowsOf, windowsOf, ExtTreeMap.getElem?_filter', ExtTreeMap.getElem?_filter']
  by_cases hkey : (windowPrefix uid).isPrefixOf key = true
  · rw [h.windows key hkey]
  · simp [hkey]

theorem alikeFor_empty (uid : UInt64) : AlikeFor uid {} {} := by
  exact ⟨everyWindow_empty _, everyWindow_empty _, Iff.rfl, fun _ _ => rfl⟩

/-- Two sequences of events with the same events of one publisher dispatch the same
frames of it and leave it the same windows. -/
theorem publishers_isolated (uid : UInt64) {es es' : List ReceiverEvent}
    (h : es.filter (·.isOf uid) = es'.filter (·.isOf uid)) :
    dispatchedOf uid {} es = dispatchedOf uid {} es' ∧
      windowsOf uid (es.foldl handle {}) = windowsOf uid (es'.foldl handle {}) := by
  have hrun : ∀ es : List ReceiverEvent,
      AlikeFor uid (es.foldl handle {}) ((es.filter (·.isOf uid)).foldl handle {}) ∧
        dispatchedOf uid {} es = dispatchedOf uid {} (es.filter (·.isOf uid)) := by
    intro es
    exact unwind (fun s t e he hst => hst.foreign he) (fun s t e he hst => hst.own he) es
      (alikeFor_empty uid)
  obtain ⟨halike, hdispatched⟩ := hrun es
  obtain ⟨halike', hdispatched'⟩ := hrun es'
  rw [h] at halike hdispatched
  exact ⟨hdispatched.trans hdispatched'.symm,
    halike.windowsOf_eq.trans halike'.windowsOf_eq.symm⟩

theorem publishers_isolated_lateTopic :
    dispatchedOf 7 {} (.established 7 :: lateTopicFrames.map .frame) =
        dispatchedOf 7 {}
          (.established 70 :: .established 7 :: .timedOut 70 :: lateTopicFrames.map .frame) ∧
      windowsOf 7 ((.established 7 :: lateTopicFrames.map .frame).foldl handle {}) =
        windowsOf 7 ((.established 70 :: .established 7 :: .timedOut 70 ::
          lateTopicFrames.map .frame).foldl handle {}) :=
  publishers_isolated 7 rfl

end ReliableReceiver

end Edriel
