import Edriel.Rejoin

namespace Edriel

open Proto3 Std Interleaving

/-- What happens to a node: an operation on its registry, a stream that opens, delivers
and ends.  The end of a stream reaches neither the windows nor the markers. -/
inductive NodeEvent where
  | operation (op : Operation)
  | established (publisherUid : UInt64)
  | frame (pd : ParticipantData)
  | closed (publisherUid : UInt64)

/-- The publisher whose message an event hands over. -/
def NodeEvent.framedBy : NodeEvent → Option UInt64
  | .frame pd => pd.reliableMessage.map DataMessage.pubUid
  | _ => none

def openStreams (events : List NodeEvent) : List UInt64 :=
  events.foldl (fun streams e =>
    match e with
    | .established uid => uid :: streams
    | .closed uid => streams.erase uid
    | _ => streams) []

namespace ReliableReceiver

def Windowed (r : ReliableReceiver) (uid : UInt64) : Prop :=
  ∃ key w, r.reliableWindows[key]? = some w ∧ (windowPrefix uid).isPrefixOf key = true

def Keyed (r : ReliableReceiver) : Prop :=
  ∀ key w, r.reliableWindows[key]? = some w →
    ∃ uid, (windowPrefix uid).isPrefixOf key = true

theorem uid_unique {uid uid' : UInt64} {key : Bytes}
    (h : (windowPrefix uid).isPrefixOf key = true)
    (h' : (windowPrefix uid').isPrefixOf key = true) : uid = uid' := by
  rw [List.isPrefixOf_iff_prefix] at h'
  obtain ⟨rest, rfl⟩ := h'
  exact (windowPrefix_isPrefixOf_iff uid uid' rest).mp h

theorem windowPrefix_isPrefixOf_windowKey (d : DataMessage) :
    (windowPrefix d.pubUid).isPrefixOf d.windowKey = true := by
  rw [List.isPrefixOf_iff_prefix]
  exact List.prefix_append _ _

theorem getElem?_established (r : ReliableReceiver) (uid : UInt64) (key : Bytes) :
    ((r.noteReliableStreamEstablished uid).reliableWindows[key]?).isSome =
      (r.reliableWindows[key]?).isSome := by
  rw [noteReliableStreamEstablished, getElem?_rebaseline, Option.isSome_map]

theorem getElem?_receive (r : ReliableReceiver) (d : DataMessage) (key : Bytes) :
    ((r.receive d).2.reliableWindows[key]?).isSome = true ↔
      (r.reliableWindows[key]?).isSome = true ∨ key = d.windowKey := by
  by_cases hkey : key = d.windowKey
  · subst hkey
    simp [getElem?_receive_self]
  · rw [getElem?_receive_of_ne r hkey, Option.isSome_map]
    simp [hkey]

theorem windowed_iff (r : ReliableReceiver) (uid : UInt64) :
    r.Windowed uid ↔ ∃ key, (r.reliableWindows[key]?).isSome = true ∧
      (windowPrefix uid).isPrefixOf key = true := by
  constructor
  · rintro ⟨key, w, hw, hkey⟩
    exact ⟨key, by rw [hw]; rfl, hkey⟩
  · rintro ⟨key, hsome, hkey⟩
    obtain ⟨w, hw⟩ := Option.isSome_iff_exists.mp hsome
    exact ⟨key, w, hw, hkey⟩

theorem windowed_established (r : ReliableReceiver) (uid uid' : UInt64) :
    (r.noteReliableStreamEstablished uid).Windowed uid' ↔ r.Windowed uid' := by
  simp only [windowed_iff, getElem?_established]

theorem windowed_receive (r : ReliableReceiver) (d : DataMessage) (uid : UInt64) :
    (r.receive d).2.Windowed uid ↔ d.pubUid = uid ∨ r.Windowed uid := by
  simp only [windowed_iff, getElem?_receive]
  constructor
  · rintro ⟨key, hsome | rfl, hkey⟩
    · exact .inr ⟨key, hsome, hkey⟩
    · exact .inl (uid_unique (windowPrefix_isPrefixOf_windowKey d) hkey)
  · rintro (rfl | ⟨key, hsome, hkey⟩)
    · exact ⟨d.windowKey, .inr rfl, windowPrefix_isPrefixOf_windowKey d⟩
    · exact ⟨key, .inl hsome, hkey⟩

theorem keyed_established {r : ReliableReceiver} (h : r.Keyed) (uid : UInt64) :
    (r.noteReliableStreamEstablished uid).Keyed := by
  intro key w hw
  have hsome : (r.reliableWindows[key]?).isSome = true := by
    rw [← getElem?_established r uid, hw]
    rfl
  obtain ⟨w', hw'⟩ := Option.isSome_iff_exists.mp hsome
  exact h key w' hw'

theorem keyed_receive {r : ReliableReceiver} (h : r.Keyed) (d : DataMessage) :
    (r.receive d).2.Keyed := by
  intro key w hw
  rcases (getElem?_receive r d key).mp (by rw [hw]; rfl) with hsome | rfl
  · obtain ⟨w', hw'⟩ := Option.isSome_iff_exists.mp hsome
    exact h key w' hw'
  · exact ⟨d.pubUid, windowPrefix_isPrefixOf_windowKey d⟩

theorem getElem?_prune (r : ReliableReceiver) (uid : UInt64) (key : Bytes)
    (w : ReliableRxWindow) :
    (r.prune uid).reliableWindows[key]? = some w ↔
      r.reliableWindows[key]? = some w ∧ ¬ (windowPrefix uid).isPrefixOf key = true := by
  rw [prune, ExtTreeMap.getElem?_filter', Option.filter_eq_some_iff, Bool.not_eq_true',
    Bool.not_eq_true]

theorem getElem?_foldl_prune (stale : List Participant) (r : ReliableReceiver) (key : Bytes)
    (w : ReliableRxWindow) :
    (stale.foldl (fun r p => r.prune p.id.uid) r).reliableWindows[key]? = some w ↔
      r.reliableWindows[key]? = some w ∧
        ∀ p ∈ stale, ¬ (windowPrefix p.id.uid).isPrefixOf key = true := by
  induction stale generalizing r with
  | nil => simp
  | cons p stale ih =>
      rw [List.foldl_cons, ih, getElem?_prune, and_assoc]
      simp only [List.forall_mem_cons]

theorem fresh_foldl_prune (stale : List Participant) (r : ReliableReceiver) :
    (stale.foldl (fun r p => r.prune p.id.uid) r).reliableFreshPublishers =
      r.reliableFreshPublishers := by
  induction stale generalizing r with
  | nil => rfl
  | cons p stale ih =>
      rw [List.foldl_cons, ih]
      rfl

end ReliableReceiver

namespace Node

variable {N : Nat} [NeZero N]

def handleEvent (n : Node N) : NodeEvent → Node N
  | .operation op => n.apply op
  | .established uid => { n with receiver := n.receiver.noteReliableStreamEstablished uid }
  | .frame pd => { n with receiver := (n.receiver.handleReliableDataFrame pd).2 }
  | .closed _ => n

def handleAll (n : Node N) (events : List NodeEvent) : Node N :=
  events.foldl handleEvent n

/-- Every receive window and every marker belongs to a registered participant. -/
def NoOrphans (n : Node N) : Prop :=
  (∀ key w, n.receiver.reliableWindows[key]? = some w →
    ∃ uid, (windowPrefix uid).isPrefixOf key = true ∧ (n.participant? uid).isSome = true) ∧
  ∀ uid ∈ n.receiver.reliableFreshPublishers, (n.participant? uid).isSome = true

def Evicts (n : Node N) (e : NodeEvent) (uid : UInt64) : Prop :=
  ∃ now, e = .operation (.removeTimedOutParticipants now) ∧ n.timedOut now uid = true

theorem handleAll_concat (n : Node N) (events : List NodeEvent) (e : NodeEvent) :
    n.handleAll (events ++ [e]) = (n.handleAll events).handleEvent e := by
  rw [handleAll, List.foldl_append]
  rfl

theorem Located.exists_stale_iff {n : Node N} (h : n.Located) (now : UInt64 → Int)
    (uid : UInt64) :
    (∃ p ∈ n.staleParticipants now, p.id.uid = uid) ↔ n.timedOut now uid = true := by
  rw [← h.isStale_iff now ⟨0, 0, uid⟩, isStale, List.any_eq_true]
  simp only [beq_iff_eq]

theorem windowed_removeTimedOutParticipants {n : Node N} (h : n.Located)
    (now : UInt64 → Int) (uid : UInt64) :
    (n.removeTimedOutParticipants now).receiver.Windowed uid ↔
      n.receiver.Windowed uid ∧ ¬ n.timedOut now uid = true := by
  rw [← h.exists_stale_iff]
  constructor
  · rintro ⟨key, w, hw, hkey⟩
    obtain ⟨hold, hkept⟩ := (ReliableReceiver.getElem?_foldl_prune _ _ key w).mp hw
    refine ⟨⟨key, w, hold, hkey⟩, ?_⟩
    rintro ⟨p, hp, rfl⟩
    exact hkept p hp hkey
  · rintro ⟨⟨key, w, hw, hkey⟩, hnot⟩
    refine ⟨key, w, (ReliableReceiver.getElem?_foldl_prune _ _ key w).mpr ⟨hw, ?_⟩, hkey⟩
    intro p hp hprefix
    exact hnot ⟨p, hp, ReliableReceiver.uid_unique hprefix hkey⟩

theorem located_handleEvent {n : Node N} (h : n.Located) (e : NodeEvent) :
    (n.handleEvent e).Located := by
  cases e with
  | operation op => exact h.apply op
  | established uid => exact h
  | frame pd => exact h
  | closed uid => exact h

theorem windowed_handleEvent {n : Node N} (h : n.Located) (e : NodeEvent) (uid : UInt64) :
    (n.handleEvent e).receiver.Windowed uid ↔
      e.framedBy = some uid ∨ n.receiver.Windowed uid ∧ ¬ n.Evicts e uid := by
  cases e with
  | operation op =>
      by_cases hcleanup : ∃ now, op = .removeTimedOutParticipants now
      · obtain ⟨now, rfl⟩ := hcleanup
        have hevicts : n.Evicts (.operation (.removeTimedOutParticipants now)) uid ↔
            n.timedOut now uid = true := by
          constructor
          · rintro ⟨now', heq, htimedOut⟩
            obtain rfl : now = now' := by simpa using heq
            exact htimedOut
          · intro htimedOut
            exact ⟨now, rfl, htimedOut⟩
        rw [hevicts]
        refine (windowed_removeTimedOutParticipants h now uid).trans ?_
        simp [NodeEvent.framedBy]
      · rw [handleEvent, receiver_apply n fun now hop => hcleanup ⟨now, hop⟩]
        have hnot : ¬ n.Evicts (.operation op) uid := by
          rintro ⟨now, heq, -⟩
          exact hcleanup ⟨now, by simpa using heq⟩
        simp [NodeEvent.framedBy, hnot]
  | established uid' =>
      refine (ReliableReceiver.windowed_established _ _ _).trans ?_
      simp [NodeEvent.framedBy, Evicts]
  | frame pd =>
      rw [handleEvent, ReliableReceiver.handleReliableDataFrame]
      split
      · rename_i hnone
        simp [NodeEvent.framedBy, hnone, Evicts]
      · rename_i d hd
        refine (ReliableReceiver.windowed_receive _ _ _).trans ?_
        simp [NodeEvent.framedBy, hd, Evicts]
  | closed uid' => simp [handleEvent, NodeEvent.framedBy, Evicts]

theorem fresh_handleEvent (n : Node N) (e : NodeEvent) (uid : UInt64) :
    uid ∈ (n.handleEvent e).receiver.reliableFreshPublishers ↔
      e = .established uid ∨
        uid ∈ n.receiver.reliableFreshPublishers ∧ ¬ e.framedBy = some uid := by
  cases e with
  | operation op =>
      have hsame : (n.apply op).receiver.reliableFreshPublishers =
          n.receiver.reliableFreshPublishers := by
        by_cases hcleanup : ∃ now, op = .removeTimedOutParticipants now
        · obtain ⟨now, rfl⟩ := hcleanup
          exact ReliableReceiver.fresh_foldl_prune _ _
        · rw [receiver_apply n fun now hop => hcleanup ⟨now, hop⟩]
      rw [handleEvent, hsame]
      simp [NodeEvent.framedBy]
  | established uid' =>
      rw [handleEvent, ReliableReceiver.noteReliableStreamEstablished, ExtTreeSet.mem_insert,
        LawfulEqOrd.compare_eq_iff_eq]
      simp [NodeEvent.framedBy]
  | frame pd =>
      rw [handleEvent, ReliableReceiver.handleReliableDataFrame]
      split
      · rename_i hnone
        simp [NodeEvent.framedBy, hnone]
      · rename_i d hd
        rw [ReliableReceiver.mem_fresh_receive]
        simp [NodeEvent.framedBy, hd, eq_comm (a := uid)]
  | closed uid' => simp [handleEvent, NodeEvent.framedBy]

theorem keyed_handleEvent {n : Node N} (h : n.receiver.Keyed) (e : NodeEvent) :
    (n.handleEvent e).receiver.Keyed := by
  cases e with
  | operation op =>
      by_cases hcleanup : ∃ now, op = .removeTimedOutParticipants now
      · obtain ⟨now, rfl⟩ := hcleanup
        intro key w hw
        exact h key w ((ReliableReceiver.getElem?_foldl_prune _ _ key w).mp hw).1
      · rw [handleEvent, receiver_apply n fun now hop => hcleanup ⟨now, hop⟩]
        exact h
  | established uid => exact ReliableReceiver.keyed_established h uid
  | frame pd =>
      rw [handleEvent, ReliableReceiver.handleReliableDataFrame]
      split
      · exact h
      · exact ReliableReceiver.keyed_receive h _
  | closed uid => exact h

variable {me : Identity} {config : Config}

theorem located_handleAll (events : List NodeEvent) :
    ((fresh me config : Node N).handleAll events).Located := by
  induction events using List.reverseRecOn with
  | nil => exact located_run me config []
  | append_singleton events e ih =>
      rw [handleAll_concat]
      exact located_handleEvent ih e

theorem keyed_handleAll (events : List NodeEvent) :
    ((fresh me config : Node N).handleAll events).receiver.Keyed := by
  induction events using List.reverseRecOn with
  | nil =>
      intro key w hw
      rw [handleAll, List.foldl_nil, fresh, ExtTreeMap.getElem?_empty] at hw
      cases hw
  | append_singleton events e ih =>
      rw [handleAll_concat]
      exact keyed_handleEvent ih e

/-- A frame of the publisher has been handled, and no cleanup has evicted the publisher
since. -/
def FramedSinceEviction (me : Identity) (config : Config) (N : Nat) [NeZero N]
    (events : List NodeEvent) (uid : UInt64) : Prop :=
  Since (fun e => e.framedBy = some uid)
    (fun before e => ((fresh me config : Node N).handleAll before).Evicts e uid) events

/-- A stream to the publisher has opened, and no frame of it has been handled since. -/
def Unanswered (events : List NodeEvent) (uid : UInt64) : Prop :=
  Since (fun e => e = .established uid) (fun _ e => e.framedBy = some uid) events

/-- A publisher has windows exactly when it has been heard since its last eviction. -/
theorem windowed_handleAll (events : List NodeEvent) (uid : UInt64) :
    ((fresh me config : Node N).handleAll events).receiver.Windowed uid ↔
      FramedSinceEviction me config N events uid := by
  induction events using List.reverseRecOn with
  | nil =>
      refine iff_of_false ?_ not_since_nil
      rintro ⟨key, w, hw, -⟩
      rw [handleAll, List.foldl_nil, fresh, ExtTreeMap.getElem?_empty] at hw
      cases hw
  | append_singleton events e ih =>
      rw [handleAll_concat, windowed_handleEvent (located_handleAll events), ih,
        FramedSinceEviction, FramedSinceEviction, since_concat]

theorem fresh_handleAll (events : List NodeEvent) (uid : UInt64) :
    uid ∈ ((fresh me config : Node N).handleAll events).receiver.reliableFreshPublishers ↔
      Unanswered events uid := by
  induction events using List.reverseRecOn with
  | nil =>
      refine iff_of_false ?_ not_since_nil
      exact ExtTreeSet.not_mem_empty
  | append_singleton events e ih =>
      rw [handleAll_concat, fresh_handleEvent, ih, Unanswered, Unanswered, since_concat]

theorem participant?_removeTimedOutParticipants (n : Node N) (now : UInt64 → Int)
    (uid : UInt64) :
    (n.removeTimedOutParticipants now).participant? uid =
      (n.participant? uid).filter fun p => !p.shouldBeRemoved (now uid) :=
  Placement.participant?_removeTimedOutParticipants (s := .ofHash fnv1a64) now uid

theorem isSome_participant?_removeTimedOutParticipants (n : Node N) (now : UInt64 → Int)
    (uid : UInt64) :
    ((n.removeTimedOutParticipants now).participant? uid).isSome = true ↔
      (n.participant? uid).isSome = true ∧ n.timedOut now uid = false := by
  rw [participant?_removeTimedOutParticipants, timedOut]
  cases n.participant? uid with
  | none => simp
  | some p =>
      rw [Option.filter_some, Option.any_some]
      cases p.shouldBeRemoved (now uid) <;> simp

/-- After a cleanup that ends any run, no window and no marker is orphaned exactly when
every publisher that has been heard since its last eviction is registered, and every
publisher with an unanswered stream is registered and has not timed out. -/
theorem noOrphans_iff (me : Identity) (config : Config) (events : List NodeEvent)
    (now : UInt64 → Int) {n : Node N} (hn : n = (fresh me config).handleAll events) :
    (n.handleEvent (.operation (.removeTimedOutParticipants now))).NoOrphans ↔
      ∀ uid,
        (FramedSinceEviction me config N events uid → (n.participant? uid).isSome = true) ∧
        (Unanswered events uid →
          (n.participant? uid).isSome = true ∧ n.timedOut now uid = false) := by
  have hlocated : n.Located := by
    rw [hn]
    exact located_handleAll events
  have hkeyed : (n.handleEvent (.operation (.removeTimedOutParticipants now))).receiver.Keyed := by
    rw [hn]
    exact keyed_handleEvent (keyed_handleAll events) _
  have hregistered := isSome_participant?_removeTimedOutParticipants n now
  have hwindows : (∀ key w, (n.handleEvent (.operation
      (.removeTimedOutParticipants now))).receiver.reliableWindows[key]? = some w →
        ∃ uid, (windowPrefix uid).isPrefixOf key = true ∧
          ((n.removeTimedOutParticipants now).participant? uid).isSome = true) ↔
      ∀ uid, FramedSinceEviction me config N events uid →
        (n.participant? uid).isSome = true := by
    constructor
    · intro hkeys uid hframed
      by_cases htimedOut : n.timedOut now uid = true
      · obtain ⟨p, hp, -⟩ := (Option.any_eq_true _ _).mp htimedOut
        rw [hp]
        rfl
      · rw [← windowed_handleAll, ← hn] at hframed
        obtain ⟨key, w, hw, hkey⟩ :=
          (windowed_removeTimedOutParticipants hlocated now uid).mpr ⟨hframed, htimedOut⟩
        obtain ⟨uid', hkey', hsome⟩ := hkeys key w hw
        rw [ReliableReceiver.uid_unique hkey hkey']
        exact ((hregistered uid').mp hsome).1
    · intro hframed key w hw
      obtain ⟨uid, hkey⟩ := hkeyed key w hw
      obtain ⟨hwindowed, htimedOut⟩ :=
        (windowed_removeTimedOutParticipants hlocated now uid).mp ⟨key, w, hw, hkey⟩
      rw [hn, windowed_handleAll] at hwindowed
      refine ⟨uid, hkey, (hregistered uid).mpr ⟨hframed uid hwindowed, ?_⟩⟩
      exact Bool.not_eq_true _ ▸ htimedOut
  have hmarkers : (∀ uid ∈ (n.handleEvent (.operation
      (.removeTimedOutParticipants now))).receiver.reliableFreshPublishers,
        ((n.removeTimedOutParticipants now).participant? uid).isSome = true) ↔
      ∀ uid, Unanswered events uid →
        (n.participant? uid).isSome = true ∧ n.timedOut now uid = false := by
    refine forall_congr' fun uid => ?_
    have hfresh : uid ∈ (n.handleEvent (.operation
        (.removeTimedOutParticipants now))).receiver.reliableFreshPublishers ↔
        Unanswered events uid := by
      have hunanswered : uid ∈ n.receiver.reliableFreshPublishers ↔ Unanswered events uid := by
        rw [hn]
        exact fresh_handleAll events uid
      rw [fresh_handleEvent, hunanswered]
      simp [NodeEvent.framedBy]
    rw [hfresh, hregistered]
  rw [NoOrphans]
  refine (and_congr hwindows hmarkers).trans ?_
  exact forall_and.symm

/-- The stream to participant 6 opens and ends without a frame. -/
def unanswered : List NodeEvent :=
  [.operation (.heartbeat 0 ⟨4, 5, 6⟩ []), .established 6, .closed 6]

/-- The cleanup that evicts the participant leaves its marker behind. -/
theorem unanswered_orphaned :
    openStreams unanswered = [] ∧
      ¬ (((fresh ⟨1, 2, 3⟩ {} : Node 1).handleAll unanswered).handleEvent
        (.operation (.removeTimedOutParticipants fun _ => 11000000000))).NoOrphans := by
  refine ⟨by decide, ?_⟩
  rintro ⟨-, hmarkers⟩
  have htimedOut : ((fresh ⟨1, 2, 3⟩ {} : Node 1).handleAll unanswered).timedOut
      (fun _ => 11000000000) 6 = true := by decide
  have hfresh : (6 : UInt64) ∈ ((fresh ⟨1, 2, 3⟩ {} : Node 1).handleAll
      unanswered).receiver.reliableFreshPublishers := by
    rw [fresh_handleAll]
    refine ⟨[.operation (.heartbeat 0 ⟨4, 5, 6⟩ [])], .established 6, [.closed 6], rfl, rfl, ?_⟩
    intro mid e rest h
    have hmem : e ∈ [NodeEvent.closed 6] := by
      rw [h]
      simp
    rw [List.mem_singleton.mp hmem]
    simp [NodeEvent.framedBy]
  have hsome := hmarkers 6 ((fresh_handleEvent _ _ _).mpr
    (.inr ⟨hfresh, by simp [NodeEvent.framedBy]⟩))
  have hkept := ((isSome_participant?_removeTimedOutParticipants _ _ 6).mp hsome).2
  rw [htimedOut] at hkept
  cases hkept

theorem noOrphans_iff_unanswered :
    (((fresh ⟨1, 2, 3⟩ {} : Node 1).handleAll unanswered).handleEvent
        (.operation (.removeTimedOutParticipants fun _ => 11000000000))).NoOrphans ↔
      ∀ uid,
        (FramedSinceEviction ⟨1, 2, 3⟩ {} 1 unanswered uid →
          (((fresh ⟨1, 2, 3⟩ {} : Node 1).handleAll unanswered).participant? uid).isSome = true) ∧
        (Unanswered unanswered uid →
          (((fresh ⟨1, 2, 3⟩ {} : Node 1).handleAll unanswered).participant? uid).isSome = true ∧
            ((fresh ⟨1, 2, 3⟩ {} : Node 1).handleAll unanswered).timedOut
              (fun _ => 11000000000) uid = false) :=
  noOrphans_iff ⟨1, 2, 3⟩ {} unanswered (fun _ => 11000000000) rfl

end Node

end Edriel
