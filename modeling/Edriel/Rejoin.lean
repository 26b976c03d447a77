import Edriel.Cleanup

namespace Edriel

open Proto3 Std

namespace Node

variable {N : Nat} [NeZero N]

theorem lists_iff_listedAt (n : Node N) (p : Identity) (topicName messageType : Bytes)
    (isPublisher : Bool) :
    n.Lists p topicName messageType isPublisher ↔
      n.ListedAt (shardIndexForTopic (makeCompositeKey topicName messageType))
        (makeCompositeKey topicName messageType) isPublisher p :=
  n.lists_iff p topicName messageType isPublisher

theorem Located.isStale_iff {n : Node N} (h : n.Located) (now : UInt64 → Int)
    (p : Identity) : isStale (n.staleParticipants now) p = true ↔ n.timedOut now p.uid = true := by
  have hshard : ∀ (i : Fin N) (p : Identity),
      isStale ((n.shards i).timedOut now) p = true ↔
        i = shardIndexForUid p.uid ∧ n.timedOut now p.uid = true :=
    Overlap.isStale_timedOut (o := { node := n }) h
  show ((List.finRange N).flatMap fun i => (n.shards i).timedOut now).any _ = true ↔ _
  rw [List.any_flatMap, List.any_eq_true]
  constructor
  · rintro ⟨i, -, hi⟩
    exact ((hshard i p).mp hi).2
  · intro htimedOut
    exact ⟨shardIndexForUid p.uid, List.mem_finRange _, (hshard _ p).mpr ⟨rfl, htimedOut⟩⟩

theorem Located.not_lists_of_timedOut {n : Node N} (h : n.Located) {now : UInt64 → Int}
    {p : Identity} (htimedOut : n.timedOut now p.uid = true)
    (topicName messageType : Bytes) (isPublisher : Bool) :
    ¬ (n.removeTimedOutParticipants now).Lists p topicName messageType isPublisher := by
  rw [lists_iff, topic?_removeTimedOutParticipants]
  rintro ⟨e, he, hp⟩
  obtain ⟨entry, -, hpurge⟩ := Option.bind_eq_some_iff.mp he
  have hkept := ((purge_side_iff _ _ _ _).mp ⟨e, hpurge, hp⟩).2
  rw [(h.isStale_iff now p).mpr htimedOut] at hkept
  cases hkept

/-- Nothing but an advertisement of its own puts a peer into a topic entry. -/
theorem not_lists_run {n : Node N} {p : Identity} {topicName messageType : Bytes}
    {isPublisher : Bool} (h : ¬ n.Lists p topicName messageType isPublisher)
    {ops : List Operation}
    (hsilent : ∀ t m b, Operation.announcement p t m b ∉ ops) :
    ¬ (n.run ops).Lists p topicName messageType isPublisher := by
  induction ops generalizing n with
  | nil => exact h
  | cons op ops ih =>
      apply ih
      · intro hlists
        rcases listedAt_apply ((lists_iff_listedAt _ _ _ _ _).mp hlists) with hlisted | hop
        · exact h ((lists_iff_listedAt _ _ _ _ _).mpr hlisted)
        · obtain ⟨t, m, b, rfl⟩ := hop
          exact hsilent t m b List.mem_cons_self
      · intro t m b hmem
        exact hsilent t m b (List.mem_cons_of_mem op hmem)

theorem run_append (n : Node N) (ops ops' : List Operation) :
    n.run (ops ++ ops') = (n.run ops).run ops' := by
  rw [run, List.foldl_append]
  rfl

/-- A peer that a cleanup evicts and that then only heartbeats is registered again and
stands in no entry of the topics it announced before, until it advertises again. -/
theorem rejoined_by_advertisement (me : Identity) (config : Config)
    (before : List Operation) (now : UInt64 → Int) {sender : Identity}
    (hpeer : sender.uid ≠ me.uid)
    (hevicted : ((fresh me config : Node N).run before).timedOut now sender.uid = true)
    {after : List Operation} (hsilent : ∀ t m b, Operation.announcement sender t m b ∉ after)
    (seen : Int) (endpoints : List Endpoint) (topicName messageType : Bytes)
    (isPublisher : Bool) {n : Node N}
    (hn : n = (fresh me config : Node N).run (before ++ .removeTimedOutParticipants now :: after ++
      [.heartbeat seen sender endpoints])) :
    (n.participant? sender.uid).isSome = true ∧
      ¬ n.Lists sender topicName messageType isPublisher ∧
      (n.apply (.announcement sender topicName messageType isPublisher)).Lists sender
        topicName messageType isPublisher := by
  have hself : ∀ ops, ((fresh me config : Node N).run ops).selfParticipant = me := by
    intro ops
    induction ops using List.reverseRecOn with
    | nil => rfl
    | append_singleton ops op ih => rw [run_concat, selfParticipant_apply, ih]
  refine ⟨?_, ?_, ?_⟩
  · rw [hn, run_concat]
    apply Overlap.isSome_participant?_heartbeat
    rw [hself]
    exact hpeer
  · rw [hn, List.append_assoc, List.cons_append, run_append]
    have hgone := (located_run me config before).not_lists_of_timedOut hevicted topicName
      messageType isPublisher
    apply not_lists_run (n := Node.removeTimedOutParticipants _ now) hgone
    intro t m b hmem
    rcases List.mem_append.mp hmem with hmem | hmem
    · exact hsilent t m b hmem
    · simp at hmem
  · apply lists_handleTopicAnnouncement
    rw [hn, hself]
    exact hpeer

/-- Participant 6 announces itself as a publisher of the topic `t` and falls silent. -/
def departed : List Operation :=
  [.heartbeat 0 ⟨4, 5, 6⟩ [], .announcement ⟨4, 5, 6⟩ [116] [77] true]

/-- A cleanup evicts it, and a heartbeat of it comes in. -/
def returned : List Operation :=
  departed ++ .removeTimedOutParticipants (fun _ => 11000000000) :: [] ++
    [.heartbeat 12000000000 ⟨4, 5, 6⟩ []]

theorem departed_lists :
    ((fresh ⟨1, 2, 3⟩ {} : Node 1).run departed).Lists ⟨4, 5, 6⟩ [116] [77] true := by
  have hpeer : (⟨4, 5, 6⟩ : Identity).uid ≠ (⟨1, 2, 3⟩ : Identity).uid := by decide
  exact lists_handleTopicAnnouncement ((fresh ⟨1, 2, 3⟩ {}).run [.heartbeat 0 ⟨4, 5, 6⟩ []])
    hpeer [116] [77] true

theorem departed_timedOut :
    ((fresh ⟨1, 2, 3⟩ {} : Node 1).run departed).timedOut (fun _ => 11000000000) 6 = true := by
  decide

/-- The participant was a publisher, has been evicted and is registered again, and is no
publisher any more. -/
theorem returned_not_served :
    ((fresh ⟨1, 2, 3⟩ {} : Node 1).run departed).Lists ⟨4, 5, 6⟩ [116] [77] true ∧
      ((fresh ⟨1, 2, 3⟩ {} : Node 1).run departed).timedOut (fun _ => 11000000000) 6 = true ∧
      (((fresh ⟨1, 2, 3⟩ {} : Node 1).run returned).participant? 6).isSome = true ∧
      ¬ ((fresh ⟨1, 2, 3⟩ {} : Node 1).run returned).Lists ⟨4, 5, 6⟩ [116] [77] true := by
  refine ⟨departed_lists, departed_timedOut, ?_, ?_⟩
  · rw [returned, run_concat]
    exact Overlap.isSome_participant?_heartbeat (by decide) _ _
  · rw [returned, List.append_assoc, run_append]
    have hgone := (located_run ⟨1, 2, 3⟩ {} departed).not_lists_of_timedOut (p := ⟨4, 5, 6⟩)
      departed_timedOut [116] [77] true
    exact not_lists_run (n := Node.removeTimedOutParticipants _ _) hgone (by simp)

theorem rejoined_by_advertisement_returned :
    (((fresh ⟨1, 2, 3⟩ {} : Node 1).run returned).participant? 6).isSome = true ∧
      ¬ ((fresh ⟨1, 2, 3⟩ {} : Node 1).run returned).Lists ⟨4, 5, 6⟩ [116] [77] true ∧
      (((fresh ⟨1, 2, 3⟩ {} : Node 1).run returned).apply
        (.announcement ⟨4, 5, 6⟩ [116] [77] true)).Lists ⟨4, 5, 6⟩ [116] [77] true := by
  have hrun : (fresh ⟨1, 2, 3⟩ {} : Node 1).run returned = (fresh ⟨1, 2, 3⟩ {}).run
      (departed ++ .removeTimedOutParticipants (fun _ => 11000000000) :: [] ++
        [.heartbeat 12000000000 ⟨4, 5, 6⟩ []]) := by
    rw [returned]
  have hpeer : (⟨4, 5, 6⟩ : Identity).uid ≠ (⟨1, 2, 3⟩ : Identity).uid := by decide
  have hreturned := rejoined_by_advertisement ⟨1, 2, 3⟩ {} departed (fun _ => 11000000000)
    hpeer departed_timedOut (by simp) 12000000000 [] [116] [77] true hrun
  exact hreturned

end Node

end Edriel
