import Edriel.Lib.Interleaving
import Edriel.Announcement
import Edriel.Sharding

/-!
A timeout cleanup while an advertisement comes in.  Both run as several lock
sections, and the stale list is made long before it is applied.
-/

namespace Edriel

open Proto3 Std Interleaving

/-- The registry, with the stale list that the cleaner carries from one lock section
to the next. -/
structure Overlap (N : Nat) where
  node : Node N
  stale : List Participant := []

/-- The lock sections of `removeTimedOutParticipants`. -/
inductive CleanupSection (N : Nat) where
  | evict (i : Fin N)
  | purge (i : Fin N)
  | prune
deriving DecidableEq

/-- A lock section of the cleaner, or an operation of another thread that takes one
lock once. -/
inductive LockSection (N : Nat) where
  | cleaner (c : CleanupSection N)
  | worker (op : Operation)

namespace Shard

def timedOut (s : Shard) (now : UInt64 → Int) : List Participant :=
  s.participants.toList.filterMap fun entry =>
    if entry.2.shouldBeRemoved (now entry.1) then some entry.2 else none

def evict (s : Shard) (now : UInt64 → Int) : Shard :=
  { s with participants := s.participants.filter fun uid p => !p.shouldBeRemoved (now uid) }

def purge (s : Shard) (stale : List Participant) : Shard :=
  { s with topics := s.topics.filterMap fun _ entry => Node.purge stale entry }

end Shard

namespace Overlap

variable {N : Nat}

def evict (now : UInt64 → Int) (o : Overlap N) (i : Fin N) : Overlap N :=
  { node := { o.node with
      shards := Function.update o.node.shards i ((o.node.shards i).evict now) }
    stale := o.stale ++ (o.node.shards i).timedOut now }

/-- Removes the peers of the stale list from the topics of one shard. -/
def purge (o : Overlap N) (i : Fin N) : Overlap N :=
  { o with
    node := { o.node with
      shards := Function.update o.node.shards i ((o.node.shards i).purge o.stale) } }

def prune (o : Overlap N) : Overlap N :=
  { o with
    node := { o.node with
      receiver := o.stale.foldl (fun r p => r.prune p.id.uid) o.node.receiver } }

def clean (now : UInt64 → Int) (o : Overlap N) : CleanupSection N → Overlap N
  | .evict i => o.evict now i
  | .purge i => o.purge i
  | .prune => o.prune

def step [NeZero N] (now : UInt64 → Int) (o : Overlap N) : LockSection N → Overlap N
  | .cleaner c => o.clean now c
  | .worker op => { o with node := o.node.apply op }

end Overlap

def cleanupSections (N : Nat) : List (CleanupSection N) :=
  (List.finRange N).map .evict ++ ((List.finRange N).map .purge ++ [.prune])

/-- What a received advertisement runs. -/
def advertisementSections (seen : Int) (sender : Identity) (endpoints : List Endpoint)
    (topicName messageType : Bytes) (isPublisher : Bool) : List Operation :=
  [.heartbeat seen sender endpoints,
    .announcement sender topicName messageType isPublisher]

namespace Overlap

variable {N : Nat}

theorem foldl_update {ι β : Type*} [DecidableEq ι] (f : β → β) (i : ι) {l : List ι}
    (hi : i ∉ l) (shards : ι → β) :
    (fun j => if j ∈ l then f (Function.update shards i (f (shards i)) j)
      else Function.update shards i (f (shards i)) j) =
      fun j => if j ∈ i :: l then f (shards j) else shards j := by
  funext j
  by_cases hj : j = i
  · subst hj
    rw [if_neg hi, if_pos List.mem_cons_self, Function.update_self]
  · rw [Function.update_of_ne hj]
    by_cases hmem : j ∈ l
    · rw [if_pos hmem, if_pos (List.mem_cons_of_mem i hmem)]
    · rw [if_neg hmem, if_neg (fun h => hmem ((List.mem_cons.mp h).resolve_left hj))]

theorem foldl_evict (now : UInt64 → Int) {l : List (Fin N)} (hl : l.Nodup) (o : Overlap N) :
    l.foldl (evict now) o =
      { node := { o.node with
          shards := fun i =>
            if i ∈ l then (o.node.shards i).evict now else o.node.shards i }
        stale := o.stale ++ l.flatMap fun i => (o.node.shards i).timedOut now } := by
  induction l generalizing o with
  | nil => simp
  | cons j l ih =>
      obtain ⟨hj, hl⟩ := List.nodup_cons.mp hl
      have hstale : (l.flatMap fun i => ((o.evict now j).node.shards i).timedOut now) =
          l.flatMap fun i => (o.node.shards i).timedOut now := by
        apply List.flatMap_congr
        intro i hi
        have hne : i ≠ j := fun h => hj (h ▸ hi)
        simp only [evict, Function.update_of_ne hne]
      rw [List.foldl_cons, ih hl, hstale, List.flatMap_cons, ← List.append_assoc]
      simp only [evict, foldl_update (fun s : Shard => s.evict now) j hj]

theorem foldl_purge {l : List (Fin N)} (hl : l.Nodup) (o : Overlap N) :
    l.foldl purge o =
      { o with
        node := { o.node with
          shards := fun i =>
            if i ∈ l then (o.node.shards i).purge o.stale else o.node.shards i } } := by
  induction l generalizing o with
  | nil => simp
  | cons j l ih =>
      obtain ⟨hj, hl⟩ := List.nodup_cons.mp hl
      rw [List.foldl_cons, ih hl]
      simp only [purge, foldl_update (fun s : Shard => s.purge o.stale) j hj]

/-- The sections of a pass, one after another, are `removeTimedOutParticipants`. -/
theorem foldl_cleanupSections (n : Node N) (now : UInt64 → Int) :
    ((cleanupSections N).foldl (clean now) { node := n }).node =
      n.removeTimedOutParticipants now := by
  rw [cleanupSections, List.foldl_append, List.foldl_append, List.foldl_map, List.foldl_map]
  simp only [clean, foldl_evict now (List.nodup_finRange N), foldl_purge (List.nodup_finRange N),
    List.mem_finRange, if_true, List.foldl_cons, List.foldl_nil, prune, List.nil_append]
  rfl

end Overlap

namespace Node

variable {N : Nat} [NeZero N]

/-- Every participant stands under its own uid, in the shard that owns it. -/
def Located (n : Node N) : Prop :=
  ∀ (i : Fin N) (uid : UInt64) (p : Participant),
    (n.shards i).participants[uid]? = some p → i = shardIndexForUid uid ∧ p.id.uid = uid

theorem located_run (me : Identity) (config : Config) (ops : List Operation) :
    ((fresh me config : Node N).run ops).Located :=
  (heard_run me config ops).located

theorem Located.apply {n : Node N} (h : n.Located) (op : Operation) : (n.apply op).Located := by
  intro i uid p hp
  rcases participant_of_apply hp with ⟨p', hp', hid, -⟩ | ⟨-, hi, huid, -⟩
  · rw [← hid]
    exact h i uid p' hp'
  · exact ⟨hi, huid⟩

def timedOut (n : Node N) (now : UInt64 → Int) (uid : UInt64) : Bool :=
  (n.participant? uid).any fun p => p.shouldBeRemoved (now uid)

theorem lists_iff (n : Node N) (sender : Identity) (topicName messageType : Bytes)
    (isPublisher : Bool) :
    n.Lists sender topicName messageType isPublisher ↔
      ∃ entry, n.topic? (makeCompositeKey topicName messageType) = some entry ∧
        sender ∈ entry.side isPublisher := by
  cases isPublisher <;> exact Iff.rfl

theorem mem_filter_not_stale (stale : List Participant) (s : ExtTreeSet Identity)
    (p : Identity) :
    p ∈ s.filter (fun p => !isStale stale p) ↔ p ∈ s ∧ isStale stale p = false := by
  rw [← ExtTreeSet.mem_toList, ExtTreeSet.toList_filter, List.mem_filter, ExtTreeSet.mem_toList,
    Bool.not_eq_true']

theorem purge_side_iff (stale : List Participant) (entry : TopicEntry) (isPublisher : Bool)
    (p : Identity) :
    (∃ e, purge stale entry = some e ∧ p ∈ e.side isPublisher) ↔
      p ∈ entry.side isPublisher ∧ isStale stale p = false := by
  have hside : p ∈ (entry.side isPublisher).filter (fun p => !isStale stale p) ↔
      p ∈ entry.side isPublisher ∧ isStale stale p = false :=
    mem_filter_not_stale stale _ p
  rw [← hside, purge]
  split
  · rename_i hempty
    simp only [Bool.and_eq_true] at hempty
    obtain ⟨⟨hpublishers, hsubscribers⟩, -⟩ := hempty
    constructor
    · rintro ⟨e, he, -⟩
      cases he
    · intro hp
      cases isPublisher with
      | true =>
          rw [TopicEntry.side, if_pos rfl, ExtTreeSet.isEmpty_iff.mp hpublishers] at hp
          exact absurd hp ExtTreeSet.not_mem_empty
      | false =>
          rw [TopicEntry.side, if_neg (by simp), ExtTreeSet.isEmpty_iff.mp hsubscribers] at hp
          exact absurd hp ExtTreeSet.not_mem_empty
  · simp only [Option.some.injEq, exists_eq_left']
    cases isPublisher <;> exact Iff.rfl

end Node

namespace Overlap

variable {N : Nat} [NeZero N] {now : UInt64 → Int} {o : Overlap N}

theorem participant?_evict (i : Fin N) (uid : UInt64) :
    (o.evict now i).node.participant? uid =
      if i = Node.shardIndexForUid uid then
        (o.node.participant? uid).filter fun p => !p.shouldBeRemoved (now uid)
      else o.node.participant? uid := by
  simp only [Node.participant?, evict, Function.update_apply, eq_comm (a := i)]
  split
  · rename_i hi
    rw [Shard.evict, ExtTreeMap.getElem?_filter', hi]
  · rfl

theorem topic?_evict (i : Fin N) (key : Bytes) :
    (o.evict now i).node.topic? key = o.node.topic? key := by
  simp only [Node.topic?, evict, Function.update_apply]
  split
  · rename_i hi
    rw [Shard.evict, hi]
  · rfl

theorem participant?_purge (i : Fin N) (uid : UInt64) :
    (o.purge i).node.participant? uid = o.node.participant? uid := by
  simp only [Node.participant?, purge, Function.update_apply]
  split
  · rename_i hi
    rw [Shard.purge, hi]
  · rfl

theorem topic?_purge (i : Fin N) (key : Bytes) :
    (o.purge i).node.topic? key =
      if i = Node.shardIndexForTopic key then
        (o.node.topic? key).bind (Node.purge o.stale)
      else o.node.topic? key := by
  simp only [Node.topic?, purge, Function.update_apply, eq_comm (a := i)]
  split
  · rename_i hi
    rw [Shard.purge, ExtTreeMap.getElem?_filterMap', hi]
  · rfl

theorem isStale_timedOut (h : o.node.Located) (i : Fin N) (p : Identity) :
    Node.isStale ((o.node.shards i).timedOut now) p = true ↔
      i = Node.shardIndexForUid p.uid ∧ o.node.timedOut now p.uid = true := by
  have hmem : Node.isStale ((o.node.shards i).timedOut now) p = true ↔
      ∃ (uid : UInt64) (q : Participant), (o.node.shards i).participants[uid]? = some q ∧
        q.shouldBeRemoved (now uid) = true ∧ q.id.uid = p.uid := by
    simp only [Node.isStale, Shard.timedOut, List.any_eq_true, List.mem_filterMap,
      Option.ite_none_right_eq_some, Option.some.injEq, beq_iff_eq, Prod.exists,
      ExtTreeMap.mem_toList_iff_getElem?_eq_some]
    constructor
    · rintro ⟨q, ⟨uid, q', hq, hremoved, rfl⟩, huid⟩
      exact ⟨uid, q', hq, hremoved, huid⟩
    · rintro ⟨uid, q, hq, hremoved, huid⟩
      exact ⟨q, ⟨uid, q, hq, hremoved, rfl⟩, huid⟩
  rw [hmem, Node.timedOut, Option.any_eq_true]
  constructor
  · rintro ⟨uid, q, hq, hremoved, huid⟩
    obtain ⟨rfl, hid⟩ := h i uid q hq
    obtain rfl : uid = p.uid := hid.symm.trans huid
    exact ⟨rfl, q, hq, hremoved⟩
  · rintro ⟨rfl, q, hq, hremoved⟩
    exact ⟨p.uid, q, hq, hremoved, (h _ _ q hq).2⟩

theorem isStale_evict (h : o.node.Located) (i : Fin N) (p : Identity) :
    Node.isStale (o.evict now i).stale p = true ↔
      Node.isStale o.stale p = true ∨
        i = Node.shardIndexForUid p.uid ∧ o.node.timedOut now p.uid = true := by
  rw [← isStale_timedOut h, evict, Node.isStale, List.any_append, Bool.or_eq_true]
  rfl

theorem lists_purge (i : Fin N) (p : Identity) (topicName messageType : Bytes)
    (isPublisher : Bool) :
    (o.purge i).node.Lists p topicName messageType isPublisher ↔
      o.node.Lists p topicName messageType isPublisher ∧
        ¬ (i = Node.shardIndexForTopic (makeCompositeKey topicName messageType) ∧
          Node.isStale o.stale p = true) := by
  rw [Node.lists_iff, Node.lists_iff, topic?_purge]
  split
  · rename_i hi
    simp only [hi, true_and, Bool.not_eq_true]
    constructor
    · rintro ⟨e, he, hp⟩
      obtain ⟨entry, hentry, hpurge⟩ := Option.bind_eq_some_iff.mp he
      obtain ⟨hside, hstale⟩ := (Node.purge_side_iff _ _ _ _).mp ⟨e, hpurge, hp⟩
      exact ⟨⟨entry, hentry, hside⟩, hstale⟩
    · rintro ⟨⟨entry, hentry, hside⟩, hstale⟩
      obtain ⟨e, hpurge, hp⟩ := (Node.purge_side_iff _ _ _ _).mpr ⟨hside, hstale⟩
      exact ⟨e, Option.bind_eq_some_iff.mpr ⟨entry, hentry, hpurge⟩, hp⟩
  · rename_i hi
    simp [hi]

theorem located_clean (h : o.node.Located) (c : CleanupSection N) :
    (o.clean now c).node.Located := by
  intro i uid p hp
  cases c with
  | evict j =>
      simp only [clean, evict, Function.update_apply] at hp
      split at hp
      · rename_i hi
        rw [Shard.evict, ExtTreeMap.getElem?_filter'] at hp
        rw [hi]
        exact h j uid p (Option.filter_eq_some_iff.mp hp).1
      · exact h i uid p hp
  | purge j =>
      simp only [clean, purge, Function.update_apply] at hp
      split at hp
      · rename_i hi
        exact h i uid p (hi ▸ hp)
      · exact h i uid p hp
  | prune => exact h i uid p hp

theorem located_foldl (now : UInt64 → Int) (h : o.node.Located)
    (l : List (CleanupSection N)) : (l.foldl (clean now) o).node.Located := by
  induction l generalizing o with
  | nil => exact h
  | cons c l ih => exact ih (located_clean h c)

theorem participant?_clean (c : CleanupSection N) (uid : UInt64) :
    (o.clean now c).node.participant? uid =
      if c = .evict (Node.shardIndexForUid uid) then
        (o.node.participant? uid).filter fun p => !p.shouldBeRemoved (now uid)
      else o.node.participant? uid := by
  cases c with
  | evict i => simp only [clean, participant?_evict, CleanupSection.evict.injEq]
  | purge i => rw [clean, participant?_purge, if_neg (by simp)]
  | prune => rw [clean, if_neg (by simp)]; rfl

theorem participant?_foldl (l : List (CleanupSection N)) (uid : UInt64) :
    (l.foldl (clean now) o).node.participant? uid =
      if .evict (Node.shardIndexForUid uid) ∈ l then
        (o.node.participant? uid).filter fun p => !p.shouldBeRemoved (now uid)
      else o.node.participant? uid := by
  induction l generalizing o with
  | nil => rfl
  | cons c l ih =>
      rw [List.foldl_cons, ih, participant?_clean]
      by_cases hc : c = .evict (Node.shardIndexForUid uid)
      · rw [if_pos hc, if_pos (List.mem_cons.mpr (.inl hc.symm)), Option.filter_filter]
        simp
      · rw [if_neg hc]
        simp only [List.mem_cons, Ne.symm hc, false_or]

theorem timedOut_clean (c : CleanupSection N) (uid : UInt64)
    (hc : c ≠ .evict (Node.shardIndexForUid uid)) :
    (o.clean now c).node.timedOut now uid = o.node.timedOut now uid := by
  rw [Node.timedOut, participant?_clean, if_neg hc, Node.timedOut]

theorem isStale_clean (h : o.node.Located) (c : CleanupSection N) (p : Identity) :
    Node.isStale (o.clean now c).stale p = true ↔
      Node.isStale o.stale p = true ∨
        c = .evict (Node.shardIndexForUid p.uid) ∧ o.node.timedOut now p.uid = true := by
  cases c with
  | evict i => simp only [clean, isStale_evict h, CleanupSection.evict.injEq]
  | purge i => simp [clean, purge]
  | prune => simp [clean, prune]

/-- A peer is on the stale list exactly when its shard was swept while it had timed
out. -/
theorem isStale_foldl (h : o.node.Located) (l : List (CleanupSection N)) (p : Identity) :
    Node.isStale (l.foldl (clean now) o).stale p = true ↔
      Node.isStale o.stale p = true ∨
        .evict (Node.shardIndexForUid p.uid) ∈ l ∧ o.node.timedOut now p.uid = true := by
  induction l generalizing o with
  | nil => simp
  | cons c l ih =>
      rw [List.foldl_cons, ih (located_clean h c), isStale_clean h, List.mem_cons]
      by_cases hc : c = .evict (Node.shardIndexForUid p.uid)
      · have hgone : (o.clean now c).node.timedOut now p.uid = false := by
          rw [Node.timedOut, participant?_clean, if_pos hc, Option.any_eq_false_iff_get]
          intro hsome
          have hkept := (Option.filter_eq_some_iff.mp (Option.some_get hsome).symm).2
          simpa using hkept
        rw [hgone]
        simp [hc]
      · rw [timedOut_clean c p.uid hc]
        simp [hc, Ne.symm hc]

theorem lists_clean (c : CleanupSection N) (p : Identity) (topicName messageType : Bytes)
    (isPublisher : Bool) :
    (o.clean now c).node.Lists p topicName messageType isPublisher ↔
      o.node.Lists p topicName messageType isPublisher ∧
        ¬ (c = .purge (Node.shardIndexForTopic (makeCompositeKey topicName messageType)) ∧
          Node.isStale o.stale p = true) := by
  cases c with
  | evict i =>
      rw [clean, Node.Lists, topic?_evict]
      simp [Node.Lists]
  | purge i => simp only [clean, lists_purge, CleanupSection.purge.injEq]
  | prune => simp [clean, prune, Node.Lists, Node.topic?]

/-- What a stretch of a pass takes out of a topic entry, when no peer is evicted in it
after the topic has been purged. -/
theorem lists_foldl (h : o.node.Located) (l : List (CleanupSection N)) (p : Identity)
    (topicName messageType : Bytes) (isPublisher : Bool)
    (horder : ¬ [.purge (Node.shardIndexForTopic (makeCompositeKey topicName messageType)),
      .evict (Node.shardIndexForUid p.uid)].Sublist l) :
    (l.foldl (clean now) o).node.Lists p topicName messageType isPublisher ↔
      o.node.Lists p topicName messageType isPublisher ∧
        ¬ (.purge (Node.shardIndexForTopic (makeCompositeKey topicName messageType)) ∈ l ∧
          Node.isStale (l.foldl (clean now) o).stale p = true) := by
  induction l using List.reverseRecOn with
  | nil => simp
  | append_singleton l c ih =>
      have hold := ih fun hsub => horder (hsub.trans (List.sublist_append_left l [c]))
      rw [List.foldl_append, List.foldl_cons, List.foldl_nil, lists_clean, hold,
        isStale_clean (located_foldl now h l), List.mem_append, List.mem_singleton]
      by_cases hevict : c = .evict (Node.shardIndexForUid p.uid)
      · have hnot : .purge (Node.shardIndexForTopic
            (makeCompositeKey topicName messageType)) ∉ l := by
          intro hmem
          apply horder
          rw [hevict]
          exact (List.singleton_sublist.mpr hmem).append (.refl _)
        simp [hevict, hnot]
      · simp only [hevict, false_and, or_false, eq_comm (a := c)]
        rw [and_assoc, ← not_or, ← or_and_right]

omit [NeZero N] in
theorem nodup_cleanupSections : (cleanupSections N).Nodup := by
  rw [cleanupSections]
  refine List.Nodup.append ?_ (List.Nodup.append ?_ (List.nodup_singleton _) ?_) ?_
  · exact (List.nodup_finRange N).map fun i j h => CleanupSection.evict.inj h
  · exact (List.nodup_finRange N).map fun i j h => CleanupSection.purge.inj h
  · simp [List.Disjoint]
  · simp [List.Disjoint]

omit [NeZero N] in
/-- Every shard is swept for stale peers before any topic is purged. -/
theorem not_sublist_cleanupSections (i j : Fin N) :
    ¬ [CleanupSection.purge i, .evict j].Sublist (cleanupSections N) := by
  intro hsub
  have hpairwise : (cleanupSections N).Pairwise fun a b =>
      ¬ (a = CleanupSection.purge i ∧ b = CleanupSection.evict j) := by
    rw [cleanupSections, List.pairwise_append]
    refine ⟨?_, ?_, ?_⟩
    · rw [List.pairwise_map]
      exact List.pairwise_of_forall fun a b => by simp
    · rw [List.pairwise_append, List.pairwise_map]
      refine ⟨List.pairwise_of_forall fun a b => by simp, List.pairwise_singleton _ _, ?_⟩
      simp
    · intro a ha b _
      obtain ⟨k, -, rfl⟩ := List.mem_map.mp ha
      simp
  have hpair := hpairwise.sublist hsub
  simp at hpair

/-- A peer that is in the registry stands in the set of the topic it announced. -/
def Kept (o : Overlap N) (sender : Identity) (topicName messageType : Bytes)
    (isPublisher : Bool) : Prop :=
  (o.node.participant? sender.uid).isSome = true →
    o.node.Lists sender topicName messageType isPublisher

theorem filter_eq_none_of_timedOut {uid : UInt64} (h : o.node.timedOut now uid = true) :
    (o.node.participant? uid).filter (fun p => !p.shouldBeRemoved (now uid)) = none := by
  obtain ⟨p, hp, hremoved⟩ := (Option.any_eq_true _ _).mp h
  rw [hp, Option.filter_some, hremoved]
  rfl

theorem isSome_participant?_heartbeat {n : Node N} {sender : Identity}
    (hpeer : sender.uid ≠ n.selfParticipant.uid) (seen : Int) (endpoints : List Endpoint) :
    ((n.apply (.heartbeat seen sender endpoints)).participant? sender.uid).isSome = true := by
  rw [← Node.apply_ofHash, Placement.apply, if_neg hpeer]
  show ((Placement.ofHash fnv1a64).participant? _ _).isSome = true
  rw [Placement.participant?_alterParticipant, if_pos rfl]
  split <;> rfl

theorem participant?_of_isStale_foldl (h : o.node.Located) (l : List (CleanupSection N))
    (p : Identity)
    (hold : Node.isStale o.stale p = true → o.node.participant? p.uid = none)
    (hstale : Node.isStale (l.foldl (clean now) o).stale p = true) :
    (l.foldl (clean now) o).node.participant? p.uid = none := by
  rw [participant?_foldl]
  rcases (isStale_foldl h l p).mp hstale with hstale | ⟨hmem, htimedOut⟩
  · rw [hold hstale]
    split <;> rfl
  · rw [if_pos hmem]
    exact filter_eq_none_of_timedOut htimedOut

theorem participant?_announcement (n : Node N) (sender : Identity)
    (topicName messageType : Bytes) (isPublisher : Bool) (uid : UInt64) :
    (n.apply (.announcement sender topicName messageType isPublisher)).participant? uid =
      n.participant? uid := by
  rw [Node.apply, Node.participant?, Node.participants_handleTopicAnnouncement, Node.participant?]

omit [NeZero N] in
theorem selfParticipant_foldl (l : List (CleanupSection N)) :
    (l.foldl (clean now) o).node.selfParticipant = o.node.selfParticipant := by
  induction l generalizing o with
  | nil => rfl
  | cons c l ih =>
      rw [List.foldl_cons, ih]
      cases c <;> rfl

/-- What holds while the last stretch `after` of a pass is still to run: the sender was heard
behind the stretch `before`, in `o₂`, and has announced the topic behind `between`, in `o₄`. -/
structure Returned (now : UInt64 → Int) (n : Node N) (sender : Identity)
    (topicName messageType : Bytes) (isPublisher : Bool)
    (before between : List (CleanupSection N)) (o₂ o₄ : Overlap N) : Prop where
  located₂ : o₂.node.Located
  located₄ : o₄.node.Located
  present : (o₂.node.participant? sender.uid).isSome = true
  same : o₄.node.participant? sender.uid =
    (between.foldl (clean now) o₂).node.participant? sender.uid
  listed : o₄.node.Lists sender topicName messageType isPublisher
  stale₂ : Node.isStale o₂.stale sender = true ↔
    .evict (Node.shardIndexForUid sender.uid) ∈ before ∧ n.timedOut now sender.uid = true
  stale₄ : Node.isStale o₄.stale sender =
    Node.isStale (between.foldl (clean now) o₂).stale sender

section Returned

variable {n : Node N} {sender : Identity} {topicName messageType : Bytes} {isPublisher : Bool}
  {before between after : List (CleanupSection N)} {o₂ o₄ : Overlap N}

theorem returned_of_sections (hn : n.Located) (seen : Int)
    (hpeer : sender.uid ≠ n.selfParticipant.uid) (endpoints : List Endpoint)
    (h₂ : o₂ = (before.foldl (clean now) { node := n }).step now
      (.worker (.heartbeat seen sender endpoints)))
    (h₄ : o₄ = (between.foldl (clean now) o₂).step now
      (.worker (.announcement sender topicName messageType isPublisher))) :
    Returned now n sender topicName messageType isPublisher before between o₂ o₄ := by
  have hself₁ : (before.foldl (clean now) { node := n }).node.selfParticipant =
      n.selfParticipant :=
    selfParticipant_foldl before
  have hself₂ : o₂.node.selfParticipant = n.selfParticipant := by
    rw [h₂]
    exact (Node.selfParticipant_apply _ _).trans hself₁
  have hlocated₂ : o₂.node.Located := by
    rw [h₂]
    exact (located_foldl now hn before).apply _
  constructor
  case located₂ => exact hlocated₂
  case located₄ =>
    rw [h₄]
    exact (located_foldl now hlocated₂ between).apply _
  case present =>
    rw [h₂]
    exact isSome_participant?_heartbeat (by rw [hself₁]; exact hpeer) seen endpoints
  case same =>
    rw [h₄]
    exact participant?_announcement _ _ _ _ _ _
  case listed =>
    rw [h₄]
    apply Node.lists_handleTopicAnnouncement
    rw [selfParticipant_foldl, hself₂]
    exact hpeer
  case stale₂ =>
    have hstale₁ : Node.isStale (before.foldl (clean now) { node := n }).stale sender = true ↔
        Node.isStale [] sender = true ∨
          .evict (Node.shardIndexForUid sender.uid) ∈ before ∧
            n.timedOut now sender.uid = true :=
      isStale_foldl hn before sender
    rw [h₂]
    exact hstale₁.trans (or_iff_right (by simp [Node.isStale]))
  case stale₄ =>
    rw [h₄]
    rfl

/-- The shard is swept before the heartbeat, so the sender stays in the registry. -/
theorem Returned.kept_iff_of_swept
    (h : Returned now n sender topicName messageType isPublisher before between o₂ o₄)
    (hbefore : .evict (Node.shardIndexForUid sender.uid) ∈ before)
    (hbetween : .evict (Node.shardIndexForUid sender.uid) ∉ between)
    (hafter : .evict (Node.shardIndexForUid sender.uid) ∉ after)
    (horder : ¬ [CleanupSection.purge
      (Node.shardIndexForTopic (makeCompositeKey topicName messageType)),
      .evict (Node.shardIndexForUid sender.uid)].Sublist after) :
    (after.foldl (clean now) o₄).Kept sender topicName messageType isPublisher ↔
      ¬ (.purge (Node.shardIndexForTopic (makeCompositeKey topicName messageType)) ∈ after ∧
        n.timedOut now sender.uid = true) := by
  have hstale : Node.isStale (after.foldl (clean now) o₄).stale sender = true ↔
      n.timedOut now sender.uid = true := by
    rw [isStale_foldl h.located₄, h.stale₄, isStale_foldl h.located₂, h.stale₂]
    simp [hbefore, hbetween, hafter]
  rw [Kept, lists_foldl h.located₄ after sender topicName messageType isPublisher horder,
    participant?_foldl, if_neg hafter, h.same, participant?_foldl, if_neg hbetween, hstale]
  simp only [h.present, h.listed, true_and, forall_const]

/-- The shard is swept after the heartbeat: what is on the stale list is then gone. -/
theorem Returned.kept_of_not_swept
    (h : Returned now n sender topicName messageType isPublisher before between o₂ o₄)
    (hbefore : .evict (Node.shardIndexForUid sender.uid) ∉ before)
    (horder : ¬ [CleanupSection.purge
      (Node.shardIndexForTopic (makeCompositeKey topicName messageType)),
      .evict (Node.shardIndexForUid sender.uid)].Sublist after) :
    (after.foldl (clean now) o₄).Kept sender topicName messageType isPublisher := by
  have hgone₄ : Node.isStale o₄.stale sender = true →
      o₄.node.participant? sender.uid = none := by
    intro hstale
    rw [h.same]
    apply participant?_of_isStale_foldl h.located₂ between sender
    · intro hstale
      exact absurd (h.stale₂.mp hstale).1 hbefore
    · rw [← h.stale₄]
      exact hstale
  rw [Kept, lists_foldl h.located₄ after sender topicName messageType isPublisher horder]
  intro hsome
  refine ⟨h.listed, ?_⟩
  rintro ⟨-, hstale⟩
  rw [participant?_of_isStale_foldl h.located₄ after sender hgone₄ hstale] at hsome
  cases hsome

end Returned

/-- The heartbeat of the sender comes after the stretch `before`, its announcement after
the stretch `between`. -/
theorem kept_iff (now : UInt64 → Int) {n : Node N} (hn : n.Located) (seen : Int)
    {sender : Identity} (hpeer : sender.uid ≠ n.selfParticipant.uid)
    (endpoints : List Endpoint) (topicName messageType : Bytes) (isPublisher : Bool)
    {before between after : List (CleanupSection N)}
    (hsplit : cleanupSections N = before ++ (between ++ after)) {o₂ o₄ : Overlap N}
    (h₂ : o₂ = (before.foldl (clean now) { node := n }).step now
      (.worker (.heartbeat seen sender endpoints)))
    (h₄ : o₄ = (between.foldl (clean now) o₂).step now
      (.worker (.announcement sender topicName messageType isPublisher))) :
    (after.foldl (clean now) o₄).Kept sender topicName messageType isPublisher ↔
      ¬ (n.timedOut now sender.uid = true ∧
        .evict (Node.shardIndexForUid sender.uid) ∈ before ∧
        .purge (Node.shardIndexForTopic (makeCompositeKey topicName messageType)) ∈ after) := by
  have hreturned := returned_of_sections hn seen hpeer endpoints h₂ h₄
  have horder : ¬ [CleanupSection.purge
      (Node.shardIndexForTopic (makeCompositeKey topicName messageType)),
      .evict (Node.shardIndexForUid sender.uid)].Sublist after := by
    intro hsub
    apply not_sublist_cleanupSections (N := N) _ _
    rw [hsplit]
    exact hsub.trans ((List.sublist_append_right between after).trans
      (List.sublist_append_right before _))
  by_cases hbefore : .evict (Node.shardIndexForUid sender.uid) ∈ before
  · have hnodup : (before ++ (between ++ after)).Nodup := by
      rw [← hsplit]
      exact nodup_cleanupSections
    have hrest : .evict (Node.shardIndexForUid sender.uid) ∉ between ++ after :=
      hnodup.disjoint hbefore
    obtain ⟨hbetween, hafter⟩ := not_or.mp (List.mem_append.not.mp hrest)
    rw [hreturned.kept_iff_of_swept hbefore hbetween hafter horder]
    simp only [hbefore, true_and]
    exact not_congr and_comm
  · refine iff_of_true (hreturned.kept_of_not_swept hbefore horder) ?_
    rintro ⟨-, hmem, -⟩
    exact hbefore hmem

/-- While a pass runs, an announcement is lost exactly when its sender had timed out and
was evicted before the heartbeat refreshed it, and the topic is purged after the
announcement. -/
theorem announcement_kept_iff {n : Node N} (hn : n.Located) (seen : Int) {sender : Identity}
    (hpeer : sender.uid ≠ n.selfParticipant.uid) (endpoints : List Endpoint)
    (topicName messageType : Bytes) (isPublisher : Bool) {m : List (LockSection N)}
    (hm : Shuffle ((cleanupSections N).map .cleaner)
      ((advertisementSections seen sender endpoints topicName messageType isPublisher).map
        .worker) m) :
    (m.foldl (step now) { node := n }).Kept sender topicName messageType isPublisher ↔
      ¬ (n.timedOut now sender.uid = true ∧
        [.cleaner (.evict (Node.shardIndexForUid sender.uid)),
          .worker (.heartbeat seen sender endpoints),
          .worker (.announcement sender topicName messageType isPublisher),
          .cleaner (.purge (Node.shardIndexForTopic
            (makeCompositeKey topicName messageType)))].Sublist m) := by
  obtain ⟨l₁, l₂, l₃, hl, rfl⟩ := shuffle_pair.mp hm
  obtain ⟨before, rest, hsplit, rfl, hrest⟩ := List.map_eq_append_iff.mp hl
  obtain ⟨between, after, rfl, rfl, rfl⟩ := List.map_eq_append_iff.mp hrest
  rw [sublist_around_pair_iff (by simp) (by simp) (by simp) (by simp)]
  simp only [List.mem_map, LockSection.cleaner.injEq, exists_eq_right]
  rw [← kept_iff now hn seen hpeer endpoints topicName messageType isPublisher hsplit rfl rfl]
  simp only [List.foldl_append, List.foldl_cons, List.foldl_map]
  exact Iff.rfl

/-- Participant 6 is last heard at time 0. -/
def lapsed : List Operation :=
  [.heartbeat 0 ⟨4, 5, 6⟩ []]

/-- Eleven seconds later the participant is evicted, comes back with an announcement of
the topic `t`, and is purged from the topic. -/
def overtaken : List (LockSection 1) :=
  [.cleaner (.evict (Fin.last 0)), .worker (.heartbeat 11000000000 ⟨4, 5, 6⟩ []),
    .worker (.announcement ⟨4, 5, 6⟩ [116] [77] true), .cleaner (.purge (Fin.last 0)),
    .cleaner .prune]

theorem lapsed_located : ((Node.fresh ⟨1, 2, 3⟩ {} : Node 1).run lapsed).Located :=
  Node.located_run ⟨1, 2, 3⟩ {} lapsed

theorem overtaken_shuffle :
    Shuffle ((cleanupSections 1).map .cleaner)
      ((advertisementSections 11000000000 ⟨4, 5, 6⟩ [] [116] [77] true).map .worker)
      overtaken := by
  apply shuffle_pair.mpr
  exact ⟨[.cleaner (.evict (Fin.last 0))], [],
    [.cleaner (.purge (Fin.last 0)), .cleaner .prune], rfl, rfl⟩

theorem announcement_lost :
    Shuffle ((cleanupSections 1).map .cleaner)
      ((advertisementSections 11000000000 ⟨4, 5, 6⟩ [] [116] [77] true).map .worker)
      overtaken ∧
    ¬ (overtaken.foldl (step fun _ => 11000000000)
      { node := (Node.fresh ⟨1, 2, 3⟩ {}).run lapsed }).Kept ⟨4, 5, 6⟩ [116] [77] true := by
  have hpeer : (⟨4, 5, 6⟩ : Identity).uid ≠
      ((Node.fresh ⟨1, 2, 3⟩ {} : Node 1).run lapsed).selfParticipant.uid := by
    decide
  have hsplit : cleanupSections 1 =
      [.evict (Fin.last 0)] ++ ([] ++ [.purge (Fin.last 0), .prune]) := by
    rfl
  have hlost := (kept_iff (fun _ => 11000000000) lapsed_located 11000000000 hpeer [] [116] [77]
    true hsplit rfl rfl).not
  refine ⟨overtaken_shuffle, hlost.mpr (not_not.mpr ⟨?_, ?_, ?_⟩)⟩
  · decide
  · decide
  · decide

theorem announcement_kept_iff_lapsed :
    (overtaken.foldl (step fun _ => 11000000000)
        { node := (Node.fresh ⟨1, 2, 3⟩ {}).run lapsed }).Kept ⟨4, 5, 6⟩ [116] [77] true ↔
      ¬ (((Node.fresh ⟨1, 2, 3⟩ {} : Node 1).run lapsed).timedOut
          (fun _ => 11000000000) 6 = true ∧
        [.cleaner (.evict (Node.shardIndexForUid 6)),
          .worker (.heartbeat 11000000000 ⟨4, 5, 6⟩ []),
          .worker (.announcement ⟨4, 5, 6⟩ [116] [77] true),
          .cleaner (.purge (Node.shardIndexForTopic
            (makeCompositeKey [116] [77])))].Sublist overtaken) :=
  announcement_kept_iff lapsed_located 11000000000 (by decide) [] [116] [77] true overtaken_shuffle

end Overlap

end Edriel
