import Edriel.Announcement

namespace Edriel

open Proto3 Std

/-- One topic name goes on where the other ends, past a separator of its own, and the message
types make up for it. -/
def Continues (t m t' m' : Bytes) : Prop :=
  ∃ w, t' = t ++ kTopicKeySeparator :: w ∧ m = w ++ kTopicKeySeparator :: m'

/-- Two pairs share a key although they differ. -/
def Collide (t m t' m' : Bytes) : Prop :=
  Continues t m t' m' ∨ Continues t' m' t m

theorem makeCompositeKey_of_continues {t m t' m' : Bytes} (h : Continues t m t' m') :
    makeCompositeKey t m = makeCompositeKey t' m' := by
  obtain ⟨w, rfl, rfl⟩ := h
  rw [makeCompositeKey, makeCompositeKey, List.append_assoc, List.cons_append]

/-- What is left of a key when a part of its topic name is taken off. -/
theorem continues_of_append {t m m' a : Bytes}
    (h : kTopicKeySeparator :: m = a ++ kTopicKeySeparator :: m') :
    (a = [] ∧ m = m') ∨ Continues t m (t ++ a) m' := by
  cases a with
  | nil =>
      left
      exact ⟨rfl, (List.cons.inj h).2⟩
  | cons b w =>
      right
      obtain ⟨rfl, hm⟩ := List.cons.inj h
      exact ⟨w, rfl, hm⟩

theorem makeCompositeKey_eq_iff (t m t' m' : Bytes) :
    makeCompositeKey t m = makeCompositeKey t' m' ↔ (t, m) = (t', m') ∨ Collide t m t' m' := by
  constructor
  · intro h
    rcases List.append_eq_append_iff.mp h with ⟨a, rfl, hrest⟩ | ⟨a, rfl, hrest⟩
    · rcases continues_of_append (t := t) hrest with ⟨rfl, rfl⟩ | hcontinues
      · left
        rw [List.append_nil]
      · exact Or.inr (Or.inl hcontinues)
    · rcases continues_of_append (t := t') hrest with ⟨rfl, rfl⟩ | hcontinues
      · left
        rw [List.append_nil]
      · exact Or.inr (Or.inr hcontinues)
  · rintro (heq | hcontinues | hcontinues)
    · obtain ⟨rfl, rfl⟩ := Prod.mk.inj heq
      rfl
    · exact makeCompositeKey_of_continues hcontinues
    · exact (makeCompositeKey_of_continues hcontinues).symm

theorem not_collide_of_notMem {t m t' m' : Bytes} (ht : kTopicKeySeparator ∉ t)
    (ht' : kTopicKeySeparator ∉ t') : ¬ Collide t m t' m' := by
  rintro (⟨w, rfl, -⟩ | ⟨w, rfl, -⟩)
  · exact ht' (List.mem_append_right _ List.mem_cons_self)
  · exact ht (List.mem_append_right _ List.mem_cons_self)

theorem insert_eq_self_iff {α : Type*} [Ord α] [TransOrd α] [LawfulEqOrd α] {s : ExtTreeSet α}
    {p : α} : s.insert p = s ↔ p ∈ s := by
  constructor
  · intro h
    rw [← h]
    exact ExtTreeSet.mem_insert_self
  · intro hmem
    apply ExtTreeSet.ext_mem
    intro q
    rw [ExtTreeSet.mem_insert, LawfulEqOrd.compare_eq_iff_eq]
    constructor
    · rintro (rfl | hq)
      · exact hmem
      · exact hq
    · exact Or.inr

namespace TopicEntry

def announced (entry : TopicEntry) (sender : Identity) (topicName messageType : Bytes)
    (isPublisher : Bool) : TopicEntry :=
  if isPublisher then
    { entry with topicName, messageType, publishers := entry.publishers.insert sender }
  else
    { entry with topicName, messageType, subscribers := entry.subscribers.insert sender }

/-- The entry has the names of an announcement and its sender already. -/
def Has (entry : TopicEntry) (sender : Identity) (topicName messageType : Bytes)
    (isPublisher : Bool) : Prop :=
  entry.topicName = topicName ∧ entry.messageType = messageType ∧
    sender ∈ if isPublisher then entry.publishers else entry.subscribers

theorem announced_eq_self_iff (entry : TopicEntry) (sender : Identity)
    (topicName messageType : Bytes) (isPublisher : Bool) :
    entry.announced sender topicName messageType isPublisher = entry ↔
      entry.Has sender topicName messageType isPublisher := by
  obtain ⟨topicName', messageType', reliable, publishers, subscribers, callbacks⟩ := entry
  cases isPublisher with
  | true =>
      simp only [announced, Has, if_true, TopicEntry.mk.injEq, insert_eq_self_iff, true_and,
        and_true]
      rw [eq_comm, eq_comm (a := messageType)]
  | false =>
      simp only [announced, Has, Bool.false_eq_true, if_false, TopicEntry.mk.injEq,
        insert_eq_self_iff, true_and, and_true]
      rw [eq_comm, eq_comm (a := messageType)]

end TopicEntry

namespace Node

variable {N : Nat} [NeZero N]

theorem topic?_handleTopicAnnouncement (n : Node N) (sender : Identity)
    (topicName messageType : Bytes) (isPublisher : Bool) (key : Bytes) :
    (n.handleTopicAnnouncement sender topicName messageType isPublisher).topic? key =
      if sender.uid ≠ n.selfParticipant.uid ∧ makeCompositeKey topicName messageType = key then
        some (((n.topic? key).getD {}).announced sender topicName messageType isPublisher)
      else n.topic? key := by
  rw [handleTopicAnnouncement]
  by_cases hself : sender.uid = n.selfParticipant.uid
  · rw [if_pos hself, if_neg (fun h => h.1 hself)]
  · rw [if_neg hself, topic?_updateTopic]
    by_cases hkey : makeCompositeKey topicName messageType = key
    · have htouched : sender.uid ≠ n.selfParticipant.uid ∧
          makeCompositeKey topicName messageType = key := ⟨hself, hkey⟩
      rw [if_pos hkey, if_pos htouched, hkey]
      rfl
    · rw [if_neg hkey, if_neg (fun h => hkey h.2)]

/-- An announcement leaves the entry of a key alone when it is the node's own, is for another
key, or says nothing new. -/
theorem topic?_handleTopicAnnouncement_eq_iff (n : Node N) (sender : Identity)
    (topicName messageType : Bytes) (isPublisher : Bool) (key : Bytes) :
    (n.handleTopicAnnouncement sender topicName messageType isPublisher).topic? key =
        n.topic? key ↔
      sender.uid = n.selfParticipant.uid ∨ makeCompositeKey topicName messageType ≠ key ∨
        ∃ entry, n.topic? key = some entry ∧
          entry.Has sender topicName messageType isPublisher := by
  rw [topic?_handleTopicAnnouncement]
  split_ifs with htouched
  · obtain ⟨hself, hkey⟩ := htouched
    cases hentry : n.topic? key with
    | none =>
        refine iff_of_false (fun h => by cases h) ?_
        rintro (hown | hother | ⟨entry, hsome, -⟩)
        · exact hself hown
        · exact hother hkey
        · cases hsome
    | some entry =>
        rw [Option.getD_some, Option.some_inj, TopicEntry.announced_eq_self_iff]
        constructor
        · exact fun hhas => Or.inr (Or.inr ⟨entry, rfl, hhas⟩)
        · rintro (hown | hother | ⟨entry', hsome, hhas⟩)
          · exact absurd hown hself
          · exact absurd hkey hother
          · obtain rfl := Option.some.inj hsome
            exact hhas
  · refine iff_of_true rfl ?_
    by_contra huntouched
    rw [not_or, not_or, not_not] at huntouched
    exact htouched ⟨huntouched.1, huntouched.2.1⟩

end Node

/-- An announcement leaves the entry of another pair alone unless the two share a key. -/
theorem announcement_frame_iff {N : Nat} [NeZero N] (n : Node N) (sender : Identity)
    {t m t' m' : Bytes} (hdistinct : (t, m) ≠ (t', m')) (isPublisher : Bool) :
    (n.handleTopicAnnouncement sender t m isPublisher).topic? (makeCompositeKey t' m') =
        n.topic? (makeCompositeKey t' m') ↔
      sender.uid = n.selfParticipant.uid ∨ ¬ Collide t m t' m' ∨
        ∃ entry, n.topic? (makeCompositeKey t' m') = some entry ∧
          entry.Has sender t m isPublisher := by
  rw [Node.topic?_handleTopicAnnouncement_eq_iff, Ne, makeCompositeKey_eq_iff,
    or_iff_right hdistinct]

/-- A node that has heard of publisher 7 under the topic name a, separator, b and the type
C. -/
def heardNode {N : Nat} [NeZero N] : Node N :=
  (Node.fresh ⟨1, 1, 1⟩ {}).handleTopicAnnouncement ⟨7, 7, 7⟩ [97, 0x1F, 98] [67] true

/-- Subscriber 8 of the topic a announces the type b, separator, C. -/
theorem announcement_crosses :
    (validUtf8 [97, 0x1F, 98] = true ∧ validUtf8 [98, 0x1F, 67] = true) ∧
      ¬ ((heardNode : Node 1).handleTopicAnnouncement ⟨8, 8, 8⟩ [97] [98, 0x1F, 67] false).topic?
          (makeCompositeKey [97, 0x1F, 98] [67]) =
        (heardNode : Node 1).topic? (makeCompositeKey [97, 0x1F, 98] [67]) := by
  have hheard : (heardNode : Node 1).topic? (makeCompositeKey [97, 0x1F, 98] [67]) =
      some (({} : TopicEntry).announced ⟨7, 7, 7⟩ [97, 0x1F, 98] [67] true) := by
    rw [heardNode, Node.topic?_handleTopicAnnouncement, if_pos ⟨by decide, rfl⟩]
    rfl
  refine ⟨⟨by decide +kernel, by decide +kernel⟩, ?_⟩
  rw [Node.topic?_handleTopicAnnouncement_eq_iff, hheard]
  rintro (hown | hother | ⟨entry, hsome, hname, -⟩)
  · exact absurd hown (by decide)
  · exact hother rfl
  · rw [← Option.some.inj hsome] at hname
    exact absurd hname (by decide)

theorem announcement_frame_plain :
    ((heardNode : Node 1).handleTopicAnnouncement ⟨8, 8, 8⟩ [97] [67] false).topic?
        (makeCompositeKey [98] [67]) =
      (heardNode : Node 1).topic? (makeCompositeKey [98] [67]) := by
  refine (announcement_frame_iff (heardNode : Node 1) ⟨8, 8, 8⟩ (by decide) false).mpr ?_
  exact Or.inr (Or.inl (not_collide_of_notMem (by decide) (by decide)))

end Edriel
