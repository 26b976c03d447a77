import Edriel.Listed
import Edriel.SubscriberTable
import Edriel.TidLifecycle

namespace Edriel

open Proto3 Std Interleaving

namespace Node

variable {N : Nat} [NeZero N]

def Subscribes (n : Node N) (key : Bytes) (p : Identity) : Prop :=
  ∃ entry, n.topic? key = some entry ∧ p ∈ entry.subscribers

/-- Every recorded subscriber has a pid that fits the wire. -/
def WirePids (n : Node N) : Prop :=
  ∀ key p, n.Subscribes key p → p.pid.toNat < 2 ^ 32

theorem subscribes_iff {n : Node N} {key : Bytes} {p : Identity} :
    n.Subscribes key p ↔ n.ListedAt (shardIndexForTopic key) key false p :=
  Iff.rfl

/-- Only an announcement adds a subscriber. -/
theorem subscribes_apply {n : Node N} {op : Operation} {key : Bytes} {p : Identity}
    (h : (n.apply op).Subscribes key p) :
    n.Subscribes key p ∨
      ∃ topicName messageType isPublisher,
        op = .announcement p topicName messageType isPublisher :=
  (listedAt_apply (subscribes_iff.mp h)).imp_left subscribes_iff.mpr

theorem wirePids_apply {n : Node N} {op : WireOperation} (h : n.WirePids) :
    (n.apply op.op).WirePids := by
  intro key p hp
  rcases subscribes_apply hp with hp | ⟨topicName, messageType, isPublisher, hop⟩
  · exact h key p hp
  · have hwire := op.onWire
    rw [hop] at hwire
    exact hwire

end Node

theorem Identity.subscriberKey_inj {p q : Identity} (hp : p.pid.toNat < 2 ^ 32)
    (hq : q.pid.toNat < 2 ^ 32) (h : p.subscriberKey = q.subscriberKey) : p = q := by
  obtain ⟨hpid, htid, huid⟩ := SubscriberKey.mk.inj h
  have hnat : p.pid.toNat % 2 ^ 32 = q.pid.toNat % 2 ^ 32 := by
    simpa using congrArg UInt32.toNat hpid
  rw [Nat.mod_eq_of_lt hp, Nat.mod_eq_of_lt hq] at hnat
  have hpid : p.pid = q.pid := UInt64.toNat_inj.mp hnat
  obtain ⟨pid, tid, uid⟩ := p
  exact congr (congr (congrArg Identity.mk hpid) htid) huid

namespace Server

variable {N : Nat}

theorem node_react (s : Server N) (j : Nat) (e : RpcEvent OutFrame) (r : Rpc OutFrame) :
    (s.react j e r).2.node = s.node := by
  cases e with
  | register sk =>
      simp only [react, registerSubscriber]
      split
      · rfl
      · split <;> rfl
  | unregister sk =>
      simp only [react, unregisterSubscriber]
      split <;> rfl
  | _ => rfl

theorem node_of_stepped [NeZero N] {s s' : Server N} {e : ServerEvent} (h : Stepped s e s') :
    s'.node = s.node ∨ ∃ op : WireOperation, s'.node = s.node.apply op.op := by
  cases h with
  | registry op => exact .inr ⟨op, rfl⟩
  | reactor hstep => exact .inl (node_react s _ _ _)
  | @pushed c sub rest hcall hremaining target htarget =>
      cases target <;> exact .inl rfl
  | _ => exact .inl rfl

theorem distinct_of_opening [NeZero N] {p : ReliablePublisher} {n : Node N}
    {topicName messageType payload : Bytes} {c : Call} (hn : n.WirePids)
    (h : p.Opening n topicName messageType payload c) :
    (c.remaining.map Identity.subscriberKey).Nodup := by
  obtain ⟨entry, hentry, hremaining⟩ := h.recorded
  have hwire : ∀ q ∈ c.remaining, q.pid.toNat < 2 ^ 32 := by
    intro q hq
    rw [hremaining, ExtTreeSet.mem_toList] at hq
    exact hn _ q ⟨entry, hentry, hq⟩
  refine List.Nodup.map_on (fun q hq q' hq' => ?_) ?_
  · exact Identity.subscriberKey_inj (hwire q hq) (hwire q' hq')
  · rw [hremaining]
    refine entry.subscribers.distinct_toList.imp fun hne heq => hne ?_
    rw [heq]
    exact LawfulEqOrd.compare_eq_iff_eq.mpr rfl

end Server

end Edriel
