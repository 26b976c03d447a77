import Edriel.Isolation
import Edriel.Server

namespace Edriel

open Proto3 Std

namespace Node

variable {N : Nat}

/-- A peer with this uid has been silent for longer than its timeout. -/
def Evicted (n : Node N) (now : UInt64 → Int) (uid : UInt64) : Prop :=
  ∃ (i : Fin N) (key : UInt64) (p : Participant),
    (n.shards i).participants[key]? = some p ∧
      p.timeout * 1000000000 < now key - p.lastSeen ∧ p.id.uid = uid

/-- A topic of the shard names the peer among its publishers or its subscribers. -/
def Tracks (n : Node N) (i : Fin N) (key : Bytes) (isPublisher : Bool) (p : Identity) :
    Prop :=
  ∃ entry, (n.shards i).topics[key]? = some entry ∧ p ∈ entry.side isPublisher

def callbacksOf (n : Node N) (i : Fin N) (key : Bytes) : List Callback :=
  ((n.shards i).topics[key]?).elim [] TopicEntry.callbacks

/-- Every timeout is a 64-bit number of nanoseconds. -/
def TimeoutsFit (n : Node N) : Prop :=
  ∀ (i : Fin N) (uid : UInt64) (p : Participant), (n.shards i).participants[uid]? = some p →
    -9223372036 ≤ p.timeout ∧ p.timeout ≤ 9223372036

variable {n : Node N} {now : UInt64 → Int}

theorem timeoutNanoseconds_eq {p : Participant}
    (hfits : -9223372036 ≤ p.timeout ∧ p.timeout ≤ 9223372036) :
    p.timeoutNanoseconds = p.timeout * 1000000000 := by
  rw [Participant.timeoutNanoseconds]
  exact Int.bmod_eq_of_le (by omega) (by omega)

theorem timeoutNanoseconds_ne {p : Participant}
    (hfar : ¬ (-9223372036 ≤ p.timeout ∧ p.timeout ≤ 9223372036)) :
    p.timeoutNanoseconds ≠ p.timeout * 1000000000 := by
  have hle := @Int.bmod_lt (p.timeout * 1000000000) (2 ^ 64) (by decide)
  have hge := @Int.le_bmod (p.timeout * 1000000000) (2 ^ 64) (by decide)
  rw [Participant.timeoutNanoseconds]
  omega

theorem mem_staleParticipants (hfit : n.TimeoutsFit) (p : Participant) :
    p ∈ n.staleParticipants now ↔ ∃ (i : Fin N) (key : UInt64),
      (n.shards i).participants[key]? = some p ∧
        p.timeout * 1000000000 < now key - p.lastSeen := by
  simp only [staleParticipants, List.mem_flatMap, List.mem_finRange, true_and,
    List.mem_filterMap, Option.ite_none_right_eq_some, Option.some.injEq, Prod.exists,
    ExtTreeMap.mem_toList_iff_getElem?_eq_some, Participant.shouldBeRemoved, decide_eq_true_eq]
  constructor
  · rintro ⟨i, key, q, hq, hremoved, rfl⟩
    rw [timeoutNanoseconds_eq (hfit i key q hq)] at hremoved
    exact ⟨i, key, hq, hremoved⟩
  · rintro ⟨i, key, hp, hremoved⟩
    rw [← timeoutNanoseconds_eq (hfit i key p hp)] at hremoved
    exact ⟨i, key, p, hp, hremoved, rfl⟩

theorem evicted_iff (hfit : n.TimeoutsFit) (uid : UInt64) :
    n.Evicted now uid ↔ ∃ p ∈ n.staleParticipants now, p.id.uid = uid := by
  simp only [mem_staleParticipants hfit]
  constructor
  · rintro ⟨i, key, p, hp, hremoved, huid⟩
    exact ⟨p, ⟨i, key, hp, hremoved⟩, huid⟩
  · rintro ⟨p, ⟨i, key, hp, hremoved⟩, huid⟩
    exact ⟨i, key, p, hp, hremoved, huid⟩

theorem isStale_staleParticipants (hfit : n.TimeoutsFit) (p : Identity) :
    isStale (n.staleParticipants now) p = true ↔ n.Evicted now p.uid := by
  rw [evicted_iff hfit, isStale, List.any_eq_true]
  simp only [beq_iff_eq]

/-- A node whose configured timeout does not wrap registers no timeout that does. -/
theorem timeoutsFit_run [NeZero N] (me : Identity) {config : Config}
    (hfits : -9223372036 ≤ config.participantTimeout ∧ config.participantTimeout ≤ 9223372036)
    (ops : List Operation) : ((fresh me config : Node N).run ops).TimeoutsFit := by
  induction ops using List.reverseRecOn with
  | nil =>
      intro i uid p hp
      have hnone : ((fresh me config : Node N).shards i).participants[uid]? = none :=
        ExtTreeMap.getElem?_empty
      exact absurd (hnone.symm.trans hp) (by simp)
  | append_singleton ops op ih =>
      intro i uid p hp
      rw [run_concat] at hp
      rcases participant_of_apply hp with ⟨p', hp', -, htimeout⟩ | ⟨-, -, -, htimeout⟩
      · rw [← htimeout]
        exact ih i uid p' hp'
      · rw [htimeout, config_run]
        exact hfits

theorem purge_eq_some {stale : List Participant} {entry e : TopicEntry}
    (h : purge stale entry = some e) :
    e = { entry with
      publishers := entry.publishers.filter fun p => !isStale stale p
      subscribers := entry.subscribers.filter fun p => !isStale stale p } := by
  rw [purge] at h
  split at h
  · cases h
  · exact (Option.some.inj h).symm

theorem isEmpty_filter_iff (stale : List Participant) (s : ExtTreeSet Identity) :
    (s.filter fun p => !isStale stale p).isEmpty = true ↔
      ∀ p ∈ s, isStale stale p = true := by
  rw [ExtTreeSet.isEmpty_iff, ExtTreeSet.eq_empty_iff_forall_not_mem]
  refine forall_congr' fun p => ?_
  rw [mem_filter_not_stale, not_and, Bool.not_eq_false]

/-- An entry is dropped when it has no callbacks and all its peers are stale. -/
theorem purge_eq_none_iff (stale : List Participant) (entry : TopicEntry) :
    purge stale entry = none ↔ entry.callbacks = [] ∧
      ∀ isPublisher, ∀ p ∈ entry.side isPublisher, isStale stale p = true := by
  rw [Bool.forall_bool]
  show _ ↔ _ ∧ (∀ p ∈ entry.subscribers, _) ∧ (∀ p ∈ entry.publishers, _)
  rw [← isEmpty_filter_iff, ← isEmpty_filter_iff, ← List.isEmpty_iff, purge]
  simp only [ite_eq_left_iff, reduceCtorEq, imp_false, not_not, Bool.and_eq_true]
  tauto

theorem participants_removeTimedOutParticipants (i : Fin N) (uid : UInt64) (p : Participant) :
    ((n.removeTimedOutParticipants now).shards i).participants[uid]? = some p ↔
      (n.shards i).participants[uid]? = some p ∧ now uid - p.lastSeen ≤ p.timeoutNanoseconds := by
  rw [removeTimedOutParticipants, ExtTreeMap.getElem?_filter', Option.filter_eq_some_iff,
    Participant.shouldBeRemoved, Bool.not_eq_true', decide_eq_false_iff_not, Int.not_lt]

theorem topics_removeTimedOutParticipants (i : Fin N) (key : Bytes) :
    ((n.removeTimedOutParticipants now).shards i).topics[key]? =
      ((n.shards i).topics[key]?).bind (purge (n.staleParticipants now)) := by
  rw [removeTimedOutParticipants, ExtTreeMap.getElem?_filterMap']

theorem tracks_removeTimedOutParticipants (hfit : n.TimeoutsFit) (i : Fin N) (key : Bytes)
    (isPublisher : Bool) (p : Identity) :
    (n.removeTimedOutParticipants now).Tracks i key isPublisher p ↔
      n.Tracks i key isPublisher p ∧ ¬ n.Evicted now p.uid := by
  rw [← isStale_staleParticipants hfit, Bool.not_eq_true]
  simp only [Tracks, topics_removeTimedOutParticipants, Option.bind_eq_some_iff]
  constructor
  · rintro ⟨e, ⟨entry, hentry, hpurge⟩, hp⟩
    obtain ⟨hside, hstale⟩ := (purge_side_iff _ _ _ _).mp ⟨e, hpurge, hp⟩
    exact ⟨⟨entry, hentry, hside⟩, hstale⟩
  · rintro ⟨⟨entry, hentry, hside⟩, hstale⟩
    obtain ⟨e, hpurge, hp⟩ := (purge_side_iff _ _ _ _).mpr ⟨hside, hstale⟩
    exact ⟨e, ⟨entry, hentry, hpurge⟩, hp⟩

theorem isSome_topics_removeTimedOutParticipants (hfit : n.TimeoutsFit) (i : Fin N)
    (key : Bytes) :
    (((n.removeTimedOutParticipants now).shards i).topics[key]?).isSome = true ↔
      ∃ entry, (n.shards i).topics[key]? = some entry ∧ (entry.callbacks ≠ [] ∨
        ∃ isPublisher, ∃ p ∈ entry.side isPublisher, ¬ n.Evicted now p.uid) := by
  rw [topics_removeTimedOutParticipants, Option.isSome_bind, Option.any_eq_true]
  refine exists_congr fun entry => and_congr_right fun _ => ?_
  rw [← not_iff_not, Option.not_isSome_iff_eq_none, purge_eq_none_iff]
  simp only [isStale_staleParticipants hfit, not_or, not_not, not_exists, not_and]

theorem entry_of_removeTimedOutParticipants {i : Fin N} {key : Bytes} {e : TopicEntry}
    (h : ((n.removeTimedOutParticipants now).shards i).topics[key]? = some e) :
    ∃ entry, (n.shards i).topics[key]? = some entry ∧ e.topicName = entry.topicName ∧
      e.messageType = entry.messageType ∧ e.reliable = entry.reliable := by
  rw [topics_removeTimedOutParticipants] at h
  obtain ⟨entry, hentry, hpurge⟩ := Option.bind_eq_some_iff.mp h
  obtain rfl := purge_eq_some hpurge
  exact ⟨entry, hentry, rfl, rfl, rfl⟩

theorem callbacksOf_removeTimedOutParticipants (i : Fin N) (key : Bytes) :
    (n.removeTimedOutParticipants now).callbacksOf i key = n.callbacksOf i key := by
  rw [callbacksOf, callbacksOf, topics_removeTimedOutParticipants]
  cases (n.shards i).topics[key]? with
  | none => rfl
  | some entry =>
      rw [Option.bind_some]
      cases hpurge : purge (n.staleParticipants now) entry with
      | none => exact ((purge_eq_none_iff _ _).mp hpurge).1.symm
      | some e =>
          obtain rfl := purge_eq_some hpurge
          rfl

theorem windows_removeTimedOutParticipants (hfit : n.TimeoutsFit) (uid : UInt64) (rest : Bytes)
    (w : ReliableRxWindow) :
    (n.removeTimedOutParticipants now).receiver.reliableWindows[windowPrefix uid ++ rest]? =
        some w ↔
      n.receiver.reliableWindows[windowPrefix uid ++ rest]? = some w ∧
        ¬ n.Evicted now uid := by
  refine (ReliableReceiver.getElem?_foldl_prune _ _ _ w).trans (and_congr_right fun _ => ?_)
  rw [evicted_iff hfit]
  simp only [windowPrefix_isPrefixOf_iff, not_exists, not_and]

theorem windows_removeTimedOutParticipants_of_ne {key : Bytes}
    (hkey : ∀ uid rest, key ≠ windowPrefix uid ++ rest) :
    (n.removeTimedOutParticipants now).receiver.reliableWindows[key]? =
      n.receiver.reliableWindows[key]? := by
  refine Option.ext fun w => (ReliableReceiver.getElem?_foldl_prune _ _ key w).trans ?_
  refine and_iff_left fun p _ hprefix => ?_
  obtain ⟨rest, hrest⟩ := List.isPrefixOf_iff_prefix.mp hprefix
  exact hkey p.id.uid rest hrest.symm

end Node

namespace Server

variable {N : Nat}

structure CleanedUp (now : UInt64 → Int) (s s' : Server N) : Prop where
  participants : ∀ (i : Fin N) (uid : UInt64) (p : Participant),
    (s'.node.shards i).participants[uid]? = some p ↔
      (s.node.shards i).participants[uid]? = some p ∧
        now uid - p.lastSeen ≤ p.timeout * 1000000000
  sides : ∀ (i : Fin N) (key : Bytes) (isPublisher : Bool) (p : Identity),
    s'.node.Tracks i key isPublisher p ↔
      s.node.Tracks i key isPublisher p ∧ ¬ s.node.Evicted now p.uid
  windows : ∀ (uid : UInt64) (rest : Bytes) (w : ReliableRxWindow),
    s'.node.receiver.reliableWindows[windowPrefix uid ++ rest]? = some w ↔
      s.node.receiver.reliableWindows[windowPrefix uid ++ rest]? = some w ∧
        ¬ s.node.Evicted now uid
  otherWindows : ∀ key : Bytes, (∀ uid rest, key ≠ windowPrefix uid ++ rest) →
    s'.node.receiver.reliableWindows[key]? = s.node.receiver.reliableWindows[key]?
  callbacks : ∀ (i : Fin N) (key : Bytes), s'.node.callbacksOf i key = s.node.callbacksOf i key
  entries : ∀ (i : Fin N) (key : Bytes),
    ((s'.node.shards i).topics[key]?).isSome = true ↔
      ∃ entry, (s.node.shards i).topics[key]? = some entry ∧ (entry.callbacks ≠ [] ∨
        ∃ isPublisher, ∃ p ∈ entry.side isPublisher, ¬ s.node.Evicted now p.uid)
  flags : ∀ (i : Fin N) (key : Bytes) (e : TopicEntry),
    (s'.node.shards i).topics[key]? = some e →
      ∃ entry, (s.node.shards i).topics[key]? = some entry ∧ e.topicName = entry.topicName ∧
        e.messageType = entry.messageType ∧ e.reliable = entry.reliable
  sequences : ∀ key, s'.publisher.seq key = s.publisher.seq key

/-- A cleanup evicts exactly the peers that are silent for too long, with all that the
node keeps under their uids, whatever the clock reads. -/
def EvictsStale [NeZero N] (s : Server N) : Prop :=
  ∀ (now : UInt64 → Int) (op : WireOperation), op.op = .removeTimedOutParticipants now →
    ∃ s', s.step (.registry op) = some (.internal, s') ∧ s.CleanedUp now s'

theorem cleanedUp_of_timeoutsFit {s : Server N} (hfit : s.node.TimeoutsFit)
    (now : UInt64 → Int) :
    s.CleanedUp now { s with node := s.node.removeTimedOutParticipants now } := by
  constructor
  · intro i uid p
    refine (Node.participants_removeTimedOutParticipants i uid p).trans
      (and_congr_right fun hp => ?_)
    rw [Node.timeoutNanoseconds_eq (hfit i uid p hp)]
  · exact Node.tracks_removeTimedOutParticipants hfit
  · exact Node.windows_removeTimedOutParticipants hfit
  · intro key hkey
    exact Node.windows_removeTimedOutParticipants_of_ne hkey
  · exact Node.callbacksOf_removeTimedOutParticipants
  · exact Node.isSome_topics_removeTimedOutParticipants hfit
  · intro i key e he
    exact Node.entry_of_removeTimedOutParticipants he
  · intro key
    rfl

/-- Between a timeout that wraps and what it wraps to lies a silence of which the code and the
timeout say different things. -/
theorem not_cleanedUp_of_far {s : Server N} {i : Fin N} {uid : UInt64} {p : Participant}
    (hp : (s.node.shards i).participants[uid]? = some p)
    (hfar : ¬ (-9223372036 ≤ p.timeout ∧ p.timeout ≤ 9223372036)) :
    ∃ now, ¬ s.CleanedUp now { s with node := s.node.removeTimedOutParticipants now } := by
  have hkept : ∀ now : UInt64 → Int,
      s.CleanedUp now { s with node := s.node.removeTimedOutParticipants now } →
      (now uid - p.lastSeen ≤ p.timeoutNanoseconds ↔
        now uid - p.lastSeen ≤ p.timeout * 1000000000) := by
    intro now h
    have hcode : ((s.node.removeTimedOutParticipants now).shards i).participants[uid]? = some p ↔
        (s.node.shards i).participants[uid]? = some p ∧
          now uid - p.lastSeen ≤ p.timeoutNanoseconds :=
      Node.participants_removeTimedOutParticipants i uid p
    have hclaim := hcode.symm.trans (h.participants i uid p)
    simpa only [hp, true_and] using hclaim
  rcases lt_or_gt_of_ne (Node.timeoutNanoseconds_ne hfar) with hless | hless
  · refine ⟨fun _ => p.lastSeen + (p.timeoutNanoseconds + 1), fun h => ?_⟩
    have hsides := hkept _ h
    omega
  · refine ⟨fun _ => p.lastSeen + p.timeoutNanoseconds, fun h => ?_⟩
    have hsides := hkept _ h
    omega

theorem evictsStale_iff [NeZero N] (s : Server N) : s.EvictsStale ↔ s.node.TimeoutsFit := by
  have hstep : ∀ (now : UInt64 → Int) (op : WireOperation),
      op.op = .removeTimedOutParticipants now → s.step (.registry op) =
        some (.internal, { s with node := s.node.removeTimedOutParticipants now }) := by
    intro now op hop
    rw [step, hop]
    rfl
  constructor
  · intro h i uid p hp
    by_contra hfar
    obtain ⟨now, hnot⟩ := not_cleanedUp_of_far hp hfar
    obtain ⟨s', hs', hclean⟩ := h now ⟨.removeTimedOutParticipants now, trivial⟩ rfl
    rw [hstep now _ rfl] at hs'
    obtain rfl := (Prod.mk.inj (Option.some.inj hs')).2
    exact hnot hclean
  · intro hfit now op hop
    exact ⟨_, hstep now op hop, cleanedUp_of_timeoutsFit hfit now⟩

/-- The timeout that `loadConfig` reads from 9223372036854775813 seconds. -/
def farConfig : Config := { participantTimeout := -9223372036854775803 }

theorem stale_kept : ¬ ∀ (N : Nat) [NeZero N] (s : Server N), s.EvictsStale := by
  intro h
  obtain ⟨s', hs', hclean⟩ := h 1
    (init ((Node.fresh ⟨1, 2, 3⟩ farConfig : Node 1).run Overlap.lapsed) 8 4 2)
    (fun _ => 1000000000) ⟨.removeTimedOutParticipants fun _ => 1000000000, trivial⟩ rfl
  obtain rfl := (Prod.mk.inj (Option.some.inj hs')).2
  have hp : ((((Node.fresh ⟨1, 2, 3⟩ farConfig : Node 1).run Overlap.lapsed).shards
      (Fin.last 0)).participants[(6 : UInt64)]?) =
        some ⟨⟨4, 5, 6⟩, 0, [], -9223372036854775803⟩ := by
    rfl
  have hwraps : (1000000000 : Int) - 0 ≤
      (⟨⟨4, 5, 6⟩, 0, [], -9223372036854775803⟩ : Participant).timeoutNanoseconds := by
    decide
  have hkept : ((((Node.fresh ⟨1, 2, 3⟩ farConfig : Node 1).run
      Overlap.lapsed).removeTimedOutParticipants fun _ => 1000000000).shards
        (Fin.last 0)).participants[(6 : UInt64)]? =
          some ⟨⟨4, 5, 6⟩, 0, [], -9223372036854775803⟩ :=
    (Node.participants_removeTimedOutParticipants _ _ _).mpr ⟨hp, hwraps⟩
  have hstale := ((hclean.participants _ _ _).mp hkept).2
  exact absurd hstale (by decide)

theorem fits_default : -9223372036 ≤ ({} : Config).participantTimeout ∧
    ({} : Config).participantTimeout ≤ 9223372036 := by
  decide

theorem evictsStale_iff_lapsed :
    ((Node.fresh ⟨1, 2, 3⟩ {} : Node 1).run Overlap.lapsed).Evicted (fun _ => 11000000000) 6 ∧
      (init ((Node.fresh ⟨1, 2, 3⟩ {} : Node 1).run Overlap.lapsed) 8 4 2).EvictsStale := by
  have hfit := Node.timeoutsFit_run (N := 1) ⟨1, 2, 3⟩ fits_default Overlap.lapsed
  constructor
  · apply (Node.evicted_iff hfit 6).mpr
    apply (Overlap.lapsed_located.exists_stale_iff _ 6).mpr
    decide
  · exact (evictsStale_iff _).mpr hfit

end Server

end Edriel
