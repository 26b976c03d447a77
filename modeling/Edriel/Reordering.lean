import Edriel.TopicWindow

namespace Edriel

open Proto3 Std

namespace ReliableRxWindow

theorem receive_ahead {w : ReliableRxWindow} {m : DataMessage} (hbase : w.nextExpected ≠ 0)
    (hlate : w.nextExpected < m.tid) (hnear : m.tid < w.nextExpected + kReliableWindowSize)
    (hroom : w.buffer.size < kReliableWindowSize) :
    w.receive m = ([], { w with buffer := w.buffer.insertIfNew m.tid m }) := by
  rw [receive, if_neg hbase, if_neg hlate.ne', if_pos hlate, if_pos ⟨by omega, hroom⟩]

theorem receive_next {w : ReliableRxWindow} {m : DataMessage} (hbase : w.nextExpected ≠ 0)
    (hnext : m.tid = w.nextExpected) : w.receive m = w.deliver m := by
  rw [receive, if_neg hbase, if_pos hnext]

theorem receive_far {w : ReliableRxWindow} {m : DataMessage} (hempty : w.buffer = ∅)
    (hbase : w.nextExpected ≠ 0) (hfar : w.nextExpected + kReliableWindowSize ≤ m.tid)
    (hm : m.tid < 2 ^ 64 - 1) : w.receive m = ([m], past m.tid) := by
  have hwidth : 0 < kReliableWindowSize := by decide
  rw [receive, if_neg hbase, if_neg (by omega), if_pos (by omega), if_neg (by omega),
    if_pos ⟨by omega, ExtTreeMap.isEmpty_iff.mpr hempty⟩, hempty]
  exact deliver_empty m hm

theorem drops_late {w : ReliableRxWindow} {m : DataMessage} (hlate : m.tid < w.nextExpected) :
    w.Drops m := by
  rw [Drops, receive, if_neg (by omega), if_neg hlate.ne, if_neg (by omega)]

theorem not_drops {w : ReliableRxWindow} {m : DataMessage} (hbase : w.nextExpected ≠ 0)
    (hle : w.nextExpected ≤ m.tid) (hnear : m.tid < w.nextExpected + kReliableWindowSize)
    (hroom : w.buffer.size < kReliableWindowSize) (hnew : w.buffer[m.tid]? = none) :
    ¬ w.Drops m := by
  intro hdrops
  rw [Drops] at hdrops
  rcases hle.eq_or_lt with hnext | hlate
  · rw [receive_next hbase hnext.symm] at hdrops
    have hmem := mem_deliver w m
    rw [hdrops] at hmem
    cases hmem
  · rw [receive_ahead hbase hlate hnear hroom] at hdrops
    have hbuffer := congrArg (fun out => out.2.buffer[m.tid]?) hdrops
    have hnotMem : m.tid ∉ w.buffer := by
      rw [← ExtTreeMap.isSome_getElem?_iff_mem, hnew]
      exact Bool.false_ne_true
    simp [hnotMem] at hbuffer

theorem flushed_le {n bound : Nat} {held : List (Nat × DataMessage)} (hn : n ≤ bound)
    (hbelow : ∀ e ∈ held, n ≤ e.1 ∧ e.1 < bound)
    (hsorted : held.Pairwise fun e e' => e.1 < e'.1) : flushed n held ≤ bound := by
  induction held generalizing n with
  | nil => exact hn
  | cons e held ih =>
      obtain ⟨hle, hlt⟩ := hbelow e List.mem_cons_self
      obtain ⟨hlater, hrest⟩ := List.pairwise_cons.mp hsorted
      have hbump : bump (max n e.1) ≤ e.1 + 1 := by
        rw [max_eq_right hle, bump]
        split_ifs <;> omega
      refine ih (n := bump (max n e.1)) (hbump.trans hlt) ?_ hrest
      intro e' he'
      exact ⟨hbump.trans (hlater e' he'), (hbelow e' (List.mem_cons_of_mem _ he')).2⟩

theorem deliver_le {w : ReliableRxWindow} (h : w.Ahead) {m : DataMessage} {bound : Nat}
    (hnext : w.nextExpected < bound) (hbelow : ∀ tid ∈ w.buffer, tid < bound) :
    (w.deliver m).2.nextExpected ≤ bound := by
  have hbump : bump w.nextExpected ≤ w.nextExpected + 1 := by
    rw [bump]
    split_ifs <;> omega
  refine flushed_le (hbump.trans hnext) ?_ ?_
  · rintro ⟨tid, a⟩ he
    have hentry := ExtTreeMap.mem_toList_iff_getElem?_eq_some.mp he
    refine ⟨hbump.trans (h.waiting tid a hentry).2, hbelow tid ?_⟩
    rw [← ExtTreeMap.isSome_getElem?_iff_mem, hentry]
    rfl
  · apply w.buffer.ordered_keys_toList.imp
    intro e e' hlt
    exact Nat.compare_eq_lt.mp hlt

end ReliableRxWindow

def tids (frames : List ParticipantData) : List Nat :=
  (frames.filterMap ParticipantData.reliableMessage).map DataMessage.tid

theorem tids_append (xs ys : List ParticipantData) : tids (xs ++ ys) = tids xs ++ tids ys := by
  rw [tids, List.filterMap_append, List.map_append, tids, tids]

theorem mem_tids {frames : List ParticipantData} {tid : Nat} :
    tid ∈ tids frames ↔ ∃ pd ∈ frames, ∃ d, pd.reliableMessage = some d ∧ d.tid = tid := by
  simp only [tids, List.mem_map, List.mem_filterMap]
  constructor
  · rintro ⟨d, ⟨pd, hpd, hd⟩, htid⟩
    exact ⟨pd, hpd, d, hd, htid⟩
  · rintro ⟨pd, hpd, d, hd, htid⟩
    exact ⟨d, ⟨pd, hpd, hd⟩, htid⟩

theorem tids_cons {pd : ParticipantData} {d : DataMessage} (hd : pd.reliableMessage = some d)
    (frames : List ParticipantData) : tids (pd :: frames) = d.tid :: tids frames := by
  rw [tids, List.filterMap_cons_some hd, List.map_cons, tids]

namespace ReliableReceiver

def Repaired (r : ReliableReceiver) (frames : List ParticipantData) : Prop :=
  (r.dispatchAll frames).Perm (frames.filterMap ParticipantData.reliableMessage) ∧
    (r.dispatchAll frames).Pairwise DataMessage.Before

/-- Whenever a frame arrives behind all smaller tids, what has arrived before it lies below
what is still to come. -/
def Separated (frames : List ParticipantData) : Prop :=
  ∀ before pd after a, frames = before ++ pd :: after → pd.reliableMessage = some a →
    (∀ tid, 1 ≤ tid → tid < a.tid → tid ∈ tids before) →
    ∀ c ∈ tids before, ∀ b ∈ tids after, c < b

/-- The first `k` frames of a topic arrive at a window that expects the first. -/
structure Permuted (r : ReliableReceiver) (uid : UInt64) (topicName messageType : Bytes)
    (k : Nat) (frames : List ParticipantData) : Prop where
  topic : OfTopic uid topicName messageType frames
  perm : (tids frames).Perm (List.range' 1 k)
  near : k ≤ kReliableWindowSize
  start : r.topicWindow uid topicName messageType = {}

/-- No frame arrives when its tid has been passed. -/
def OnTime (r : ReliableReceiver) (uid : UInt64) (topicName messageType : Bytes)
    (frames : List ParticipantData) : Prop :=
  ∀ before pd after a, frames = before ++ pd :: after → pd.reliableMessage = some a →
    ((r.readAll before).topicWindow uid topicName messageType).nextExpected ≤ a.tid

variable {uid : UInt64} {topicName messageType : Bytes} {r : ReliableReceiver} {k : Nat}
  {frames before after : List ParticipantData} {pd : ParticipantData} {a : DataMessage}

theorem nextExpected_le_readAll (hahead : (r.topicWindow uid topicName messageType).Ahead)
    (hframes : OfTopic uid topicName messageType frames) :
    (r.topicWindow uid topicName messageType).nextExpected ≤
      ((r.readAll frames).topicWindow uid topicName messageType).nextExpected := by
  induction frames generalizing r with
  | nil => exact le_rfl
  | cons pd frames ih =>
      obtain ⟨d, hd, huid, hname, htype⟩ := hframes pd List.mem_cons_self
      obtain ⟨-, hwindow⟩ := handle_of_topic r hd huid hname htype
      have hresult := ReliableRxWindow.dispatched_receive hahead d
      have hrest : OfTopic uid topicName messageType frames :=
        fun pd' hpd' => hframes pd' (List.mem_cons_of_mem _ hpd')
      calc (r.topicWindow uid topicName messageType).nextExpected
          ≤ ((r.handleReliableDataFrame pd).2.topicWindow uid topicName
              messageType).nextExpected := by
            rw [hwindow]
            exact hresult.mono
        _ ≤ ((r.readAll (pd :: frames)).topicWindow uid topicName
              messageType).nextExpected := ih (hwindow ▸ hresult.ahead) hrest

namespace Permuted

theorem tid_mem (h : Permuted r uid topicName messageType k frames) {tid : Nat} :
    tid ∈ tids frames ↔ 1 ≤ tid ∧ tid ≤ k := by
  rw [h.perm.mem_iff, List.mem_range'_1]
  omega

theorem nodup (h : Permuted r uid topicName messageType k frames) : (tids frames).Nodup :=
  h.perm.nodup_iff.mpr List.nodup_range'

theorem sorting (h : Permuted r uid topicName messageType k (before ++ after)) :
    Sorting r uid topicName messageType before := by
  apply ReliableReceiver.sorting
  · intro pd hpd
    exact h.topic pd (List.mem_append_left _ hpd)
  · intro pd hpd d hd
    have hmem : d.tid ∈ tids (before ++ after) :=
      mem_tids.mpr ⟨pd, List.mem_append_left _ hpd, d, hd, rfl⟩
    have hle := (h.tid_mem.mp hmem).2.trans h.near
    exact hle.trans_lt (by decide)
  · exact .inl h.start

theorem base (h : Permuted r uid topicName messageType k (before ++ after)) :
    1 ≤ ((r.readAll before).topicWindow uid topicName messageType).nextExpected := by
  have hahead : (r.topicWindow uid topicName messageType).Ahead := by
    rw [h.start]
    exact ReliableRxWindow.ahead_empty 1
  have hone : (r.topicWindow uid topicName messageType).nextExpected = 1 := by
    rw [h.start]
  rw [← hone]
  apply nextExpected_le_readAll hahead
  intro pd hpd
  exact h.topic pd (List.mem_append_left _ hpd)

theorem split (h : Permuted r uid topicName messageType k (before ++ pd :: after))
    (ha : pd.reliableMessage = some a) :
    1 ≤ a.tid ∧ a.tid ≤ k ∧ a.tid ∉ tids before ∧ a.tid ∉ tids after := by
  have hmem : a.tid ∈ tids (before ++ pd :: after) :=
    mem_tids.mpr ⟨pd, by simp, a, ha, rfl⟩
  have hnodup := h.nodup
  rw [tids_append, tids_cons ha, List.nodup_middle, List.nodup_cons, List.mem_append,
    not_or] at hnodup
  obtain ⟨hone, hle⟩ := h.tid_mem.mp hmem
  exact ⟨hone, hle, hnodup.1⟩

theorem not_drops (h : Permuted r uid topicName messageType k (before ++ pd :: after))
    (ha : pd.reliableMessage = some a)
    (hle : ((r.readAll before).topicWindow uid topicName messageType).nextExpected ≤ a.tid) :
    ¬ ((r.readAll before).topicWindow uid topicName messageType).Drops a := by
  obtain ⟨-, hk, hbefore, -⟩ := h.split ha
  have hbase := h.base
  have hnear := h.near
  apply ReliableRxWindow.not_drops _ hle _ h.sorting.within.size_lt
  · cases hwaits : ((r.readAll before).topicWindow uid topicName
        messageType).buffer[a.tid]? with
    | none => rfl
    | some x =>
        -- a copy of the frame would have to wait there
        have hx := (h.sorting.ahead.waiting _ x hwaits).1
        obtain ⟨b, pd', b', rfl, hmessage, -⟩ := h.sorting.first x (.inr (hx ▸ hwaits))
        exact absurd (mem_tids.mpr ⟨pd', by simp, x, hmessage, hx⟩) hbefore
  · omega
  · omega

theorem out_or_waits (h : Permuted r uid topicName messageType k (before ++ after))
    (htime : OnTime r uid topicName messageType (before ++ after)) {tid : Nat}
    (htid : tid ∈ tids before) :
    ∃ d, d.tid = tid ∧ (∃ pd ∈ before, pd.reliableMessage = some d) ∧
      (d ∈ r.dispatchAll before ∨
        ((r.readAll before).topicWindow uid topicName messageType).buffer[d.tid]? =
          some d) := by
  obtain ⟨pd, hpd, d, hd, rfl⟩ := mem_tids.mp htid
  obtain ⟨b, b', rfl⟩ := List.append_of_mem hpd
  refine ⟨d, rfl, ⟨pd, hpd, hd⟩, h.sorting.kept b pd b' d rfl hd ?_⟩
  rw [List.append_assoc, List.cons_append] at h htime
  exact h.not_drops hd (htime b pd (b' ++ after) d rfl hd)

theorem next_notMem (h : Permuted r uid topicName messageType k (before ++ after))
    (htime : OnTime r uid topicName messageType (before ++ after)) :
    ((r.readAll before).topicWindow uid topicName messageType).nextExpected ∉
      tids before := by
  intro hmem
  obtain ⟨d, htid, -, hout | hwaits⟩ := h.out_or_waits htime hmem
  · exact absurd (h.sorting.passed d hout) htid.not_lt
  · exact absurd (h.sorting.ahead.waiting _ d hwaits).2 htid.not_gt

/-- In the end nothing waits. -/
theorem repaired_iff_onTime (h : Permuted r uid topicName messageType k frames) :
    Repaired r frames ↔ OnTime r uid topicName messageType frames := by
  have hwhole : Permuted r uid topicName messageType k (frames ++ []) := by
    rw [List.append_nil]
    exact h
  constructor
  · rintro ⟨hperm, -⟩ before pd after a rfl ha
    by_contra hlate
    have hmem : a ∈ r.dispatchAll (before ++ pd :: after) := by
      rw [hperm.mem_iff, List.mem_filterMap]
      exact ⟨pd, by simp, ha⟩
    obtain ⟨b, pd', b', hsplit, ha', hkept, -⟩ := hwhole.sorting.first a (.inl hmem)
    -- the frame that has been kept is the late one
    obtain ⟨-, -, hbefore, hafter⟩ := h.split ha
    have hsame : before = b := by
      rcases Interleaving.place_cases hsplit with hsame | ⟨between, rfl⟩ | ⟨between, rfl⟩
      · exact hsame
      · obtain ⟨-, hrest⟩ := List.cons.inj
          (List.append_cancel_left (hsplit.trans (List.append_assoc _ _ _)))
        exact absurd (mem_tids.mpr ⟨pd', by simp [hrest], a, ha', rfl⟩) hafter
      · exact absurd (mem_tids.mpr ⟨pd', by simp, a, ha', rfl⟩) hbefore
    subst hsame
    exact hkept (ReliableRxWindow.drops_late (Nat.lt_of_not_le hlate))
  · intro htime
    have htime' : OnTime r uid topicName messageType (frames ++ []) := by
      rw [List.append_nil]
      exact htime
    have hsorting := hwhole.sorting
    refine ⟨?_, hsorting.ascending⟩
    have hmessages : (frames.filterMap ParticipantData.reliableMessage).Nodup :=
      List.Nodup.of_map _ h.nodup
    have hout : (r.dispatchAll frames).Nodup := by
      apply hsorting.ascending.imp
      rintro d d' hbefore rfl
      exact absurd hbefore (lt_irrefl _)
    apply (List.perm_ext_iff_of_nodup hout hmessages).mpr
    intro d
    rw [List.mem_filterMap]
    constructor
    · intro hd
      obtain ⟨b, pd, b', rfl, hmessage, -⟩ := hsorting.first d (.inl hd)
      exact ⟨pd, by simp, hmessage⟩
    · rintro ⟨pd, hpd, hd⟩
      have htid := mem_tids.mpr ⟨pd, hpd, d, hd, rfl⟩
      obtain ⟨b, b', hsplit⟩ := List.append_of_mem hpd
      have hkept := hsorting.kept b pd b' d hsplit hd
        (by subst hsplit; exact h.not_drops hd (htime b pd b' d rfl hd))
      apply hkept.resolve_right
      intro hwaits
      -- the frame that is expected next has arrived as well
      have hlate := (hsorting.ahead.waiting _ d hwaits).2
      have hbase := hwhole.base
      apply hwhole.next_notMem htime'
      exact h.tid_mem.mpr ⟨hbase, hlate.le.trans (h.tid_mem.mp htid).2⟩

/-- A delivery leaves no tid behind that is still to come. -/
theorem separated_of_onTime (h : Permuted r uid topicName messageType k frames)
    (htime : OnTime r uid topicName messageType frames) : Separated frames := by
  rintro before pd after a rfl ha hsmaller c hc b hb
  obtain ⟨hone, -, hbefore, hafter⟩ := h.split ha
  by_contra hle
  have hdisjoint : ∀ tid ∈ tids before, tid ∉ tids after := by
    intro tid htid htid'
    have hnodup := h.nodup
    rw [tids_append, tids_cons ha] at hnodup
    exact (List.nodup_append'.mp hnodup).2.2 htid (List.mem_cons_of_mem _ htid')
  have hnext : a.tid =
      ((r.readAll before).topicWindow uid topicName messageType).nextExpected := by
    apply Nat.le_antisymm _ (htime before pd after a rfl ha)
    by_contra hlt
    exact h.next_notMem htime (hsmaller _ h.base (Nat.lt_of_not_le hlt))
  have hb' : b ∈ tids (before ++ pd :: after) := by
    rw [tids_append, tids_cons ha]
    exact List.mem_append_right _ (List.mem_cons_of_mem _ hb)
  have hab : a.tid < b := by
    rcases Nat.lt_trichotomy a.tid b with hlt | rfl | hgt
    · exact hlt
    · exact absurd hb hafter
    · exact absurd hb (hdisjoint b (hsmaller b (h.tid_mem.mp hb').1 hgt))
  -- so `c` waits, comes out with `a`, and `b` is late
  obtain ⟨d, rfl, -, hout | hwaits⟩ := h.out_or_waits htime hc
  · have hpassed := h.sorting.passed d hout
    omega
  · obtain ⟨pd', hpd', b', hmessage, rfl⟩ := mem_tids.mp hb
    obtain ⟨mid, rest, rfl⟩ := List.append_of_mem hpd'
    have hsplit : before ++ pd :: (mid ++ pd' :: rest) =
        (before ++ pd :: mid) ++ pd' :: rest := by
      rw [List.append_assoc, List.cons_append]
    have hcome := htime (before ++ pd :: mid) pd' rest b' hsplit hmessage
    obtain ⟨d', hd', huid, hname, htype⟩ := h.topic pd (by simp)
    obtain rfl := Option.some.inj (ha.symm.trans hd')
    have hout : d ∈ r.dispatchAll (before ++ pd :: mid) := by
      rw [dispatchAll_append, dispatchAll, (handle_of_topic _ ha huid hname htype).1,
        ReliableRxWindow.receive_next (Nat.one_le_iff_ne_zero.mp h.base) hnext]
      apply List.mem_append_right
      apply List.mem_append_left
      exact List.mem_cons_of_mem _ (List.mem_map_of_mem
        (ExtTreeMap.mem_toList_iff_getElem?_eq_some.mpr hwaits))
    rw [hsplit] at h
    have hpassed := h.sorting.passed d hout
    omega

theorem mem_of_passed (hseparated : Separated frames)
    (h : Permuted r uid topicName messageType k frames) (hsplit : frames = before ++ after) :
    ∀ tid, 1 ≤ tid →
      tid < ((r.readAll before).topicWindow uid topicName messageType).nextExpected →
      tid ∈ tids before := by
  induction before using List.reverseRecOn generalizing after with
  | nil =>
      intro tid hone hlt
      have hstart : (r.readAll []).topicWindow uid topicName messageType = {} := h.start
      rw [hstart] at hlt
      exact absurd hone (Nat.not_le_of_lt hlt)
  | append_singleton before pd ih =>
      rw [List.append_assoc, List.singleton_append] at hsplit
      have hearlier := ih hsplit
      subst hsplit
      obtain ⟨a, ha, huid, hname, htype⟩ := h.topic pd (by simp)
      obtain ⟨hone, hk, hbefore, hafter⟩ := h.split ha
      have hbase := h.base
      have hwindow := (handle_of_topic (r.readAll before) ha huid hname htype).2
      rw [← readAll_concat] at hwindow
      intro tid htid hlt
      rw [hwindow] at hlt
      rw [tids_append, tids_cons ha, List.mem_append, List.mem_cons]
      by_contra hnot
      obtain ⟨hnew, hne, -⟩ := (not_or.mp hnot).imp_right not_or.mp
      have hle : ((r.readAll before).topicWindow uid topicName messageType).nextExpected ≤
          a.tid := by
        by_contra hlate
        exact hbefore (hearlier a.tid hone (Nat.lt_of_not_le hlate))
      have hahead : ((r.readAll before).topicWindow uid topicName
          messageType).nextExpected ≤ tid := by
        by_contra hpassed
        exact hnew (hearlier tid htid (Nat.lt_of_not_le hpassed))
      rcases hle.eq_or_lt with hnext | hlate
      · -- `a` opens the window, and everything that comes out has a smaller tid
        rw [ReliableRxWindow.receive_next (by omega) hnext.symm] at hlt
        refine absurd hlt (Nat.not_lt_of_le ?_)
        apply ReliableRxWindow.deliver_le h.sorting.ahead
        · omega
        · intro c hc
          obtain ⟨x, hx⟩ := Option.isSome_iff_exists.mp
            (ExtTreeMap.isSome_getElem?_iff_mem.mpr hc)
          have hxc := (h.sorting.ahead.waiting c x hx).1
          obtain ⟨b, pd', b', hb, hmessage, -⟩ := h.sorting.first x (.inr (hxc.symm ▸ hx))
          have hcbefore : c ∈ tids before :=
            mem_tids.mpr ⟨pd', by simp [hb], x, hmessage, hxc⟩
          have hck : c ≤ k := by
            apply (h.tid_mem.mp _).2
            rw [tids_append]
            exact List.mem_append_left _ hcbefore
          rcases Nat.lt_trichotomy c tid with hbelow | rfl | habove
          · exact hbelow
          · exact absurd hcbefore hnew
          · have hcome : tid ∈ tids (before ++ pd :: after) :=
              h.tid_mem.mpr ⟨htid, habove.le.trans hck⟩
            rw [tids_append, tids_cons ha, List.mem_append, List.mem_cons] at hcome
            refine hseparated before pd after a rfl ha ?_ c hcbefore tid
              ((hcome.resolve_left hnew).resolve_left hne)
            intro t ht htlt
            exact hearlier t ht (by omega)
      · have hnear := h.near
        rw [ReliableRxWindow.receive_ahead (by omega) hlate (by omega)
          h.sorting.within.size_lt] at hlt
        exact absurd hlt (Nat.not_lt_of_le hahead)

theorem onTime_iff_separated (h : Permuted r uid topicName messageType k frames) :
    OnTime r uid topicName messageType frames ↔ Separated frames := by
  constructor
  · exact h.separated_of_onTime
  · rintro hseparated before pd after a rfl ha
    obtain ⟨hone, -, hbefore, -⟩ := h.split ha
    by_contra hlate
    exact hbefore (mem_of_passed hseparated h rfl a.tid hone (Nat.lt_of_not_le hlate))

end Permuted

/-- A window puts an order of the first frames right exactly when no frame that completes the
tids below it comes between a larger tid and one that is still to be filled in. -/
theorem reordering_repaired_iff {r : ReliableReceiver} {uid : UInt64}
    {topicName messageType : Bytes} {k : Nat} {frames : List ParticipantData}
    (h : Permuted r uid topicName messageType k frames) :
    Repaired r frames ↔ Separated frames :=
  h.repaired_iff_onTime.trans h.onTime_iff_separated

theorem tids_numberedFrames (numbers : List UInt64) :
    tids (numberedFrames numbers) = numbers.map UInt64.toNat := by
  induction numbers with
  | nil => rfl
  | cons tid numbers ih =>
      have hcons : numberedFrames (tid :: numbers) =
          reliableFrame (numbered tid) :: numberedFrames numbers := rfl
      rw [hcons, tids_cons (reliableMessage_numbered tid), ih]
      rfl

theorem permuted_numberedFrames {numbers : List UInt64} {k : Nat}
    (hperm : (numbers.map UInt64.toNat).Perm (List.range' 1 k))
    (hk : k ≤ kReliableWindowSize) :
    Permuted {} 7 [] [] k (numberedFrames numbers) := by
  refine ⟨ofTopic_numberedFrames numbers, ?_, hk, rfl⟩
  rw [tids_numberedFrames]
  exact hperm

/-- The arrival of frame 1 sets frame 3 free, and frame 2 is late. -/
theorem reordering_not_repaired :
    Permuted {} 7 [] [] 3 (numberedFrames [3, 1, 2]) ∧
      ¬ Repaired {} (numberedFrames [3, 1, 2]) := by
  refine ⟨permuted_numberedFrames (by decide) (by decide), ?_⟩
  rintro ⟨hperm, -⟩
  have hlength := hperm.length_eq
  exact absurd hlength (by decide)

theorem reordering_repaired_descending : Repaired {} (numberedFrames [3, 2, 1]) := by
  have h : Permuted {} 7 [] [] 3 (numberedFrames [3, 2, 1]) :=
    permuted_numberedFrames (by decide) (by decide)
  apply (reordering_repaired_iff h).mpr
  intro before pd after a hsplit ha hsmaller c hc b hb
  cases before with
  | nil => cases hc
  | cons e before =>
      obtain ⟨rfl, htail⟩ := List.cons.inj hsplit
      cases before with
      | nil =>
          -- frame 2 comes before frame 1
          obtain ⟨rfl, rfl⟩ := List.cons.inj htail
          obtain rfl := Option.some.inj ((reliableMessage_numbered 2).symm.trans ha)
          exact absurd (hsmaller 1 le_rfl (by decide)) (by decide)
      | cons e before =>
          obtain ⟨rfl, hlast⟩ := List.cons.inj htail
          cases before with
          | nil =>
              obtain ⟨-, rfl⟩ := List.cons.inj hlast
              cases hb
          | cons e before =>
              have hlength := congrArg List.length hlast
              simp at hlength

theorem held_readAll (hheld : (r.topicWindow uid topicName messageType).Held)
    (hframes : OfTopic uid topicName messageType frames)
    (hlate : ∀ tid ∈ tids frames, (r.topicWindow uid topicName messageType).nextExpected < tid) :
    ((r.readAll frames).topicWindow uid topicName messageType).Held ∧
      ((r.readAll frames).topicWindow uid topicName messageType).nextExpected =
        (r.topicWindow uid topicName messageType).nextExpected := by
  induction frames generalizing r with
  | nil => exact ⟨hheld, rfl⟩
  | cons pd frames ih =>
      obtain ⟨d, hd, huid, hname, htype⟩ := hframes pd List.mem_cons_self
      rw [tids_cons hd] at hlate
      obtain ⟨-, hstays, hsame⟩ :=
        ReliableRxWindow.receive_held hheld (hlate d.tid List.mem_cons_self)
      obtain ⟨-, hwindow⟩ := handle_of_topic r hd huid hname htype
      rw [← hwindow] at hstays hsame
      have hrest := ih hstays (fun pd' hpd' => hframes pd' (List.mem_cons_of_mem _ hpd'))
        (by
          rw [hsame]
          intro tid htid
          exact hlate tid (List.mem_cons_of_mem _ htid))
      exact ⟨hrest.1, hrest.2.trans hsame⟩

theorem past_readAll {j : Nat}
    (hpast : r.topicWindow uid topicName messageType = .past a.tid)
    (hframes : OfTopic uid topicName messageType frames)
    (htids : tids frames = List.range' (a.tid + 1) j) (hlast : a.tid + j < 2 ^ 64 - 1) :
    (r.readAll frames).topicWindow uid topicName messageType = .past (a.tid + j) := by
  induction frames generalizing r a j with
  | nil =>
      have hj : j = 0 := by simpa [tids] using (congrArg List.length htids).symm
      rw [hj]
      exact hpast
  | cons pd frames ih =>
      obtain ⟨d, hd, huid, hname, htype⟩ := hframes pd List.mem_cons_self
      rw [tids_cons hd] at htids
      cases j with
      | zero => cases htids
      | succ j =>
          obtain ⟨htid, hrest⟩ := List.cons.inj htids
          obtain ⟨-, hwindow⟩ := handle_of_topic r hd huid hname htype
          rw [hpast, ReliableRxWindow.receive_past_of_near (by omega) (.inl htid)] at hwindow
          have hend := ih hwindow
            (fun pd' hpd' => hframes pd' (List.mem_cons_of_mem _ hpd'))
            (by rw [htid]; exact hrest) (by omega)
          rw [htid, Nat.add_assoc, Nat.add_comm 1 j] at hend
          exact hend

theorem held_of_not_opens {w : ReliableRxWindow} {m : DataMessage} (hbase : w.nextExpected ≠ 0)
    (hlate : w.nextExpected < m.tid) (hclosed : ¬ w.Opens m.tid) :
    (w.receive m).2.Held ∧ (w.receive m).2.nextExpected = w.nextExpected := by
  cases hempty : w.buffer.isEmpty with
  | false =>
      have hheld : w.Held := by
        refine ⟨hbase, ?_⟩
        intro hbuffer
        rw [ExtTreeMap.isEmpty_iff.mpr hbuffer] at hempty
        cases hempty
      exact (ReliableRxWindow.receive_held hheld hlate).2
  | true =>
      have hnear : m.tid < w.nextExpected + kReliableWindowSize := by
        by_contra hfar
        exact hclosed (.inr (.inr ⟨Nat.le_of_not_lt hfar, hempty⟩))
      have hroom : w.buffer.size < kReliableWindowSize := by
        rw [ExtTreeMap.isEmpty_iff.mp hempty]
        decide
      rw [ReliableRxWindow.receive_ahead hbase hlate hnear hroom]
      exact ⟨⟨hbase, ExtTreeMap.insertIfNew_ne_empty⟩, rfl⟩

/-- Behind a first frame that does not open the window nothing comes out any more. -/
theorem not_delivered_of_closed {first last : ParticipantData} {d : DataMessage}
    (hframes : OfTopic uid topicName messageType (first :: frames ++ [last]))
    (ha : first.reliableMessage = some a) (hd : last.reliableMessage = some d)
    (hbase : 1 ≤ (r.topicWindow uid topicName messageType).nextExpected)
    (hgap : (r.topicWindow uid topicName messageType).nextExpected < a.tid)
    (hlate : ∀ tid ∈ tids (frames ++ [last]), a.tid < tid)
    (hclosed : ¬ (r.topicWindow uid topicName messageType).Opens a.tid) :
    d ∉ ((r.readAll (first :: frames)).handleReliableDataFrame last).1 := by
  obtain ⟨a', ha', huid, hname, htype⟩ := hframes first (by simp)
  obtain rfl := Option.some.inj (ha.symm.trans ha')
  obtain ⟨d', hd', hduid, hdname, hdtype⟩ := hframes last (by simp)
  obtain rfl := Option.some.inj (hd.symm.trans hd')
  obtain ⟨hheld, hsame⟩ := held_of_not_opens (Nat.one_le_iff_ne_zero.mp hbase) hgap hclosed
  obtain ⟨-, hwindow⟩ := handle_of_topic r ha huid hname htype
  rw [← hwindow] at hheld hsame
  have hrest : OfTopic uid topicName messageType frames :=
    fun pd hpd => hframes pd (by simp [hpd])
  have hlater : ∀ tid ∈ tids frames,
      ((r.handleReliableDataFrame first).2.topicWindow uid topicName
        messageType).nextExpected < tid := by
    intro tid htid
    have hbehind := hlate tid (by rw [tids_append]; exact List.mem_append_left _ htid)
    omega
  obtain ⟨hheld', hsame'⟩ := held_readAll hheld hrest hlater
  have hdlate : a.tid < d.tid := by
    apply hlate
    rw [tids_append, tids_cons hd]
    exact List.mem_append_right _ List.mem_cons_self
  have hread : r.readAll (first :: frames) =
      (r.handleReliableDataFrame first).2.readAll frames := rfl
  rw [(handle_of_topic (r.readAll (first :: frames)) hd hduid hdname hdtype).1, hread,
    (ReliableRxWindow.receive_held hheld' (by omega)).1]
  exact List.not_mem_nil

/-- Consecutive frames that start behind a gap: the last of them is delivered on arrival
exactly when no frame waits and the gap is a whole window wide. -/
theorem current_delivered_iff (r : ReliableReceiver) {uid : UInt64}
    {topicName messageType : Bytes} {k : Nat} {frames : List ParticipantData}
    {last : ParticipantData} {d : DataMessage}
    (hframes : OfTopic uid topicName messageType (frames ++ [last]))
    (htids : tids (frames ++ [last]) = List.range' k (2 * kReliableWindowSize + 1))
    (hd : last.reliableMessage = some d)
    (hbase : 1 ≤ (r.topicWindow uid topicName messageType).nextExpected)
    (hgap : (r.topicWindow uid topicName messageType).nextExpected < k) :
    d ∈ ((r.readAll frames).handleReliableDataFrame last).1 ↔
      (r.topicWindow uid topicName messageType).buffer.isEmpty = true ∧
        (r.topicWindow uid topicName messageType).nextExpected + kReliableWindowSize ≤ k := by
  obtain ⟨n, hn⟩ : ∃ n, 2 * kReliableWindowSize = n + 1 := ⟨511, rfl⟩
  rw [hn, tids_append, tids_cons hd] at htids
  cases frames with
  | nil =>
      have hlength := congrArg List.length htids
      simp [tids] at hlength
  | cons first frames =>
      obtain ⟨a, ha, huid, hname, htype⟩ := hframes first (by simp)
      obtain ⟨d', hd', hduid, hdname, hdtype⟩ := hframes last (by simp)
      obtain rfl := Option.some.inj (hd.symm.trans hd')
      have hrest : OfTopic uid topicName messageType frames :=
        fun pd hpd => hframes pd (by simp [hpd])
      rw [tids_cons ha, List.range'_succ, List.range'_1_concat, List.cons_append] at htids
      obtain ⟨rfl, htail⟩ := List.cons.inj htids
      obtain ⟨hbetween, hend⟩ := List.append_inj' htail rfl
      have hlast : d.tid = a.tid + 1 + n := (List.cons.inj hend).1
      have hbound := d.tid_lt
      have hopens : (r.topicWindow uid topicName messageType).Opens a.tid ↔
          (r.topicWindow uid topicName messageType).buffer.isEmpty = true ∧
            (r.topicWindow uid topicName messageType).nextExpected + kReliableWindowSize ≤
              a.tid := by
        rw [ReliableRxWindow.Opens, and_comm]
        constructor
        · rintro (h | h | h)
          · omega
          · omega
          · exact h
        · exact fun h => .inr (.inr h)
      obtain ⟨-, hwindow⟩ := handle_of_topic r ha huid hname htype
      have hread : r.readAll (first :: frames) =
          (r.handleReliableDataFrame first).2.readAll frames := rfl
      rw [← hopens]
      constructor
      · intro hdelivered
        by_contra hclosed
        refine not_delivered_of_closed hframes ha hd hbase hgap ?_ hclosed hdelivered
        intro tid htid
        rw [tids_append, tids_cons hd, hbetween, List.mem_append, List.mem_range'_1] at htid
        rcases htid with htid | htid
        · omega
        · obtain rfl := List.mem_singleton.mp htid
          omega
      · intro hopen
        obtain ⟨hempty, hfar⟩ := hopens.mp hopen
        rw [ReliableRxWindow.receive_far (ExtTreeMap.isEmpty_iff.mp hempty)
          (Nat.one_le_iff_ne_zero.mp hbase) hfar (by omega)] at hwindow
        rw [(handle_of_topic (r.readAll (first :: frames)) hd hduid hdname hdtype).1, hread,
          past_readAll hwindow hrest hbetween (by omega), ReliableRxWindow.mem_receive_iff]
        refine .inr (.inl ?_)
        change d.tid = a.tid + n + 1
        omega

def consecutive (k count : Nat) : List UInt64 :=
  (List.range' k count).map UInt64.ofNat

theorem tids_consecutive {k count : Nat} (hlast : k + count ≤ 2 ^ 64) :
    tids (numberedFrames (consecutive k count)) = List.range' k count := by
  rw [tids_numberedFrames, consecutive, List.map_map]
  refine (List.map_congr_left ?_).trans (List.map_id _)
  intro tid htid
  rw [List.mem_range'_1] at htid
  exact UInt64.toNat_ofNat_of_lt' (by change tid < 2 ^ 64; omega)

theorem numberedFrames_concat (numbers : List UInt64) (tid : UInt64) :
    numberedFrames numbers ++ [reliableFrame (numbered tid)] =
      numberedFrames (numbers ++ [tid]) := by
  rw [numberedFrames, numberedFrames, List.map_append]
  rfl

theorem consecutive_concat (k count : Nat) :
    consecutive k count ++ [UInt64.ofNat (k + count)] = consecutive k (count + 1) := by
  rw [consecutive, consecutive, List.range'_1_concat, List.map_append]
  rfl

/-- A late joiner of a publisher that is at frame 2 never receives anything. -/
theorem deaf_behind_first :
    OfTopic 7 [] [] (numberedFrames (consecutive 2 512) ++ [reliableFrame (numbered 514)]) ∧
      tids (numberedFrames (consecutive 2 512) ++ [reliableFrame (numbered 514)]) =
        List.range' 2 (2 * kReliableWindowSize + 1) ∧
      (topicWindow {} 7 [] []).nextExpected = 1 ∧
      numbered 514 ∉ ((readAll {} (numberedFrames (consecutive 2 512))).handleReliableDataFrame
        (reliableFrame (numbered 514))).1 := by
  have hframes : numberedFrames (consecutive 2 512) ++ [reliableFrame (numbered 514)] =
      numberedFrames (consecutive 2 513) :=
    (numberedFrames_concat _ _).trans (congrArg _ (consecutive_concat 2 512))
  have htopic := ofTopic_numberedFrames (consecutive 2 513)
  have htids := tids_consecutive (by norm_num : 2 + 513 ≤ 2 ^ 64)
  rw [← hframes] at htopic htids
  refine ⟨htopic, htids, rfl, ?_⟩
  have hcons : numberedFrames (consecutive 2 512) =
      reliableFrame (numbered 2) :: numberedFrames (consecutive 3 511) := rfl
  rw [hcons] at htopic htids ⊢
  rw [List.cons_append, tids_cons (reliableMessage_numbered 2)] at htids
  apply not_delivered_of_closed (r := {}) htopic (reliableMessage_numbered 2)
    (reliableMessage_numbered 514) (show 1 ≤ 1 from le_rfl) (show 1 < 2 by decide)
  · intro tid htid
    rw [(List.cons.inj htids).2, List.mem_range'_1] at htid
    exact htid.1
  · rintro (h | h | ⟨h, -⟩)
    · exact absurd h (show ¬ 1 = 0 by decide)
    · exact absurd h (show ¬ 2 = 1 by decide)
    · exact absurd h (show ¬ 1 + 256 ≤ 2 by decide)

theorem current_delivered_far :
    numbered 769 ∈ ((readAll {} (numberedFrames (consecutive 257 512))).handleReliableDataFrame
      (reliableFrame (numbered 769))).1 := by
  have hframes : numberedFrames (consecutive 257 512) ++ [reliableFrame (numbered 769)] =
      numberedFrames (consecutive 257 513) :=
    (numberedFrames_concat _ _).trans (congrArg _ (consecutive_concat 257 512))
  have htopic := ofTopic_numberedFrames (consecutive 257 513)
  have htids := tids_consecutive (by norm_num : 257 + 513 ≤ 2 ^ 64)
  rw [← hframes] at htopic htids
  exact (current_delivered_iff {} htopic htids (reliableMessage_numbered 769)
    (show 1 ≤ 1 from le_rfl) (show 1 < 257 by decide)).mpr
    ⟨rfl, show 1 + 256 ≤ 257 from le_rfl⟩

end ReliableReceiver

end Edriel
