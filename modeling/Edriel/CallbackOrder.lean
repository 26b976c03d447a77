import Edriel.Isolation
import Edriel.WindowOrder

/-!
Several readers of one publisher's topic: what they dispatch is decided one frame after
the other, but each runs its callbacks after it has released `reliableMutex_`.
-/

namespace Edriel

open Proto3 Std Interleaving

theorem DataMessage.tid_lt (d : DataMessage) : d.tid < 2 ^ 64 :=
  UInt64.toNat_lt _

namespace ReliableRxWindow

/-- A tid that the window has left behind.  The last tid cannot be: `nextExpected` does not
grow any further. -/
def Passed (w : ReliableRxWindow) (tid : Nat) : Prop :=
  tid < w.nextExpected ∨ 2 ^ 64 - 1 ≤ w.nextExpected

/-- Frames wait under their tid and ahead of `nextExpected`, and a window that the next
frame baselines holds none. -/
structure Ahead (w : ReliableRxWindow) : Prop where
  waiting : ∀ (tid : Nat) (m : DataMessage),
    w.buffer[tid]? = some m → m.tid = tid ∧ w.nextExpected < tid
  unbaselined : w.nextExpected = 0 → w.buffer = ∅

theorem ahead_empty (n : Nat) : Ahead { nextExpected := n } := by
  refine ⟨?_, fun _ => rfl⟩
  intro tid m hm
  rw [ExtTreeMap.getElem?_empty] at hm
  cases hm

theorem lt_bump (n : Nat) : n < bump n ∨ 2 ^ 64 - 1 ≤ bump n := by
  rw [bump]
  split_ifs <;> omega

theorem le_bump (n : Nat) : n ≤ bump n := by
  rw [bump]
  split_ifs <;> omega

theorem le_flushed (n : Nat) (held : List (Nat × DataMessage)) : n ≤ flushed n held := by
  induction held generalizing n with
  | nil => exact le_rfl
  | cons e held ih =>
      calc n ≤ max n e.1 := le_max_left _ _
        _ ≤ bump (max n e.1) := le_bump _
        _ ≤ flushed n (e :: held) := ih _

theorem lt_flushed (n : Nat) {held : List (Nat × DataMessage)} {e : Nat × DataMessage}
    (he : e ∈ held) : e.1 < flushed n held ∨ 2 ^ 64 - 1 ≤ flushed n held := by
  induction held generalizing n with
  | nil => cases he
  | cons x held ih =>
      rcases List.mem_cons.mp he with rfl | he
      · have hle : bump (max n e.1) ≤ flushed n (e :: held) := le_flushed _ held
        have hmax : e.1 ≤ max n e.1 := le_max_right _ _
        rcases lt_bump (max n e.1) with hlt | hlast
        · exact .inl (by omega)
        · exact .inr (by omega)
      · exact ih (bump (max n x.1)) he

/-- What an arriving frame sets free is ascending, starts with that frame, which the window
had not passed, and is passed afterwards. -/
structure Dispatched (w : ReliableRxWindow) (m : DataMessage)
    (out : List DataMessage × ReliableRxWindow) : Prop where
  ahead : out.2.Ahead
  ascending : out.1.Pairwise DataMessage.Before
  fresh : ∀ a ∈ out.1, w.nextExpected ≤ m.tid ∧ m.tid ≤ a.tid
  passed : ∀ a ∈ out.1, out.2.Passed a.tid
  mono : w.nextExpected ≤ out.2.nextExpected

theorem dispatched_nil {w w' : ReliableRxWindow} (m : DataMessage) (h : w'.Ahead)
    (hnext : w.nextExpected = w'.nextExpected) : Dispatched w m ([], w') :=
  ⟨h, .nil, List.forall_mem_nil _, List.forall_mem_nil _, hnext.le⟩

theorem dispatched_deliver {w : ReliableRxWindow} (h : ∀ (tid : Nat) (m : DataMessage),
    w.buffer[tid]? = some m → m.tid = tid ∧ w.nextExpected < tid) {m : DataMessage}
    (hm : m.tid = w.nextExpected) : Dispatched w m (w.deliver m) := by
  have hentry : ∀ e ∈ w.buffer.toList, e.2.tid = e.1 ∧ w.nextExpected < e.1 := by
    rintro ⟨tid, a⟩ he
    exact h tid a (ExtTreeMap.mem_toList_iff_getElem?_eq_some.mp he)
  have hnext : bump w.nextExpected ≤ (w.deliver m).2.nextExpected := le_flushed _ _
  have hbump := lt_bump w.nextExpected
  have hle := le_bump w.nextExpected
  refine ⟨?_, ?_, ?_, ?_, hle.trans hnext⟩
  · refine ⟨(ahead_empty _).waiting, ?_⟩
    intro hzero
    omega
  · apply List.pairwise_cons.mpr
    refine ⟨?_, ?_⟩
    · intro a ha
      obtain ⟨e, he, rfl⟩ := List.mem_map.mp ha
      obtain ⟨htid, hlt⟩ := hentry e he
      rw [DataMessage.Before]
      omega
    · apply List.pairwise_map.mpr
      apply w.buffer.ordered_keys_toList.imp_of_mem
      intro e e' he he' hlt
      rw [DataMessage.Before, (hentry e he).1, (hentry e' he').1]
      exact Nat.compare_eq_lt.mp hlt
  · intro a ha
    refine ⟨hm.ge, ?_⟩
    rcases List.mem_cons.mp ha with rfl | ha
    · exact le_rfl
    · obtain ⟨e, he, rfl⟩ := List.mem_map.mp ha
      obtain ⟨htid, hlt⟩ := hentry e he
      omega
  · intro a ha
    rcases List.mem_cons.mp ha with rfl | ha
    · rw [Passed]
      omega
    · obtain ⟨e, he, rfl⟩ := List.mem_map.mp ha
      rw [Passed, (hentry e he).1]
      exact lt_flushed _ he

theorem dispatched_receive {w : ReliableRxWindow} (h : w.Ahead) (m : DataMessage) :
    Dispatched w m (w.receive m) := by
  have hjump : ∀ _ : w.buffer = ∅, w.nextExpected ≤ m.tid →
      Dispatched w m ({ w with nextExpected := m.tid }.deliver m) := by
    intro hempty hle
    have hdeliver := dispatched_deliver (w := { w with nextExpected := m.tid }) (m := m)
      (by rw [hempty]; exact (ahead_empty _).waiting) rfl
    refine ⟨hdeliver.ahead, hdeliver.ascending, ?_, hdeliver.passed, hle.trans hdeliver.mono⟩
    intro a ha
    exact ⟨hle, (hdeliver.fresh a ha).2⟩
  rw [receive]
  split_ifs with hbase hnext hlate hheld hgap
  · exact hjump (h.unbaselined hbase) (by omega)
  · exact dispatched_deliver h.waiting hnext
  · refine dispatched_nil m ⟨?_, fun hzero => absurd hzero hbase⟩ rfl
    intro tid a ha
    rw [ExtTreeMap.getElem?_insertIfNew] at ha
    split at ha
    · rename_i hkey
      obtain rfl := Option.some.inj ha
      obtain rfl := LawfulEqOrd.compare_eq_iff_eq.mp hkey.1
      exact ⟨rfl, hlate⟩
    · exact h.waiting tid a ha
  · exact hjump (ExtTreeMap.isEmpty_iff.mp hgap.2) (by omega)
  · exact dispatched_nil m h rfl
  · exact dispatched_nil m h rfl

end ReliableRxWindow

open ReliableReceiver

/-- Whatever a receiver has been through, its windows hold frames ahead only. -/
theorem ahead_windowMet (history : List ReceiverEvent) (uid : UInt64) (key : Bytes) :
    ((history.foldl handle {}).windowMet uid key).Ahead :=
  everyWindow_windowMet (P := fun _ w => w.Ahead)
    (fun _ => ReliableRxWindow.ahead_empty 0) (fun _ => ReliableRxWindow.ahead_empty 1)
    (everyWindow_foldl_handle (fun _ => ReliableRxWindow.ahead_empty 0)
      (fun _ => ReliableRxWindow.ahead_empty 1)
      (fun _ d hw => (ReliableRxWindow.dispatched_receive hw d).ahead) history) uid key

/-- A reader takes a frame through the locked section of `handleReliableDataFrame`, or runs
the callback that is `i`-th in the order of the locked sections. -/
inductive ReaderAction where
  | frame (reader : Nat) (pd : ParticipantData)
  | call (i : Nat)

/-- The reader threads of a node, with one callback of the topic.  `waiting` are the
messages that are still to be handed to it, each with its reader; `called` are those that
have been. -/
structure Readers where
  receiver : ReliableReceiver
  waiting : List (Nat × DataMessage) := []
  called : List DataMessage := []

namespace Readers

/-- A reader handles its next frame when it has run all its callbacks, and it runs them in
their order.  `decodes` says of which messages the payload can be parsed; no callback runs
for the others. -/
def step (decodes : Bytes → Bytes → Bool) (s : Readers) : ReaderAction → Option Readers
  | .frame reader pd =>
      if s.waiting.any fun entry => entry.1 == reader then none
      else
        let result := s.receiver.handleReliableDataFrame pd
        some { s with
          receiver := result.2
          waiting := s.waiting ++
            (result.1.filter fun d => decodes d.messageType d.payload).map (reader, ·) }
  | .call i =>
      match pick i s.waiting with
      | none => none
      | some ((reader, d), rest) =>
          if (s.waiting.take i).any fun entry => entry.1 == reader then none
          else some { s with waiting := rest, called := s.called ++ [d] }

def run (decodes : Bytes → Bytes → Bool) (s : Readers) : List ReaderAction → Option Readers
  | [] => some s
  | action :: actions => (s.step decodes action).bind fun s' => s'.run decodes actions

/-- All frames are of one publisher and topic, and none has the last tid. -/
def OnTopic (uid : UInt64) (topicName messageType : Bytes) (actions : List ReaderAction) :
    Prop :=
  ∀ reader pd d, .frame reader pd ∈ actions → pd.reliableMessage = some d →
    d.pubUid = uid ∧ d.topicName = topicName ∧ d.messageType = messageType ∧
      d.tid < 2 ^ 64 - 1

/-- No callback overtakes one that was handed out in an earlier locked section. -/
def InTurn (actions : List ReaderAction) : Prop :=
  ∀ i, .call i ∈ actions → i = 0

variable {decodes : Bytes → Bytes → Bool} {uid : UInt64} {topicName messageType : Bytes}
  {front : List DataMessage} {s s' : Readers}

def window (s : Readers) (uid : UInt64) (topicName messageType : Bytes) :
    ReliableRxWindow :=
  s.receiver.windowMet uid (windowPrefix uid ++ makeCompositeKey topicName messageType)

theorem window_eq (h : s'.receiver = s.receiver) (uid : UInt64)
    (topicName messageType : Bytes) :
    s'.window uid topicName messageType = s.window uid topicName messageType := by
  rw [window, h, window]

/-- The messages of `front` and then those that wait are ascending, and the window has left
them behind. -/
structure Lined (uid : UInt64) (topicName messageType : Bytes) (front : List DataMessage)
    (s : Readers) : Prop where
  ahead : (s.window uid topicName messageType).Ahead
  ascending : (front ++ s.waiting.map Prod.snd).Pairwise DataMessage.Before
  passed : ∀ d ∈ front ++ s.waiting.map Prod.snd,
    (s.window uid topicName messageType).Passed d.tid

theorem step_call {i : Nat} (h : s.step decodes (.call i) = some s') :
    ∃ reader d, pick i s.waiting = some ((reader, d), s'.waiting) ∧
      s'.called = s.called ++ [d] ∧ s'.receiver = s.receiver := by
  rw [step] at h
  split at h
  · cases h
  · rename_i reader d rest hpick
    split at h
    · cases h
    · obtain rfl := Option.some.inj h
      exact ⟨reader, d, hpick, rfl, rfl⟩

theorem step_frame {reader : Nat} {pd : ParticipantData}
    (h : s.step decodes (.frame reader pd) = some s') :
    s'.called = s.called ∧ s'.receiver = (s.receiver.handleReliableDataFrame pd).2 ∧
      s'.waiting = s.waiting ++ ((s.receiver.handleReliableDataFrame pd).1.filter
        fun d => decodes d.messageType d.payload).map (reader, ·) := by
  rw [step] at h
  split at h
  · cases h
  · obtain rfl := Option.some.inj h
    exact ⟨rfl, rfl, rfl⟩

theorem Lined.frame (h : Lined uid topicName messageType front s) {reader : Nat}
    {pd : ParticipantData} (hpd : OnTopic uid topicName messageType [.frame reader pd])
    (hstep : s.step decodes (.frame reader pd) = some s') :
    Lined uid topicName messageType front s' := by
  obtain ⟨-, hreceiver, hwaiting⟩ := step_frame hstep
  cases hmessage : pd.reliableMessage with
  | none =>
      rw [handleReliableDataFrame, hmessage] at hreceiver hwaiting
      rw [List.filter_nil, List.map_nil, List.append_nil] at hwaiting
      have hwindow := window_eq hreceiver uid topicName messageType
      exact ⟨hwindow ▸ h.ahead, hwaiting ▸ h.ascending, by rw [hwindow, hwaiting]; exact h.passed⟩
  | some d =>
      obtain ⟨rfl, rfl, rfl, hlast⟩ := hpd reader pd d (by simp) hmessage
      rw [handleReliableDataFrame_of_message hmessage] at hreceiver hwaiting
      have hdispatched := ReliableRxWindow.dispatched_receive h.ahead d
      have hwindow : s'.window d.pubUid d.topicName d.messageType =
          ((s.window d.pubUid d.topicName d.messageType).receive d).2 := by
        rw [window, hreceiver]
        exact windowMet_receive_self s.receiver d
      have hout : s'.waiting.map Prod.snd = s.waiting.map Prod.snd ++
          ((s.window d.pubUid d.topicName d.messageType).receive d).1.filter
            fun m => decodes m.messageType m.payload := by
        rw [hwaiting, List.map_append, List.map_map]
        exact congrArg _ (List.map_id' _)
      have hmono := hdispatched.mono
      refine ⟨hwindow ▸ hdispatched.ahead, ?_, ?_⟩
      · rw [hout, ← List.append_assoc]
        apply List.pairwise_append.mpr
        refine ⟨h.ascending, hdispatched.ascending.filter _, ?_⟩
        intro a ha b hb
        have hpassed := h.passed a ha
        have hfresh := hdispatched.fresh b (List.mem_of_mem_filter hb)
        rw [ReliableRxWindow.Passed] at hpassed
        rw [DataMessage.Before]
        omega
      · rw [hout, ← List.append_assoc, hwindow]
        intro a ha
        rcases List.mem_append.mp ha with hold | hnew
        · have hpassed := h.passed a hold
          rw [ReliableRxWindow.Passed] at hpassed ⊢
          omega
        · exact hdispatched.passed a (List.mem_of_mem_filter hnew)

theorem Lined.call (h : Lined uid topicName messageType front s) {i : Nat}
    (hstep : s.step decodes (.call i) = some s') :
    Lined uid topicName messageType front s' := by
  obtain ⟨reader, d, hpick, -, hreceiver⟩ := step_call hstep
  have hsublist : s'.waiting.Sublist s.waiting := by
    rw [pick, Option.map_eq_some_iff] at hpick
    obtain ⟨e, -, he⟩ := hpick
    rw [← (Prod.mk.inj he).2]
    exact List.eraseIdx_sublist _ _
  have hfront := (hsublist.map Prod.snd).append_left front
  have hwindow := window_eq hreceiver uid topicName messageType
  refine ⟨hwindow ▸ h.ahead, h.ascending.sublist hfront, ?_⟩
  intro d' hd'
  rw [hwindow]
  exact h.passed d' (hfront.subset hd')

theorem Lined.call_zero (h : Lined uid topicName messageType s.called s)
    (hstep : s.step decodes (.call 0) = some s') :
    Lined uid topicName messageType s'.called s' := by
  obtain ⟨reader, d, hpick, hcalled, hreceiver⟩ := step_call hstep
  have hwaiting : s.waiting = (reader, d) :: s'.waiting := by
    cases hw : s.waiting with
    | nil => simp [hw, pick] at hpick
    | cons e rest =>
        rw [hw, pick_zero_cons] at hpick
        obtain ⟨rfl, rfl⟩ := Prod.mk.inj (Option.some.inj hpick)
        rfl
  have hsame : s'.called ++ s'.waiting.map Prod.snd =
      s.called ++ s.waiting.map Prod.snd := by
    rw [hcalled, hwaiting, List.map_cons, List.append_assoc]
    rfl
  have hwindow := window_eq hreceiver uid topicName messageType
  exact ⟨hwindow ▸ h.ahead, hsame ▸ h.ascending, by rw [hsame, hwindow]; exact h.passed⟩

theorem mem_waiting_of_step {action : ReaderAction} (hstep : s.step decodes action = some s')
    {e : Nat × DataMessage} (he : e ∈ s.waiting) :
    ∃ later, s'.called = s.called ++ later ∧ (e ∈ s'.waiting ∨ e.2 ∈ later) := by
  cases action with
  | frame reader pd =>
      obtain ⟨hcalled, -, hwaiting⟩ := step_frame hstep
      refine ⟨[], by rw [hcalled, List.append_nil], .inl ?_⟩
      rw [hwaiting]
      exact List.mem_append_left _ he
  | call i =>
      obtain ⟨reader, d, hpick, hcalled, -⟩ := step_call hstep
      refine ⟨[d], hcalled, ?_⟩
      rcases (mem_of_pick hpick).mp he with rfl | hrest
      · exact .inr List.mem_cons_self
      · exact .inl hrest

theorem called_of_step {action : ReaderAction} (hstep : s.step decodes action = some s') :
    s.called <+: s'.called := by
  cases action with
  | frame reader pd =>
      obtain ⟨hcalled, -, -⟩ := step_frame hstep
      rw [hcalled]
  | call i =>
      obtain ⟨reader, d, -, hcalled, -⟩ := step_call hstep
      rw [hcalled]
      exact List.prefix_append _ _

theorem called_of_run {actions : List ReaderAction} (hrun : s.run decodes actions = some s') :
    s.called <+: s'.called := by
  induction actions generalizing s with
  | nil =>
      obtain rfl := Option.some.inj hrun
      exact List.prefix_rfl
  | cons action actions ih =>
      obtain ⟨s₁, hstep, hrest⟩ := Option.bind_eq_some_iff.mp hrun
      exact (called_of_step hstep).trans (ih hrest)

theorem called_of_waiting {actions : List ReaderAction}
    (hrun : s.run decodes actions = some s') (hdone : s'.waiting = [])
    {e : Nat × DataMessage} (he : e ∈ s.waiting) :
    ∃ later, s'.called = s.called ++ later ∧ e.2 ∈ later := by
  induction actions generalizing s with
  | nil =>
      obtain rfl := Option.some.inj hrun
      rw [hdone] at he
      cases he
  | cons action actions ih =>
      obtain ⟨s₁, hstep, hrest⟩ := Option.bind_eq_some_iff.mp hrun
      obtain ⟨now, hnow, hwaits | hcalled⟩ := mem_waiting_of_step hstep he
      · obtain ⟨later, hlater, hmem⟩ := ih hrest hwaits
        refine ⟨now ++ later, ?_, List.mem_append_right _ hmem⟩
        rw [hlater, hnow, List.append_assoc]
      · obtain ⟨later, hlater⟩ := called_of_run hrest
        refine ⟨now ++ later, ?_, List.mem_append_left _ hcalled⟩
        rw [← hlater, hnow, List.append_assoc]

theorem OnTopic.head {action : ReaderAction} {actions : List ReaderAction}
    (h : OnTopic uid topicName messageType (action :: actions)) :
    OnTopic uid topicName messageType [action] :=
  fun reader pd d hmem => h reader pd d (by
    rw [List.mem_singleton] at hmem
    exact hmem ▸ List.mem_cons_self)

theorem OnTopic.tail {action : ReaderAction} {actions : List ReaderAction}
    (h : OnTopic uid topicName messageType (action :: actions)) :
    OnTopic uid topicName messageType actions :=
  fun reader pd d hmem => h reader pd d (List.mem_cons_of_mem _ hmem)

theorem lined_of_inTurn {actions : List ReaderAction}
    (hframes : OnTopic uid topicName messageType actions)
    (h : Lined uid topicName messageType s.called s) (hturn : InTurn actions)
    (hrun : s.run decodes actions = some s') :
    Lined uid topicName messageType s'.called s' := by
  induction actions generalizing s with
  | nil =>
      obtain rfl := Option.some.inj hrun
      exact h
  | cons action actions ih =>
      obtain ⟨s₁, hstep, hrest⟩ := Option.bind_eq_some_iff.mp hrun
      refine ih hframes.tail ?_ (fun i hi => hturn i (List.mem_cons_of_mem _ hi)) hrest
      cases action with
      | frame reader pd =>
          rw [(step_frame hstep).1]
          exact h.frame hframes.head hstep
      | call i =>
          obtain rfl := hturn i List.mem_cons_self
          exact h.call_zero hstep

/-- A callback that overtakes another one leaves a message with a smaller tid waiting. -/
theorem Lined.overtaken (h : Lined uid topicName messageType front s) {i : Nat}
    (hpos : i ≠ 0) (hstep : s.step decodes (.call i) = some s') :
    ∃ d, s'.called = s.called ++ [d] ∧ ∃ first ∈ s'.waiting, first.2.Before d := by
  obtain ⟨reader, d, hpick, hcalled, -⟩ := step_call hstep
  refine ⟨d, hcalled, ?_⟩
  cases hwaiting : s.waiting with
  | nil => simp [hwaiting, pick] at hpick
  | cons first rest =>
      obtain ⟨i, rfl⟩ := Nat.exists_eq_succ_of_ne_zero hpos
      rw [hwaiting, pick, Option.map_eq_some_iff] at hpick
      obtain ⟨e, he, heq⟩ := hpick
      obtain ⟨rfl, hrest⟩ := Prod.mk.inj heq
      have hmem : (reader, d) ∈ rest := List.mem_of_getElem? he
      have hline := (List.pairwise_append.mp h.ascending).2.1
      rw [hwaiting, List.map_cons] at hline
      refine ⟨first, ?_, (List.pairwise_cons.mp hline).1 d (List.mem_map_of_mem hmem)⟩
      rw [← hrest]
      exact List.mem_cons_self

theorem inTurn_of_ascending {actions : List ReaderAction}
    (hframes : OnTopic uid topicName messageType actions)
    (h : Lined uid topicName messageType front s) (hrun : s.run decodes actions = some s')
    (hdone : s'.waiting = []) (hascending : s'.called.Pairwise DataMessage.Before) :
    InTurn actions := by
  induction actions generalizing s with
  | nil =>
      intro i hi
      cases hi
  | cons action actions ih =>
      obtain ⟨s₁, hstep, hrest⟩ := Option.bind_eq_some_iff.mp hrun
      have hlined : Lined uid topicName messageType front s₁ := by
        cases action with
        | frame reader pd => exact h.frame hframes.head hstep
        | call i => exact h.call hstep
      have htail := ih hframes.tail hlined hrest
      intro i hi
      rcases List.mem_cons.mp hi with rfl | hi
      · by_contra hpos
        obtain ⟨d, hcalled, first, hfirst, hbefore⟩ := h.overtaken hpos hstep
        obtain ⟨later, hlater, hmem⟩ := called_of_waiting hrest hdone hfirst
        rw [hlater, hcalled, List.append_assoc] at hascending
        have hafter := (List.pairwise_append.mp hascending).2.1
        have hwrong := (List.pairwise_cons.mp hafter).1 first.2 hmem
        rw [DataMessage.Before] at hbefore hwrong
        omega
      · exact htail i hi

/-- Whatever the receiver has been through before, readers of one topic call back in
ascending order as long as no callback overtakes another; and once they have called all,
the order shows it if one has. -/
theorem called_ascending (decodes : Bytes → Bytes → Bool) (history : List ReceiverEvent)
    {uid : UInt64} {topicName messageType : Bytes} {actions : List ReaderAction}
    (hframes : OnTopic uid topicName messageType actions) {s : Readers}
    (hrun : run decodes { receiver := history.foldl handle {} } actions = some s) :
    (InTurn actions → s.called.Pairwise DataMessage.Before) ∧
      (s.waiting = [] → s.called.Pairwise DataMessage.Before → InTurn actions) := by
  have hstart : Lined uid topicName messageType []
      { receiver := history.foldl handle {} } :=
    ⟨ahead_windowMet history uid _, .nil, List.forall_mem_nil _⟩
  refine ⟨?_, ?_⟩
  · intro hturn
    have hlined := lined_of_inTurn hframes hstart hturn hrun
    exact (List.pairwise_append.mp hlined.ascending).1
  · intro hdone hascending
    exact inTurn_of_ascending hframes hstart hrun hdone hascending

def twoReaders (turn : List Nat) : List ReaderAction :=
  .frame 0 (reliableFrame { identifier := some { tid := 1, uid := 7 } }) ::
    .frame 1 (reliableFrame { identifier := some { tid := 2, uid := 7 } }) ::
      turn.map .call

theorem onTopic_twoReaders (turn : List Nat) : OnTopic 7 [] [] (twoReaders turn) := by
  have hfirst : (reliableFrame { identifier := some { tid := 1, uid := 7 } }).reliableMessage =
      some { identifier := some { tid := 1, uid := 7 } } := by rfl
  have hsecond : (reliableFrame { identifier := some { tid := 2, uid := 7 } }).reliableMessage =
      some { identifier := some { tid := 2, uid := 7 } } := by rfl
  intro reader pd d hmem hd
  simp only [twoReaders, List.mem_cons, List.mem_map, ReaderAction.frame.injEq] at hmem
  rcases hmem with ⟨-, rfl⟩ | ⟨-, rfl⟩ | ⟨i, -, hi⟩
  · rw [hfirst] at hd
    obtain rfl := Option.some.inj hd
    decide
  · rw [hsecond] at hd
    obtain rfl := Option.some.inj hd
    decide
  · cases hi

/-- The second thread's callback comes first. -/
theorem twoReaders_overtake :
    OnTopic 7 [] [] (twoReaders [1, 0]) ∧
      ∃ s, run (fun _ _ => true) { receiver := {} } (twoReaders [1, 0]) = some s ∧
        s.waiting = [] ∧ ¬ s.called.Pairwise DataMessage.Before := by
  refine ⟨onTopic_twoReaders [1, 0], _, rfl, rfl, ?_⟩
  intro hascending
  have hwrong : DataMessage.Before { identifier := some { tid := 2, uid := 7 } }
      { identifier := some { tid := 1, uid := 7 } } :=
    (List.pairwise_cons.mp hascending).1 _ List.mem_cons_self
  exact absurd (show 2 < 1 from hwrong) (by decide)

theorem called_ascending_twoReaders :
    ∃ s, run (fun _ _ => true) { receiver := {} } (twoReaders [0, 0]) = some s ∧
      s.called.Pairwise DataMessage.Before := by
  refine ⟨_, rfl, ?_⟩
  exact (called_ascending (fun _ _ => true) [] (onTopic_twoReaders [0, 0]) rfl).1
    (by simp [InTurn, twoReaders])

end Readers

end Edriel
