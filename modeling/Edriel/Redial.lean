import Edriel.Delivery
import Edriel.Generations
import Edriel.Reconcile

namespace Edriel

open Proto3 Std Interleaving

/-- Of two messages on one topic the later one has the larger number. -/
def DataMessage.Rising (a b : DataMessage) : Prop :=
  a.key = b.key → a.tid < b.tid

/-- The frame that an event makes a stream of `sk` accept. -/
def ServerEvent.granted? (sk : SubscriberKey) : ServerEvent → Option DataMessage
  | .pushed c sk' _ .accepted => if sk' = sk then some c.data else none
  | _ => none

def granted (sk : SubscriberKey) (evs : List ServerEvent) : List DataMessage :=
  evs.filterMap (ServerEvent.granted? sk)

theorem granted_concat (sk : SubscriberKey) (evs : List ServerEvent) (e : ServerEvent) :
    granted sk (evs ++ [e]) = granted sk evs ++ (e.granted? sk).toList := by
  rw [granted, List.filterMap_append, granted]
  cases h : e.granted? sk <;> simp [h]

theorem granted?_eq_some {sk : SubscriberKey} {e : ServerEvent} {d : DataMessage} :
    e.granted? sk = some d ↔ ∃ c target, e = .pushed c sk target .accepted ∧ c.data = d := by
  constructor
  · intro h
    cases e with
    | pushed c sk' target status =>
        cases status with
        | accepted =>
            rw [ServerEvent.granted?] at h
            split at h
            · rename_i hsk
              exact ⟨c, target, by rw [hsk], Option.some.inj h⟩
            · cases h
        | backpressured => cases h
        | notConnected => cases h
    | _ => cases h
  · rintro ⟨c, target, rfl, rfl⟩
    exact if_pos rfl

theorem mem_granted {sk : SubscriberKey} {evs : List ServerEvent} {d : DataMessage} :
    d ∈ granted sk evs ↔ ∃ c target, .pushed c sk target .accepted ∈ evs ∧ c.data = d := by
  rw [granted, List.mem_filterMap]
  constructor
  · rintro ⟨e, he, hd⟩
    obtain ⟨c, target, rfl, rfl⟩ := granted?_eq_some.mp hd
    exact ⟨c, target, he, rfl⟩
  · rintro ⟨c, target, he, rfl⟩
    exact ⟨_, he, if_pos rfl⟩

namespace Server

variable {N : Nat} [NeZero N]

/-- Each subscriber is pushed to once in a send, and the frame is the publisher's own. -/
structure Spread (me : Identity) (evs : List ServerEvent) (s : Server N) : Prop where
  wirePids : s.node.WirePids
  selfParticipant : s.node.selfParticipant = me
  stamped : ∀ c, s.publisher.call = some c →
    ∃ topicName messageType, Stamped me topicName messageType c.data
  distinct : ∀ c, s.publisher.call = some c → (c.remaining.map Identity.subscriberKey).Nodup
  once : ∀ c, s.publisher.call = some c → ∀ c' sk target status,
    .pushed c' sk target status ∈ evs → c'.number = c.number →
      sk ∉ c.remaining.map Identity.subscriberKey
  frames : ∀ c sk target status, .pushed c sk target status ∈ evs →
    ∃ topicName messageType, Stamped me topicName messageType c.data

variable {me : Identity} {evs : List ServerEvent} {s s' : Server N} {e : ServerEvent}

theorem Spread.node (h : Spread me evs s) (hstep : Stepped s e s') :
    s'.node.WirePids ∧ s'.node.selfParticipant = me := by
  rcases node_of_stepped hstep with hnode | ⟨op, hnode⟩
  · rw [hnode]
    exact ⟨h.wirePids, h.selfParticipant⟩
  · rw [hnode, Node.selfParticipant_apply]
    exact ⟨Node.wirePids_apply h.wirePids, h.selfParticipant⟩

theorem Spread.next (h : Spread me evs s) (hstep : Stepped s e s')
    (hother : ∀ c sk target status, e ≠ .pushed c sk target status)
    (hcall : ∀ c, s'.publisher.call = some c → s.publisher.call = some c ∨
      s.publisher.call = none ∧ c.number = s.publisher.calls ∧
        (∃ topicName messageType, Stamped me topicName messageType c.data) ∧
          (c.remaining.map Identity.subscriberKey).Nodup)
    (hnew : ∀ c sk target status, .pushed c sk target status ∈ evs →
      c.number < s.publisher.calls) : Spread me (evs ++ [e]) s' := by
  have hmem : ∀ {c sk target status}, .pushed c sk target status ∈ evs ++ [e] →
      .pushed c sk target status ∈ evs := by
    intro c sk target status hpushed
    rcases List.mem_append.mp hpushed with hpushed | hpushed
    · exact hpushed
    · exact absurd (List.mem_singleton.mp hpushed).symm (hother c sk target status)
  have hnode := h.node hstep
  constructor
  case wirePids => exact hnode.1
  case selfParticipant => exact hnode.2
  case stamped =>
    intro c hc
    rcases hcall c hc with hold | ⟨-, -, hstamped, -⟩
    · exact h.stamped c hold
    · exact hstamped
  case distinct =>
    intro c hc
    rcases hcall c hc with hold | ⟨-, -, -, hdistinct⟩
    · exact h.distinct c hold
    · exact hdistinct
  case once =>
    intro c hc c' sk target status hpushed hnumber
    rcases hcall c hc with hold | ⟨-, hcalls, -, -⟩
    · exact h.once c hold c' sk target status (hmem hpushed) hnumber
    · have := hnew c' sk target status (hmem hpushed)
      omega
  case frames => exact fun c sk target status hpushed => h.frames c sk target status (hmem hpushed)

theorem Spread.push (h : Spread me evs s) {c : Call} {sub : Identity} {rest : List Identity}
    (hcall : s.publisher.call = some c) (hremaining : c.remaining = sub :: rest)
    (target : Option Nat) (hstep : Stepped s (.pushed c sub.subscriberKey target
      (s.pushStatus c target)) s')
    (hcall' : s'.publisher.call =
      some (c.noted sub.subscriberKey (s.pushStatus c target))) :
    Spread me (evs ++ [.pushed c sub.subscriberKey target (s.pushStatus c target)]) s' := by
  have hnode := h.node hstep
  have hnodup := h.distinct c hcall
  rw [hremaining, List.map_cons, List.nodup_cons] at hnodup
  have hrest : ∀ status, (c.noted sub.subscriberKey status).remaining = rest := by
    intro status
    rw [Call.noted, hremaining]
    rfl
  constructor
  case wirePids => exact hnode.1
  case selfParticipant => exact hnode.2
  case stamped =>
    intro c' hc'
    obtain rfl := Option.some.inj (hcall'.symm.trans hc')
    exact h.stamped c hcall
  case distinct =>
    intro c' hc'
    obtain rfl := Option.some.inj (hcall'.symm.trans hc')
    rw [hrest]
    exact hnodup.2
  case once =>
    intro c' hc' c'' sk target' status hpushed hnumber
    obtain rfl := Option.some.inj (hcall'.symm.trans hc')
    rw [hrest]
    rcases List.mem_append.mp hpushed with hold | hlast
    · have hout := h.once c hcall c'' sk target' status hold hnumber
      rw [hremaining] at hout
      exact fun hin => hout (List.mem_cons_of_mem _ hin)
    · obtain ⟨-, rfl, -, -⟩ := ServerEvent.pushed.inj (List.mem_singleton.mp hlast)
      exact hnodup.1
  case frames =>
    intro c' sk target' status hpushed
    rcases List.mem_append.mp hpushed with hold | hlast
    · exact h.frames c' sk target' status hold
    · obtain ⟨rfl, -, -, -⟩ := ServerEvent.pushed.inj (List.mem_singleton.mp hlast)
      exact h.stamped c' hcall

theorem spread_step (htid : TidInv evs s.publisher) (h : Spread me evs s)
    (hstep : Stepped s e s') : Spread me (evs ++ [e]) s' := by
  have heffect := publisherEffect_of_stepped hstep
  have hkeep : (∀ c sk target status, e ≠ .pushed c sk target status) →
      s'.publisher = s.publisher → Spread me (evs ++ [e]) s' := by
    intro hother hpublisher
    refine h.next hstep hother (fun c hc => .inl ?_) htid.pushed_lt
    rw [← hpublisher]
    exact hc
  cases e with
  | pushed c sk target status =>
      obtain ⟨hcall, ⟨sub, rest, hremaining, rfl⟩, -, rfl, hpublisher⟩ := heffect
      exact h.push hcall hremaining target hstep (by rw [hpublisher])
  | begun c =>
      obtain ⟨hidle, ⟨topicName, messageType, payload, hopening⟩, hcall, -, -⟩ := heffect
      refine h.next hstep (fun c sk target status => by simp) (fun c' hc' => .inr ?_)
        htid.pushed_lt
      obtain rfl := Option.some.inj (hcall.symm.trans hc')
      refine ⟨hidle, hopening.number, ⟨topicName, messageType, ⟨payload, c.nextSeq, ?_⟩,
        hopening.fits⟩, distinct_of_opening h.wirePids hopening⟩
      rw [← h.selfParticipant]
      exact hopening.data
  | refused call why =>
      obtain ⟨-, -, hidle, -, -⟩ := heffect
      refine h.next hstep (fun c sk target status => by simp) (fun c hc => ?_) htid.pushed_lt
      rw [hidle] at hc
      cases hc
  | returned c result =>
      obtain ⟨-, -, -, hpublisher⟩ := heffect
      refine h.next hstep (fun c sk target status => by simp) (fun c' hc' => ?_) htid.pushed_lt
      rw [hpublisher] at hc'
      cases hc'
  | registered i sk superseded => exact hkeep (fun c sk target status => by simp) heffect
  | reactor i e => exact hkeep (fun c sk target status => by simp) heffect
  | internal => exact hkeep (fun c sk target status => by simp) heffect

theorem spread_of_trace {ok : Server N → ServerAction → Prop} {config : Config}
    {maxFrames hwm lwm : Nat}
    (h : Trace (StepsWhere ok step) (init (.fresh me config) maxFrames hwm lwm) evs s) :
    Spread me evs s := by
  refine Trace.invariant (P := fun evs s => Spread me evs s) ?_ ?_ h
  · constructor
    case wirePids => exact Node.wirePids_fresh me config
    case selfParticipant => rfl
    case stamped =>
      intro c hc
      cases hc
    case distinct =>
      intro c hc
      cases hc
    case once =>
      intro c hc
      cases hc
    case frames =>
      intro c sk target status hpushed
      cases hpushed
  · rintro evs s e s' hprev hs ⟨a, -, hstep⟩
    exact spread_step (tidInv_of_trace hprev) hs (stepped_of_step hstep)

theorem lt_of_granted (htid : TidInv evs s.publisher) (h : Spread me evs s)
    (hfew : ∀ key, (sents key evs).length < 2 ^ 64 - 1) {c : Call} {sub : Identity}
    {rest : List Identity} (hcall : s.publisher.call = some c)
    (hremaining : c.remaining = sub :: rest) {d : DataMessage}
    (hd : d ∈ granted sub.subscriberKey evs) (hkey : d.key = c.data.key) :
    d.tid < c.data.tid := by
  obtain ⟨c', target, hpushed, rfl⟩ := mem_granted.mp hd
  have hlast := hfew c.data.key
  have hnew : c.data.tid = (sents c.data.key evs).length + 1 := by
    rw [(stamped_tid htid hcall).2, Nat.mod_eq_of_lt (by omega)]
  rcases htid.placed c' _ target hpushed with ⟨c₀, hc₀, hnumber, -⟩ | ⟨k, c₀, hk, -, -, hold⟩
  · -- the send in progress has not pushed to this subscriber yet
    obtain rfl := Option.some.inj (hcall.symm.trans hc₀)
    refine absurd ?_ (h.once c hcall c' _ target _ hpushed hnumber.symm)
    rw [hremaining]
    exact List.mem_cons_self
  · have hlt := (List.getElem?_eq_some_iff.mp hk).1
    rw [hkey] at hlt
    rw [hnew, hold, Nat.mod_eq_of_lt (by omega)]
    omega

/-- The numbers of a topic that a subscriber is granted only grow, whatever streams it is
granted them on. -/
theorem granted_rising {ok : Server N → ServerAction → Prop} {config : Config}
    {maxFrames hwm lwm : Nat} (sk : SubscriberKey)
    (h : Trace (StepsWhere ok step) (init (.fresh me config) maxFrames hwm lwm) evs s)
    (hfew : ∀ key, (sents key evs).length < 2 ^ 64 - 1) :
    (granted sk evs).Pairwise DataMessage.Rising := by
  induction h with
  | nil => exact List.Pairwise.nil
  | @snoc evs s e s' hprev hR ih =>
      have hfew' : ∀ key, (sents key evs).length < 2 ^ 64 - 1 := by
        intro key
        have := hfew key
        rw [sents_concat, List.length_append] at this
        omega
      obtain ⟨a, -, hstep⟩ := hR
      rw [granted_concat]
      refine List.pairwise_append.mpr ⟨ih hfew', ?_, ?_⟩
      · cases e.granted? sk <;> simp
      · intro d hd d' hd' hkey
        obtain ⟨c, target, rfl, rfl⟩ := granted?_eq_some.mp (Option.mem_toList.mp hd')
        obtain ⟨hcall, ⟨sub, rest, hremaining, rfl⟩, -, -, -⟩ :=
          publisherEffect_of_stepped (stepped_of_step hstep)
        exact lt_of_granted (tidInv_of_trace hprev) (spread_of_trace hprev) hfew' hcall
          hremaining hd hkey

theorem named_of_step {s s' : Server N} {a : ServerAction} {e : ServerEvent} {i : Nat}
    (h : s.step a = some (e, s')) (hnamed : (s'.rpcs i).reactor.initialised = true) :
    (s.rpcs i).reactor.initialised = true ∨ ∃ key, a = .reactor i (.onReadDone (some key)) ∧
      (s'.rpcs i).reactor.key = key := by
  have hinner : ∀ {b : RpcAction OutFrame} {e' : RpcEvent OutFrame},
      (s.rpcs i).step b = some (e', s'.rpcs i) →
        (s.rpcs i).reactor.initialised = true ∨
          ∃ key, b = .onReadDone (some key) ∧ (s'.rpcs i).reactor.key = key := by
    intro b e' hstep
    generalize s'.rpcs i = r at hstep hnamed
    cases Rpc.stepped_of_step hstep with
    | enqueue f =>
        rw [← (Rpc.reactor_enqueue_identity (s.rpcs i).reactor f).1]
        exact .inl hnamed
    | onWriteDone ok hwrites => exact .inl hnamed
    | onReadFailed hreads =>
        rw [Rpc.onReadFailed] at hnamed
        split_ifs at hnamed <;> exact .inl hnamed
    | onHeartbeat key hreads =>
        rw [Rpc.onHeartbeat]
        split
        · exact .inl ‹_›
        · exact .inr ⟨key, rfl, rfl⟩
    | onCancel =>
        rw [Rpc.onCancel] at hnamed
        split at hnamed <;> exact .inl hnamed
    | onDone hfinishes hreads => exact .inl hnamed
    | supersede => exact .inl hnamed
    | run answer hpick =>
        rw [(Rpc.identity_runTask _ _ _ _).1] at hnamed
        exact .inl hnamed
  cases moved_of_step h i with
  | still hrpc _ =>
      rw [hrpc] at hnamed
      exact .inl hnamed
  | @reactor b e' ha hstep _ =>
      refine (hinner hstep).imp_right ?_
      rintro ⟨key, hb, hkey⟩
      refine ⟨key, ?_, hkey⟩
      cases b with
      | onReadDone heartbeat =>
          obtain rfl := RpcAction.onReadDone.inj hb
          exact ha
      | _ => cases hb
  | entry _ hb hstep _ =>
      refine (hinner hstep).imp_right ?_
      rintro ⟨key, rfl, -⟩
      rcases hb with ⟨hb, -⟩ | ⟨f, hb⟩ <;> cases hb

theorem lt_dials_of_taken {ok : Server N → ServerAction → Prop} {node : Node N}
    {maxFrames hwm lwm : Nat}
    (h : Trace (StepsWhere ok step) (init node maxFrames hwm lwm) evs s) (i : Nat) :
    takenData i evs ≠ [] → i < s.dials := by
  refine Trace.invariant (P := fun evs s => takenData i evs ≠ [] → i < s.dials)
    (fun hne => absurd rfl hne) ?_ h
  rintro evs s e s' hprev ih ⟨a, -, hstep⟩ hne
  refine Nat.lt_of_lt_of_le ?_ (dials_le_of_step hstep)
  rw [takenData_concat] at hne
  cases htaken : e.taken? i with
  | none =>
      rw [htaken, Option.toList_none, List.append_nil] at hne
      exact ih hne
  | some d =>
      have heffect := publisherEffect_of_stepped (stepped_of_step hstep)
      cases e with
      | pushed c sk target status =>
          obtain ⟨-, -, htarget, -, -⟩ := heffect
          have hpush : target = some i := by
            cases status with
            | accepted =>
                rw [ServerEvent.taken?] at htaken
                split at htaken
                · assumption
                · cases htaken
            | backpressured => cases htaken
            | notConnected => cases htaken
          have hdials := dials_of_trace hprev
          by_contra hlate
          have hserved := hdials.entered sk i (by rw [← htarget, hpush])
          cases hserved.named.symm.trans (hdials.undialed i (Nat.not_lt.mp hlate)).unnamed
      | _ => cases htaken

/-- What has come off a stream, what is on the wire and what is queued are together what the
stream has accepted. -/
theorem messages_wired_append {ok : Server N → ServerAction → Prop} {node : Node N}
    {maxFrames hwm lwm : Nat}
    (h : Trace (StepsWhere ok step) (init node maxFrames hwm lwm) evs s) {i : Nat}
    {taken wire : List OutFrame} (hwire : taken ++ wire = evs.flatMap (ServerEvent.wired i)) :
    messages taken ++ messages (wire ++ ((s.rpcs i).claimed.flatMap Option.toList ++
      (s.rpcs i).reactor.outbox)) = takenData i evs := by
  obtain ⟨-, hcarried, hhanded⟩ := Rpc.streamInv_of_trace (trace_rpc h i)
  have hcarried : Rpc.moved (evs.flatMap (ServerEvent.view i)) ++ (s.rpcs i).reactor.outbox =
      Rpc.accepted (evs.flatMap (ServerEvent.view i)) := hcarried
  have hhanded : Rpc.started (evs.flatMap (ServerEvent.view i)) ++ (s.rpcs i).claimed =
      (Rpc.moved (evs.flatMap (ServerEvent.view i))).map some := hhanded
  have hmoved : Rpc.moved (evs.flatMap (ServerEvent.view i)) =
      evs.flatMap (ServerEvent.wired i) ++ (s.rpcs i).claimed.flatMap Option.toList := by
    rw [flatMap_wired, ← List.flatMap_append, hhanded, List.flatMap_map]
    simp
  rw [← messages_append, ← messages_accepted (presenceOnly_of_trace h).2, ← hcarried, hmoved,
    ← hwire]
  simp only [List.append_assoc]

end Server

namespace ReliableRxWindow

/-- What a window holds has been read under the key, and lies ahead of what it expects. -/
structure Calm (w : ReliableRxWindow) (read : List DataMessage) (key : Bytes) : Prop where
  baseline : w.nextExpected = 0 → w.buffer = ∅
  held : ∀ tid ∈ w.buffer, w.nextExpected < tid ∧ ∃ d ∈ read, d.key = key ∧ d.tid = tid

variable {w : ReliableRxWindow} {read : List DataMessage} {key : Bytes}

theorem calm_empty (n : Nat) (read : List DataMessage) (key : Bytes) :
    ({ nextExpected := n } : ReliableRxWindow).Calm read key where
  baseline _ := rfl
  held _ htid := absurd htid ExtTreeMap.not_mem_empty

theorem Calm.mono {more : List DataMessage} (h : w.Calm read key) (hsub : read ⊆ more) :
    w.Calm more key where
  baseline := h.baseline
  held := by
    intro tid htid
    obtain ⟨hlt, d, hd, hkey⟩ := h.held tid htid
    exact ⟨hlt, d, hsub hd, hkey⟩

theorem deliver_of_empty {m : DataMessage} (hempty : w.buffer = ∅) :
    (w.deliver m).1 = [m] ∧ ∃ n, (w.deliver m).2 = { nextExpected := n } := by
  rw [deliver, hempty]
  exact ⟨rfl, _, rfl⟩

/-- A frame newer than all that was read under its key is dispatched alone, if at all: nothing
that waits behind a gap ever follows. -/
theorem Calm.receive (h : w.Calm read key) {m : DataMessage} (hkey : m.key = key)
    (hnew : ∀ d ∈ read, d.key = key → d.tid < m.tid) :
    ((w.receive m).1 = [] ∨ (w.receive m).1 = [m]) ∧
      (w.receive m).2.Calm (read ++ [m]) key := by
  have hmore := h.mono (List.subset_append_left read [m])
  have halone : ∀ {v : ReliableRxWindow}, v.buffer = ∅ →
      ((v.deliver m).1 = [] ∨ (v.deliver m).1 = [m]) ∧
        (v.deliver m).2.Calm (read ++ [m]) key := by
    intro v hempty
    obtain ⟨hout, n, hwindow⟩ := deliver_of_empty (m := m) hempty
    refine ⟨.inr hout, ?_⟩
    rw [hwindow]
    exact calm_empty n _ _
  rw [ReliableRxWindow.receive]
  split_ifs with hbase hnext hahead hroom hfar
  · exact halone (h.baseline hbase)
  · refine halone (ExtTreeMap.eq_empty_iff_forall_not_mem.mpr fun tid htid => ?_)
    obtain ⟨hlt, d, hd, hdkey, rfl⟩ := h.held tid htid
    have := hnew d hd hdkey
    omega
  · refine ⟨.inl rfl, fun hzero => absurd hzero hbase, ?_⟩
    intro tid htid
    rcases ExtTreeMap.mem_insertIfNew.mp htid with heq | hold
    · obtain rfl := LawfulEqOrd.compare_eq_iff_eq.mp heq
      exact ⟨hahead, m, by simp, hkey, rfl⟩
    · exact hmore.held tid hold
  · exact halone (ExtTreeMap.isEmpty_iff.mp hfar.2)
  · exact ⟨.inl rfl, hmore⟩
  · exact ⟨.inl rfl, hmore⟩

end ReliableRxWindow

namespace ReliableReceiver

/-- Every window of the publisher is calm. -/
def Calm (r : ReliableReceiver) (uid : UInt64) (read : List DataMessage) : Prop :=
  ∀ key w, r.reliableWindows[windowPrefix uid ++ key]? = some w → w.Calm read key

variable {r : ReliableReceiver} {uid : UInt64} {read : List DataMessage}

theorem calm_new (uid : UInt64) (read : List DataMessage) :
    ({} : ReliableReceiver).Calm uid read := by
  intro key w hw
  cases ExtTreeMap.getElem?_empty.symm.trans hw

theorem Calm.note (h : r.Calm uid read) (dialed : UInt64) :
    (r.noteReliableStreamEstablished dialed).Calm uid read := by
  intro key w hw
  rw [noteReliableStreamEstablished, getElem?_rebaseline] at hw
  obtain ⟨old, hold, rfl⟩ := Option.map_eq_some_iff.mp hw
  split
  · exact ReliableRxWindow.calm_empty 0 read key
  · exact h key old hold

theorem Calm.prune (h : r.Calm uid read) (stale : UInt64) : (r.prune stale).Calm uid read := by
  intro key w hw
  rw [ReliableReceiver.prune, ExtTreeMap.getElem?_filter'] at hw
  exact h key w (Option.filter_eq_some_iff.mp hw).1

theorem Calm.receive_of_ne (h : r.Calm uid read) {d : DataMessage} {key : Bytes}
    {w : ReliableRxWindow} (hne : windowPrefix uid ++ key ≠ d.windowKey)
    (hw : (r.receive d).2.reliableWindows[windowPrefix uid ++ key]? = some w) :
    w.Calm read key := by
  rw [getElem?_receive_of_ne r hne] at hw
  obtain ⟨old, hold, rfl⟩ := Option.map_eq_some_iff.mp hw
  split
  · exact ReliableRxWindow.calm_empty 0 read key
  · exact h key old hold

theorem Calm.foreign (h : r.Calm uid read) {d : DataMessage} (hother : d.pubUid ≠ uid) :
    (r.receive d).2.Calm uid read := by
  intro key w hw
  refine h.receive_of_ne (fun heq => hother ?_) hw
  refine ((windowPrefix_isPrefixOf_iff uid d.pubUid
    (makeCompositeKey d.topicName d.messageType)).mp ?_).symm
  change (windowPrefix uid).isPrefixOf d.windowKey = true
  rw [← heq, List.isPrefixOf_iff_prefix]
  exact List.prefix_append _ _

theorem Calm.receive (h : r.Calm uid read) {d : DataMessage} (huid : d.pubUid = uid)
    (hnew : ∀ d' ∈ read, d'.key = d.key → d'.tid < d.tid) :
    ((r.receive d).1 = [] ∨ (r.receive d).1 = [d]) ∧
      (r.receive d).2.Calm uid (read ++ [d]) := by
  subst huid
  have hmet : (r.windowMet d.pubUid d.windowKey).Calm read d.key := by
    rw [windowMet]
    split
    · exact ReliableRxWindow.calm_empty 0 read _
    · cases hw : r.reliableWindows[d.windowKey]? with
      | none => exact ReliableRxWindow.calm_empty 1 read _
      | some w => exact h d.key w hw
  obtain ⟨hout, hwindow⟩ := hmet.receive rfl hnew
  refine ⟨hout, fun key w hw => ?_⟩
  by_cases hkey : windowPrefix d.pubUid ++ key = d.windowKey
  · obtain rfl : key = d.key := List.append_cancel_left hkey
    obtain rfl := Option.some.inj ((getElem?_receive_self r d).symm.trans hw)
    exact hwindow
  · exact (h.receive_of_ne hkey hw).mono (List.subset_append_left _ _)

end ReliableReceiver

/-- A publisher, and one subscriber process with its connection to it.  The connection reads
from the stream that it has dialed last; the frames of the earlier ones are lost to it. -/
structure Session (N : Nat) where
  server : Server N
  streams : Nat → List OutFrame := fun _ => []
  receiver : ReliableReceiver := {}
  dialed : List Nat := []

/-- `dial` opens a new stream.  Aside from the frames that are read, the receiver is told of
established streams, of frames of other publishers and of peers that time out. -/
inductive SessionAction where
  | server (a : ServerAction)
  | dial
  | read
  | aside (event : ReceiverEvent)

inductive SessionEvent where
  | server (e : ServerEvent)
  | dialed (i : Nat)
  | read (i : Nat) (f : OutFrame) (dispatched : List DataMessage)
  | aside

namespace SessionEvent

def served : SessionEvent → List ServerEvent
  | .server e => [e]
  | .dialed _ => [.internal]
  | .read _ _ _ => []
  | .aside => []

def readOff (i : Nat) : SessionEvent → List OutFrame
  | .server _ => []
  | .dialed _ => []
  | .read j f _ => if j = i then [f] else []
  | .aside => []

def data : SessionEvent → List DataMessage
  | .server _ => []
  | .dialed _ => []
  | .read _ f _ => messages [f]
  | .aside => []

def dispatched : SessionEvent → List DataMessage
  | .server _ => []
  | .dialed _ => []
  | .read _ _ ms => ms
  | .aside => []

end SessionEvent

/-- Whose frame an event is. -/
def ReceiverEvent.publisher? : ReceiverEvent → Option UInt64
  | .frame pd => pd.reliableMessage.map (·.pubUid)
  | _ => none

namespace Session

variable {N : Nat}

def init (me : Identity) (config : Config) (maxFrames hwm lwm : Nat) : Session N :=
  { server := .init (.fresh me config) maxFrames hwm lwm }

def served (evs : List SessionEvent) : List ServerEvent :=
  evs.flatMap SessionEvent.served

def readFrames (i : Nat) (evs : List SessionEvent) : List OutFrame :=
  evs.flatMap (SessionEvent.readOff i)

def read (evs : List SessionEvent) : List DataMessage :=
  evs.flatMap SessionEvent.data

def dispatched (evs : List SessionEvent) : List DataMessage :=
  evs.flatMap SessionEvent.dispatched

variable [NeZero N]

def step (s : Session N) : SessionAction → Option (SessionEvent × Session N)
  | .server a =>
      (s.server.step a).map fun p =>
        (.server p.1,
          { s with server := p.2, streams := fun i => s.streams i ++ p.1.wired i })
  | .dial =>
      (s.server.step .streamParticipants).map fun p =>
        (.dialed s.server.dials,
          { s with server := p.2, dialed := s.dialed ++ [s.server.dials] })
  | .read =>
      match s.dialed.getLast? with
      | none => none
      | some i =>
          match s.streams i with
          | [] => none
          | f :: fs =>
              let handled := s.receiver.handleReliableDataFrame f.participantData
              some (.read i f handled.1,
                { s with
                  streams := Function.update s.streams i fs
                  receiver := handled.2 })
  | .aside event =>
      if event.publisher? = some s.server.node.selfParticipant.uid then none
      else some (.aside, { s with receiver := s.receiver.handle event })

/-- The subscriber names itself `sk` on every stream it dials. -/
def Honest (sk : SubscriberKey) (s : Session N) : SessionAction → Prop
  | .server (.reactor i (.onReadDone (some key))) => i ∈ s.dialed → key = sk
  | _ => True

inductive Stepped (s : Session N) : SessionAction → SessionEvent → Session N → Prop
  | server {a : ServerAction} {e : ServerEvent} {s' : Server N}
      (hstep : s.server.step a = some (e, s')) :
      Stepped s (.server a) (.server e)
        { s with server := s', streams := fun i => s.streams i ++ e.wired i }
  | dialed {s' : Server N} (hstep : s.server.step .streamParticipants = some (.internal, s')) :
      Stepped s .dial (.dialed s.server.dials)
        { s with server := s', dialed := s.dialed ++ [s.server.dials] }
  | read {i : Nat} {f : OutFrame} {fs : List OutFrame} (hlast : s.dialed.getLast? = some i)
      (hstream : s.streams i = f :: fs) :
      Stepped s .read (.read i f (s.receiver.handleReliableDataFrame f.participantData).1)
        { s with
          streams := Function.update s.streams i fs
          receiver := (s.receiver.handleReliableDataFrame f.participantData).2 }
  | aside {event : ReceiverEvent}
      (hother : event.publisher? ≠ some s.server.node.selfParticipant.uid) :
      Stepped s (.aside event) .aside { s with receiver := s.receiver.handle event }

theorem stepped_of_step {s s' : Session N} {a : SessionAction} {e : SessionEvent}
    (h : s.step a = some (e, s')) : Stepped s a e s' := by
  cases a with
  | server a =>
      obtain ⟨⟨e', server⟩, hstep, hp⟩ := Option.map_eq_some_iff.mp h
      obtain ⟨rfl, rfl⟩ := Prod.mk.inj hp
      exact .server hstep
  | dial =>
      obtain ⟨⟨e', server⟩, hstep, hp⟩ := Option.map_eq_some_iff.mp h
      obtain ⟨rfl, rfl⟩ := Prod.mk.inj hp
      refine .dialed ?_
      rw [hstep]
      simp only [Server.step] at hstep
      split at hstep
      · obtain ⟨rfl, -⟩ := Prod.mk.inj (Option.some.inj hstep)
        rfl
      · cases hstep
  | read =>
      simp only [step] at h
      split at h
      · cases h
      · rename_i i hlast
        split at h
        · cases h
        · rename_i f fs hstream
          obtain ⟨rfl, rfl⟩ := Prod.mk.inj (Option.some.inj h)
          exact .read hlast hstream
  | aside event =>
      simp only [step] at h
      split at h
      · cases h
      · obtain ⟨rfl, rfl⟩ := Prod.mk.inj (Option.some.inj h)
        exact .aside ‹_›

variable {ok : Session N → SessionAction → Prop} {me : Identity} {config : Config}
  {maxFrames hwm lwm : Nat} {sk : SubscriberKey} {evs : List SessionEvent} {s s' : Session N}
  {e : SessionEvent}

theorem trace_served (h : Trace (StepsWhere ok step) (init me config maxFrames hwm lwm) evs s) :
    Trace (Steps Server.step) (Server.init (.fresh me config) maxFrames hwm lwm) (served evs)
      s.server := by
  refine Trace.project (fun s => s.server) SessionEvent.served ?_ h
  rintro evs s e s' - ⟨a, -, hstep⟩
  cases stepped_of_step hstep with
  | server hserver => exact .single ⟨_, trivial, hserver⟩
  | dialed hserver => exact .single ⟨_, trivial, hserver⟩
  | read hlast hstream => exact .nil
  | aside hother => exact .nil

omit [NeZero N] in
theorem served_concat (evs : List SessionEvent) (e : SessionEvent) :
    served (evs ++ [e]) = served evs ++ e.served := by
  rw [served, List.flatMap_append, List.flatMap_singleton, served]

omit [NeZero N] in
theorem readFrames_concat (i : Nat) (evs : List SessionEvent) (e : SessionEvent) :
    readFrames i (evs ++ [e]) = readFrames i evs ++ e.readOff i := by
  rw [readFrames, List.flatMap_append, List.flatMap_singleton, readFrames]

omit [NeZero N] in
theorem read_concat (evs : List SessionEvent) (e : SessionEvent) :
    read (evs ++ [e]) = read evs ++ e.data := by
  rw [read, List.flatMap_append, List.flatMap_singleton, read]

omit [NeZero N] in
theorem dispatched_concat (evs : List SessionEvent) (e : SessionEvent) :
    dispatched (evs ++ [e]) = dispatched evs ++ e.dispatched := by
  rw [dispatched, List.flatMap_append, List.flatMap_singleton, dispatched]

theorem readFrames_append_streams
    (h : Trace (StepsWhere ok step) (init me config maxFrames hwm lwm) evs s) (i : Nat) :
    readFrames i evs ++ s.streams i = (served evs).flatMap (ServerEvent.wired i) := by
  refine Trace.invariant (P := fun evs s =>
    readFrames i evs ++ s.streams i = (served evs).flatMap (ServerEvent.wired i)) rfl ?_ h
  rintro evs s e s' - ih ⟨a, -, hstep⟩
  rw [readFrames_concat, served_concat, List.flatMap_append, ← ih]
  cases stepped_of_step hstep with
  | server hserver =>
      simp only [SessionEvent.readOff, SessionEvent.served, List.append_nil,
        List.flatMap_singleton, List.append_assoc]
  | dialed hserver =>
      simp only [SessionEvent.readOff, SessionEvent.served, List.append_nil,
        List.flatMap_singleton, ServerEvent.wired]
  | @read j f fs hlast hstream =>
      simp only [SessionEvent.readOff, SessionEvent.served, List.flatMap_nil, List.append_nil,
        Function.update_apply]
      by_cases hj : j = i
      · rw [if_pos hj, if_pos hj.symm, ← hj, hstream, List.append_assoc]
        rfl
      · rw [if_neg hj, if_neg (Ne.symm hj), List.append_nil]
  | aside hother =>
      simp only [SessionEvent.readOff, SessionEvent.served, List.append_nil, List.flatMap_nil]

theorem messages_read_isPrefix
    (h : Trace (StepsWhere ok step) (init me config maxFrames hwm lwm) evs s) (i : Nat) :
    messages (readFrames i evs) <+: takenData i (served evs) :=
  ⟨_, Server.messages_wired_append (trace_served h) (readFrames_append_streams h i)⟩

def current (dialed : List Nat) (data : Nat → List DataMessage) : List DataMessage :=
  match dialed.getLast? with
  | none => []
  | some i => data i

/-- The streams of the subscriber are its own, and what it has read so far, with all that its
present stream has accepted, came in the order in which it was granted. -/
structure Chronicle (sk : SubscriberKey) (evs : List SessionEvent) (s : Session N) : Prop where
  own : ∀ i ∈ s.dialed, (s.server.rpcs i).reactor.initialised = true →
    (s.server.rpcs i).reactor.key = sk
  order : ∃ earlier, read evs =
      earlier ++ current s.dialed (fun i => messages (readFrames i evs)) ∧
    List.Sublist (earlier ++ current s.dialed (fun i => takenData i (served evs)))
      (granted sk (served evs))

omit [NeZero N] in
theorem current_concat (dialed : List Nat) (i : Nat) (data : Nat → List DataMessage) :
    current (dialed ++ [i]) data = data i := by
  rw [current, List.getLast?_concat]

omit [NeZero N] in
theorem current_of_last {dialed : List Nat} {i : Nat} (hlast : dialed.getLast? = some i)
    (data : Nat → List DataMessage) : current dialed data = data i := by
  rw [current, hlast]

theorem granted_of_taken (h : Chronicle sk evs s) (htable : s.server.TableInv)
    {a : ServerAction} {e : ServerEvent} {server : Server N}
    (hstep : s.server.step a = some (e, server)) {i : Nat} (hi : i ∈ s.dialed) :
    ∀ d ∈ e.taken? i, e.granted? sk = some d := by
  intro d hd
  have heffect := Server.publisherEffect_of_stepped (Server.stepped_of_step hstep)
  cases e with
  | pushed c sk' target status =>
      obtain ⟨-, -, htarget, -, -⟩ := heffect
      cases status with
      | accepted =>
          rw [Option.mem_def, ServerEvent.taken?] at hd
          split at hd
          · rename_i hmine
            obtain ⟨hnamed, hkey⟩ := htable.keyed sk' i (htarget.symm.trans hmine)
            rw [h.own i hi hnamed] at hkey
            rw [ServerEvent.granted?, if_pos hkey.symm]
            exact hd
          · cases hd
      | backpressured => cases hd
      | notConnected => cases hd
  | _ => cases hd

theorem Chronicle.server (h : Chronicle sk evs s) (htable : s.server.TableInv)
    {a : ServerAction} {e : ServerEvent} {server : Server N}
    (hstep : s.server.step a = some (e, server)) (hhonest : Honest sk s (.server a)) :
    Chronicle sk (evs ++ [.server e])
      { s with server, streams := fun i => s.streams i ++ e.wired i } := by
  constructor
  case own =>
    intro i hi hnamed
    rcases Server.named_of_step hstep hnamed with hold | ⟨key, rfl, hkey⟩
    · rw [(Server.keepsIdentity_of_step hstep htable i hold).2]
      exact h.own i hi hold
    · rw [hkey]
      exact hhonest hi
  case order =>
    obtain ⟨earlier, hread, hsub⟩ := h.order
    refine ⟨earlier, ?_, ?_⟩
    · rw [read_concat, hread]
      simp only [SessionEvent.data, readFrames_concat, SessionEvent.readOff, List.append_nil]
    · rw [served_concat, SessionEvent.served, granted_concat]
      cases hlast : s.dialed.getLast? with
      | none =>
          rw [current, hlast] at hsub ⊢
          exact hsub.trans (List.sublist_append_left _ _)
      | some i =>
          rw [current_of_last hlast] at hsub ⊢
          rw [takenData_concat, ← List.append_assoc]
          refine hsub.append ?_
          cases htaken : e.taken? i with
          | none => exact List.nil_sublist _
          | some d =>
              rw [granted_of_taken h htable hstep (List.mem_of_getLast? hlast) d htaken]

theorem Chronicle.dialed (h : Chronicle sk evs s)
    (htrace : Trace (StepsWhere ok step) (init me config maxFrames hwm lwm) evs s)
    {server : Server N} (hstep : s.server.step .streamParticipants = some (.internal, server)) :
    Chronicle sk (evs ++ [.dialed s.server.dials])
      { s with server, dialed := s.dialed ++ [s.server.dials] } := by
  have hserved := trace_served htrace
  have htable := Server.tableInv_of_trace hserved
  have hdials := Server.dials_of_trace hserved
  constructor
  case own =>
    intro i hi hnamed
    rcases Server.named_of_step hstep hnamed with hold | ⟨key, ha, -⟩
    · rw [(Server.keepsIdentity_of_step hstep htable i hold).2]
      rcases List.mem_append.mp hi with hi | hi
      · exact h.own i hi hold
      · obtain rfl := List.mem_singleton.mp hi
        cases hold.symm.trans (hdials.undialed _ le_rfl).unnamed
    · cases ha
  case order =>
    obtain ⟨earlier, hread, hsub⟩ := h.order
    have hnew : takenData s.server.dials (served evs) = [] := by
      by_contra hne
      exact absurd (Server.lt_dials_of_taken hserved _ hne) (lt_irrefl _)
    have hunread : messages (readFrames s.server.dials evs) = [] := by
      have hprefix := messages_read_isPrefix htrace s.server.dials
      rw [hnew] at hprefix
      exact List.prefix_nil.mp hprefix
    refine ⟨read evs, ?_, ?_⟩
    · rw [current_concat, read_concat, readFrames_concat]
      simp only [SessionEvent.data, SessionEvent.readOff, List.append_nil, hunread]
    · rw [current_concat, served_concat, SessionEvent.served, granted_concat, takenData_concat,
        hnew]
      simp only [ServerEvent.taken?, ServerEvent.granted?, Option.toList_none, List.append_nil]
      rw [hread]
      refine List.Sublist.trans ?_ hsub
      refine (List.Sublist.refl earlier).append ?_
      rw [current, current]
      split
      · exact List.Sublist.refl _
      · exact (messages_read_isPrefix htrace _).sublist

omit [NeZero N] in
theorem Chronicle.read (h : Chronicle sk evs s) {i : Nat} {f : OutFrame} {fs : List OutFrame}
    (hlast : s.dialed.getLast? = some i) (ms : List DataMessage) (receiver : ReliableReceiver) :
    Chronicle sk (evs ++ [.read i f ms])
      { s with streams := Function.update s.streams i fs, receiver } := by
  constructor
  case own => exact h.own
  case order =>
    obtain ⟨earlier, hread, hsub⟩ := h.order
    rw [current_of_last hlast] at hread
    refine ⟨earlier, ?_, ?_⟩
    · rw [current_of_last hlast, read_concat, readFrames_concat, hread, messages_append,
        SessionEvent.data, SessionEvent.readOff, if_pos rfl, List.append_assoc]
    · rw [served_concat, SessionEvent.served, List.append_nil]
      exact hsub

omit [NeZero N] in
theorem Chronicle.aside (h : Chronicle sk evs s) (receiver : ReliableReceiver) :
    Chronicle sk (evs ++ [.aside]) { s with receiver } := by
  constructor
  case own => exact h.own
  case order =>
    obtain ⟨earlier, hread, hsub⟩ := h.order
    refine ⟨earlier, ?_, ?_⟩
    · rw [read_concat, hread]
      simp only [SessionEvent.data, readFrames_concat, SessionEvent.readOff, List.append_nil]
    · rw [served_concat, SessionEvent.served, List.append_nil]
      exact hsub

theorem chronicle_of_trace
    (h : Trace (StepsWhere (Honest sk) step) (init me config maxFrames hwm lwm) evs s) :
    Chronicle sk evs s := by
  refine Trace.invariant (P := fun evs s => Chronicle sk evs s) ?_ ?_ h
  · constructor
    case own =>
      intro i hi
      cases hi
    case order => exact ⟨[], rfl, List.Sublist.refl _⟩
  · rintro evs s e s' hprev hs ⟨a, hhonest, hstep⟩
    cases stepped_of_step hstep with
    | server hserver =>
        exact hs.server (Server.tableInv_of_trace (trace_served hprev)) hserver hhonest
    | dialed hserver => exact hs.dialed hprev hserver
    | read hlast hstream => exact hs.read hlast _ _
    | aside hother => exact hs.aside _

theorem read_sublist
    (h : Trace (StepsWhere (Honest sk) step) (init me config maxFrames hwm lwm) evs s) :
    List.Sublist (read evs) (granted sk (served evs)) := by
  obtain ⟨earlier, hread, hsub⟩ := (chronicle_of_trace h).order
  rw [hread]
  refine List.Sublist.trans ((List.Sublist.refl earlier).append ?_) hsub
  rw [current, current]
  split
  · exact List.Sublist.refl _
  · exact (messages_read_isPrefix h _).sublist

theorem handled_of_stamped {r : ReliableReceiver} {earlier : List DataMessage} (call : Nat)
    {d : DataMessage} {topicName messageType : Bytes} (hcalm : r.Calm me.uid earlier)
    (hstamped : Stamped me topicName messageType d)
    (hnew : ∀ d' ∈ earlier, d'.key = d.key → d'.tid < d.tid) :
    ((r.handleReliableDataFrame (OutFrame.data call d).participantData).1 = [] ∨
        (r.handleReliableDataFrame (OutFrame.data call d).participantData).1 = [d]) ∧
      (r.handleReliableDataFrame (OutFrame.data call d).participantData).2.Calm me.uid
        (earlier ++ [d]) := by
  have hmore : r.Calm me.uid (earlier ++ [d]) :=
    fun key w hw => (hcalm key w hw).mono (List.subset_append_left _ _)
  rw [OutFrame.participantData, ReliableReceiver.handleReliableDataFrame]
  by_cases hnames : Readable topicName messageType
  · rw [hstamped.reliableMessage hnames]
    exact hcalm.receive hstamped.pubUid hnew
  · rw [hstamped.reliableMessage_eq_none hnames]
    exact ⟨.inl rfl, hmore⟩

/-- The receiver only ever hands over what it has just read. -/
structure InStep (me : Identity) (evs : List SessionEvent) (s : Session N) : Prop where
  calm : s.receiver.Calm me.uid (read evs)
  handed : List.Sublist (dispatched evs) (read evs)

/-- Of one topic the subscriber reads growing numbers. -/
theorem read_rising
    (h : Trace (StepsWhere (Honest sk) step) (init me config maxFrames hwm lwm) evs s)
    (hfew : ∀ key, (sents key (served evs)).length < 2 ^ 64 - 1) :
    (read evs).Pairwise DataMessage.Rising :=
  (Server.granted_rising sk (trace_served h) hfew).sublist (read_sublist h)

/-- A data frame on the wire is the publisher's own. -/
theorem stamped_of_stream
    (h : Trace (StepsWhere ok step) (init me config maxFrames hwm lwm) evs s) {i call : Nat}
    {d : DataMessage} {fs : List OutFrame} (hstream : s.streams i = .data call d :: fs) :
    ∃ topicName messageType, Stamped me topicName messageType d := by
  have hserved := trace_served h
  have hmem : d ∈ takenData i (served evs) := by
    rw [← Server.messages_wired_append hserved (readFrames_append_streams h i), hstream]
    exact List.mem_append_right _ List.mem_cons_self
  obtain ⟨e, he, htaken⟩ := List.mem_filterMap.mp hmem
  cases e with
  | pushed c sk target status =>
      cases status with
      | accepted =>
          rw [ServerEvent.taken?] at htaken
          split at htaken
          · obtain rfl := Option.some.inj htaken
            exact (Server.spread_of_trace hserved).frames c sk target _ he
          · cases htaken
      | backpressured => cases htaken
      | notConnected => cases htaken
  | _ => cases htaken

omit [NeZero N] in
theorem InStep.quiet (h : InStep me evs s) (hdata : e.data = []) (hnone : e.dispatched = [])
    (hcalm : s'.receiver.Calm me.uid (read evs)) : InStep me (evs ++ [e]) s' := by
  have hsame : read (evs ++ [e]) = read evs := by
    rw [read_concat, hdata, List.append_nil]
  constructor
  case calm =>
    rw [hsame]
    exact hcalm
  case handed =>
    rw [hsame, dispatched_concat, hnone, List.append_nil]
    exact h.handed

omit [NeZero N] in
theorem InStep.read (h : InStep me evs s) {i call : Nat} {d : DataMessage}
    {topicName messageType : Bytes} (hstamped : Stamped me topicName messageType d)
    (hread : (read evs ++ [d]).Pairwise DataMessage.Rising)
    (hevent : e = .read i (.data call d)
      (s.receiver.handleReliableDataFrame (OutFrame.data call d).participantData).1)
    (hreceiver : s'.receiver =
      (s.receiver.handleReliableDataFrame (OutFrame.data call d).participantData).2) :
    InStep me (evs ++ [e]) s' := by
  subst hevent
  have hnew : ∀ d' ∈ Session.read evs, d'.key = d.key → d'.tid < d.tid :=
    fun d' hd' => (List.pairwise_append.mp hread).2.2 d' hd' d (List.mem_singleton_self d)
  obtain ⟨hout, hcalm⟩ := handled_of_stamped call h.calm hstamped hnew
  constructor
  case calm =>
    rw [read_concat, hreceiver]
    exact hcalm
  case handed =>
    rw [read_concat, dispatched_concat]
    refine h.handed.append ?_
    rw [SessionEvent.dispatched, SessionEvent.data]
    rcases hout with hout | hout
    · rw [hout]
      exact List.nil_sublist _
    · rw [hout]
      exact List.Sublist.refl _

theorem inStep_of_trace
    (h : Trace (StepsWhere (Honest sk) step) (init me config maxFrames hwm lwm) evs s)
    (hfew : ∀ key, (sents key (served evs)).length < 2 ^ 64 - 1) : InStep me evs s := by
  induction h with
  | nil => exact ⟨ReliableReceiver.calm_new _ _, List.Sublist.refl _⟩
  | @snoc evs s e s' hprev hR ih =>
      have hread := read_rising (hprev.snoc hR) hfew
      have hfew' : ∀ key, (sents key (served evs)).length < 2 ^ 64 - 1 := by
        intro key
        have := hfew key
        rw [served_concat, sents, List.filterMap_append, List.length_append] at this
        exact Nat.lt_of_le_of_lt (Nat.le_add_right _ _) this
      have hs := ih hfew'
      obtain ⟨a, -, hstep⟩ := hR
      cases stepped_of_step hstep with
      | server hserver => exact hs.quiet rfl rfl hs.calm
      | dialed hserver => exact hs.quiet rfl rfl hs.calm
      | @read i f fs hlast hstream =>
          cases f with
          | presence p => exact hs.quiet rfl rfl hs.calm
          | data call d =>
              obtain ⟨topicName, messageType, hstamped⟩ := stamped_of_stream hprev hstream
              rw [read_concat] at hread
              exact hs.read hstamped hread rfl rfl
      | @aside event hother =>
          refine hs.quiet rfl rfl ?_
          rw [(Server.spread_of_trace (trace_served hprev)).selfParticipant] at hother
          cases event with
          | established uid => exact hs.calm.note uid
          | timedOut uid => exact hs.calm.prune uid
          | frame pd =>
              rw [ReliableReceiver.handle, ReliableReceiver.handleReliableDataFrame]
              split
              · exact hs.calm
              · rename_i d hd
                refine hs.calm.foreign fun huid => hother ?_
                rw [ReceiverEvent.publisher?, hd, Option.map_some, huid]

/-- However often a subscriber dials again, its callbacks get the messages of a topic in the
order they were sent, each at most once, and only what a stream under its key has accepted. -/
theorem redial_in_order
    (h : Trace (StepsWhere (Honest sk) step) (init me config maxFrames hwm lwm) evs s)
    (hfew : ∀ key, (sents key (served evs)).length < 2 ^ 64 - 1) :
    (dispatched evs).Pairwise DataMessage.Rising ∧
      List.Sublist (dispatched evs) (granted sk (served evs)) := by
  have hhanded := (inStep_of_trace h hfew).handed
  exact ⟨(read_rising h hfew).sublist hhanded, hhanded.trans (read_sublist h)⟩

/-- The publisher takes the dialed stream `i`, sends a payload over it and writes it out. -/
def sendTo (i : Nat) (payload : Bytes) : List ServerAction :=
  (Network.connect i ⟨4, 5, 6⟩).tail ++
    [.tryPublishReliable [116] [84] payload 0, .resume, .resume] ++ Network.flush i

/-- A subscriber gets a message, loses its stream, dials again and gets the next one. -/
def dialedTwice : List SessionAction :=
  [.server (.registry ⟨.announcement ⟨4, 5, 6⟩ [116] [84] false, Network.onWire_four⟩),
    .server (.startGrpcServer true), .dial, .aside (.established 3)] ++
    (sendTo 0 [1]).map .server ++ [.read, .dial, .aside (.established 3)] ++
    (sendTo 1 [2]).map .server ++ [.read]

theorem honest_sendTo (i : Nat) (payload : Bytes) :
    ∀ a ∈ (sendTo i payload).map SessionAction.server, ∀ s : Session 1,
      Honest ⟨4, 5, 6⟩ s a := by
  simp [sendTo, Network.connect, Network.flush, Honest]

theorem honest_dialedTwice : ∀ a ∈ dialedTwice, ∀ s : Session 1, Honest ⟨4, 5, 6⟩ s a := by
  intro a ha s
  simp only [dialedTwice, List.mem_append, List.mem_cons, List.not_mem_nil, or_false] at ha
  rcases ha with (((⟨rfl | rfl | rfl | rfl⟩ | ha) | ⟨rfl | rfl | rfl⟩) | ha) | rfl
  · trivial
  · trivial
  · trivial
  · trivial
  · exact honest_sendTo 0 [1] a ha s
  · trivial
  · trivial
  · trivial
  · exact honest_sendTo 1 [2] a ha s
  · trivial

set_option maxRecDepth 4000 in
theorem redial_in_order_dialedTwice :
    ∃ evs s, exec step (init ⟨1, 2, 3⟩ {} 4 3 1 : Session 1) dialedTwice = some (evs, s) ∧
      (dispatched evs).map (·.payload) = [[1], [2]] ∧
        (dispatched evs).Pairwise DataMessage.Rising ∧
          List.Sublist (dispatched evs) (granted ⟨4, 5, 6⟩ (served evs)) := by
  have hrun : (exec step (init ⟨1, 2, 3⟩ {} 4 3 1 : Session 1) dialedTwice).map (fun p =>
      ((dispatched p.1).map (·.payload), (served p.1).length)) = some ([[1], [2]], 30) := rfl
  obtain ⟨⟨evs, s⟩, h, hp⟩ := Option.map_eq_some_iff.mp hrun
  obtain ⟨hpayloads, hlength⟩ := Prod.mk.inj hp
  refine ⟨evs, s, h, hpayloads, redial_in_order (trace_of_exec honest_dialedTwice h) fun key => ?_⟩
  have := (length_sents_le key (served evs)).trans hlength.le
  omega

end Session

end Edriel
