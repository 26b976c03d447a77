import Edriel.Network

namespace Edriel

open Proto3 Std Interleaving ReliableReceiver

def OutFrame.message? : OutFrame → Option DataMessage
  | .presence _ => none
  | .data _ d => some d

def messages (fs : List OutFrame) : List DataMessage :=
  fs.filterMap OutFrame.message?

theorem messages_append (fs gs : List OutFrame) :
    messages (fs ++ gs) = messages fs ++ messages gs :=
  List.filterMap_append

theorem wired_eq_started (i : Nat) (e : ServerEvent) :
    e.wired i = (Rpc.started (e.view i)).flatMap Option.toList := by
  cases e with
  | pushed c sk target status =>
      rw [ServerEvent.view]
      split <;> rfl
  | registered j sk superseded =>
      rw [ServerEvent.view]
      split
      · rfl
      · split <;> rfl
  | reactor j e =>
      rw [ServerEvent.view]
      split
      · rename_i hj
        cases e with
        | startWrite frame =>
            rw [ServerEvent.wired, if_pos hj]
            exact (List.append_nil _).symm
        | _ => rfl
      · rename_i hj
        cases e with
        | startWrite frame =>
            rw [ServerEvent.wired, if_neg hj]
            rfl
        | _ => rfl
  | _ => rfl

theorem flatMap_wired (i : Nat) (evs : List ServerEvent) :
    evs.flatMap (ServerEvent.wired i) =
      (Rpc.started (evs.flatMap (ServerEvent.view i))).flatMap Option.toList := by
  induction evs with
  | nil => rfl
  | cons e evs ih =>
      rw [List.flatMap_cons, List.flatMap_cons, Rpc.started, List.filterMap_append,
        List.flatMap_append, ih, wired_eq_started]
      rfl

theorem messages_accepted {i : Nat} {evs : List ServerEvent}
    (hpresence : ∀ j f status, .reactor j (.enqueued f status) ∈ evs → f.IsPresence) :
    messages (Rpc.accepted (evs.flatMap (ServerEvent.view i))) = takenData i evs := by
  have hone : ∀ e ∈ evs, messages (Rpc.accepted (e.view i)) = (e.taken? i).toList := by
    intro e he
    cases e with
    | pushed c sk target status =>
        rw [ServerEvent.view]
        split
        · rename_i htarget
          cases status with
          | accepted =>
              rw [ServerEvent.taken?, if_pos htarget]
              rfl
          | backpressured => rfl
          | notConnected => rfl
        · rename_i htarget
          cases status with
          | accepted =>
              rw [ServerEvent.taken?, if_neg htarget]
              rfl
          | backpressured => rfl
          | notConnected => rfl
    | registered j sk superseded =>
        rw [ServerEvent.view]
        split
        · rfl
        · split <;> rfl
    | reactor j shown =>
        rw [ServerEvent.view]
        split
        · cases shown with
          | enqueued f status =>
              have hf := hpresence j f status he
              cases f with
              | presence p => cases status <;> rfl
              | data call d => exact hf.elim
          | _ => rfl
        · rfl
    | _ => rfl
  clear hpresence
  induction evs with
  | nil => rfl
  | cons e evs ih =>
      have hhead := hone e List.mem_cons_self
      have htail := ih fun e' he' => hone e' (List.mem_cons_of_mem e he')
      rw [List.flatMap_cons, Rpc.accepted, List.filterMap_append, messages_append]
      rw [Rpc.accepted] at hhead htail
      rw [hhead, htail, takenData, takenData, List.filterMap_cons]
      cases e.taken? i <;> rfl

/-- The names of a topic pass the receiver's parser. -/
def Readable (topicName messageType : Bytes) : Prop :=
  validUtf8 topicName = true ∧ validUtf8 messageType = true

def topicWindowKey (me : Identity) (topicName messageType : Bytes) : Bytes :=
  windowPrefix me.uid ++ makeCompositeKey topicName messageType

namespace Stamped

variable {me : Identity} {topicName messageType : Bytes} {d : DataMessage}

theorem size (h : Stamped me topicName messageType d) :
    (serialize d.toFields).length ≤ maxSize :=
  h.fits.trans (by decide)

theorem pubUid (h : Stamped me topicName messageType d) : d.pubUid = me.uid := by
  obtain ⟨payload, nextSeq, rfl⟩ := h.frame
  rfl

theorem windowKey (h : Stamped me topicName messageType d) :
    d.windowKey = topicWindowKey me topicName messageType := by
  obtain ⟨payload, nextSeq, rfl⟩ := h.frame
  rfl

theorem reliableData_ne_nil (h : Stamped me topicName messageType d) :
    (reliableFrame d).reliableData ≠ [] := by
  obtain ⟨payload, nextSeq, rfl⟩ := h.frame
  intro hnil
  let body := serialize
    ({ pid := me.pid.toUInt32, tid := nextSeq, uid := me.uid } : Identifier).toFields
  have hmem : (⟨1, .bytes body⟩ : Field) ∈
      (Edriel.reliableData me topicName messageType payload nextSeq).toFields := by
    simp [DataMessage.toFields, Edriel.reliableData, messageField, body]
  have hle := length_le_of_mem_serialize hmem
  have hzero : (serialize (Edriel.reliableData me topicName messageType payload
      nextSeq).toFields).length = 0 := congrArg List.length hnil
  omega

theorem reliableMessage (h : Stamped me topicName messageType d)
    (hnames : Readable topicName messageType) :
    (reliableFrame d).reliableMessage = some d := by
  rw [ParticipantData.reliableMessage, if_neg h.reliableData_ne_nil]
  refine DataMessage.parse_serialize ?_ h.size
  obtain ⟨payload, nextSeq, rfl⟩ := h.frame
  refine ⟨fun ident hident e he => ?_, hnames⟩
  obtain rfl := Option.mem_some_iff.mp hident
  cases he

theorem reliableMessage_eq_none (h : Stamped me topicName messageType d)
    (hnames : ¬ Readable topicName messageType) :
    (reliableFrame d).reliableMessage = none := by
  rw [ParticipantData.reliableMessage, if_neg h.reliableData_ne_nil]
  refine DataMessage.parse_serialize_eq_none ?_ h.size
  obtain ⟨payload, nextSeq, rfl⟩ := h.frame
  exact hnames

end Stamped

theorem reliableMessage_presence (p : Participant) :
    p.presence.reliableMessage = none :=
  rfl

namespace Network

variable {N : Nat} [NeZero N] {ok : Network N → NetworkAction → Prop} {me : Identity}
  {config : Config} {maxFrames hwm lwm : Nat} {receivers : Nat → ReliableReceiver}
  {evs : List NetworkEvent} {w : Network N}

theorem trace_served
    (h : Trace (StepsWhere ok step) (init me config maxFrames hwm lwm receivers) evs w) :
    Trace (Steps Server.step) (Server.init (.fresh me config) maxFrames hwm lwm)
      (served evs) w.server :=
  trace_server (fun _ _ _ => trivial) h

/-- gRPC neither loses nor reorders. -/
theorem readFrames_append_streams
    (h : Trace (StepsWhere ok step) (init me config maxFrames hwm lwm receivers) evs w)
    (i : Nat) :
    readFrames i evs ++ w.streams i = (served evs).flatMap (ServerEvent.wired i) := by
  refine Trace.invariant (P := fun evs w =>
    readFrames i evs ++ w.streams i = (served evs).flatMap (ServerEvent.wired i)) rfl ?_ h
  rintro evs w e w' - ih ⟨a, -, hstep⟩
  rw [readFrames_concat, served_concat, List.flatMap_append, ← ih]
  cases stepped_of_step hstep with
  | @server a e s hserver =>
      simp only [NetworkEvent.readOff, NetworkEvent.served, List.append_nil,
        List.flatMap_singleton, List.append_assoc]
  | @read j f fs hstream =>
      simp only [NetworkEvent.readOff, NetworkEvent.served, List.flatMap_nil,
        List.append_nil, Function.update_apply]
      by_cases hj : j = i
      · rw [if_pos hj, if_pos hj.symm, ← hj, hstream, List.append_assoc]
        rfl
      · rw [if_neg hj, if_neg (Ne.symm hj), List.append_nil]

/-- The accepted frames of a stream: those its client has read, those on the wire,
the one about to be written and those queued. -/
theorem readFrames_append
    (h : Trace (StepsWhere ok step) (init me config maxFrames hwm lwm receivers) evs w)
    (i : Nat) :
    readFrames i evs ++ (w.streams i ++ ((w.server.rpcs i).claimed.flatMap Option.toList ++
      (w.server.rpcs i).reactor.outbox)) =
        Rpc.accepted ((served evs).flatMap (ServerEvent.view i)) := by
  obtain ⟨-, hcarried, hhanded⟩ := Rpc.streamInv_of_trace (Server.trace_rpc (trace_served h) i)
  have hcarried : Rpc.moved ((served evs).flatMap (ServerEvent.view i)) ++
      (w.server.rpcs i).reactor.outbox =
        Rpc.accepted ((served evs).flatMap (ServerEvent.view i)) := hcarried
  have hhanded : Rpc.started ((served evs).flatMap (ServerEvent.view i)) ++
      (w.server.rpcs i).claimed =
        (Rpc.moved ((served evs).flatMap (ServerEvent.view i))).map some := hhanded
  have hmoved : Rpc.moved ((served evs).flatMap (ServerEvent.view i)) =
      (served evs).flatMap (ServerEvent.wired i) ++
        (w.server.rpcs i).claimed.flatMap Option.toList := by
    rw [flatMap_wired, ← List.flatMap_append, hhanded, List.flatMap_map]
    simp
  rw [← hcarried, hmoved, ← readFrames_append_streams h i]
  simp only [List.append_assoc]

theorem messages_readFrames_append
    (h : Trace (StepsWhere ok step) (init me config maxFrames hwm lwm receivers) evs w)
    (i : Nat) :
    messages (readFrames i evs) ++ messages (w.streams i ++
      ((w.server.rpcs i).claimed.flatMap Option.toList ++ (w.server.rpcs i).reactor.outbox)) =
        takenData i (served evs) := by
  rw [← messages_append, readFrames_append h i]
  exact messages_accepted (Server.presenceOnly_of_trace (trace_served h)).2

theorem messages_readFrames_prefix
    (h : Trace (StepsWhere ok step) (init me config maxFrames hwm lwm receivers) evs w)
    (i : Nat) : messages (readFrames i evs) <+: takenData i (served evs) :=
  ⟨_, messages_readFrames_append h i⟩

theorem messages_readFrames_of_drained
    (h : Trace (StepsWhere ok step) (init me config maxFrames hwm lwm receivers) evs w)
    {i : Nat} (hdrained : w.Drained i) :
    messages (readFrames i evs) = takenData i (served evs) := by
  rw [← messages_readFrames_append h i, hdrained.outbox, hdrained.claimed, hdrained.stream]
  exact (List.append_nil _).symm

theorem mem_takenData_of_stream
    (h : Trace (StepsWhere ok step) (init me config maxFrames hwm lwm receivers) evs w)
    {i call : Nat} {d : DataMessage} {fs : List OutFrame}
    (hstream : w.streams i = .data call d :: fs) : d ∈ takenData i (served evs) := by
  rw [← messages_readFrames_append h i, hstream]
  exact List.mem_append_right _ List.mem_cons_self

/-- The window of a client stands where the data frames it has read have moved
it, and what it has delivered is what that window dispatched of them. -/
structure Received (me : Identity) (topicName messageType : Bytes) (i : Nat)
    (evs : List NetworkEvent) (w : Network N) : Prop where
  window : (w.receivers i).windowMet me.uid (topicWindowKey me topicName messageType) =
    ReliableRxWindow.unbaselined.fed (messages (readFrames i evs))
  delivered : delivered i evs =
    (ReliableRxWindow.unbaselined.dispatched (messages (readFrames i evs))).map (·.payload)

variable {topicName messageType : Bytes} {i : Nat}

omit [NeZero N] in
theorem received_read {f : OutFrame} {fs : List OutFrame}
    (hreceived : Received me topicName messageType i evs w)
    (hframe : ∀ call d, f = .data call d → (reliableFrame d).reliableMessage = some d ∧
      Stamped me topicName messageType d) :
    Received me topicName messageType i
      (evs ++ [.read i f ((w.receivers i).handleReliableDataFrame f.participantData).1])
      { w with
        streams := Function.update w.streams i fs
        receivers := Function.update w.receivers i
          ((w.receivers i).handleReliableDataFrame f.participantData).2 } := by
  obtain ⟨hwindow, hdelivered⟩ := hreceived
  cases f with
  | presence p =>
      have hread : messages (readFrames i (evs ++ [.read i (.presence p)
          ((w.receivers i).handleReliableDataFrame p.presence).1])) =
            messages (readFrames i evs) := by
        rw [readFrames_concat, messages_append, NetworkEvent.readOff, if_pos rfl]
        exact List.append_nil _
      constructor
      case window =>
        change (Function.update w.receivers i (w.receivers i) i).windowMet _ _ = _
        rw [OutFrame.participantData, hread, Function.update_self]
        exact hwindow
      case delivered =>
        rw [OutFrame.participantData, hread, delivered_concat, hdelivered,
          NetworkEvent.payloads, if_pos rfl]
        exact List.append_nil _
  | data call d =>
      obtain ⟨hmessage, hstamped⟩ := hframe call d rfl
      have hread : messages (readFrames i (evs ++ [.read i (.data call d)
          ((w.receivers i).handleReliableDataFrame (reliableFrame d)).1])) =
            messages (readFrames i evs) ++ [d] := by
        rw [readFrames_concat, messages_append, NetworkEvent.readOff, if_pos rfl]
        rfl
      have hmet : (w.receivers i).windowMet d.pubUid d.windowKey =
          ReliableRxWindow.unbaselined.fed (messages (readFrames i evs)) := by
        rw [hstamped.pubUid, hstamped.windowKey]
        exact hwindow
      constructor
      case window =>
        change (Function.update w.receivers i
          ((w.receivers i).handleReliableDataFrame (reliableFrame d)).2 i).windowMet _ _ = _
        rw [OutFrame.participantData, hread, Function.update_self,
          handleReliableDataFrame_of_message hmessage, ReliableRxWindow.fed_concat, ← hmet,
          ← windowMet_receive_self, hstamped.pubUid, hstamped.windowKey]
      case delivered =>
        rw [OutFrame.participantData, hread, delivered_concat, hdelivered,
          NetworkEvent.payloads, if_pos rfl, handleReliableDataFrame_of_message hmessage,
          ReliableRxWindow.dispatched_concat, List.map_append, ← hmet]
        rfl

theorem mem_takenData_concat (e : NetworkEvent) {d : DataMessage}
    (hd : d ∈ takenData i (served evs)) : d ∈ takenData i (served (evs ++ [e])) := by
  rw [served_concat, takenData, List.filterMap_append]
  exact List.mem_append_left _ hd

theorem received_of_trace
    (h : Trace (StepsWhere ok step) (init me config maxFrames hwm lwm receivers) evs w)
    (hopened : (receivers i).windowMet me.uid (topicWindowKey me topicName messageType) =
      .unbaselined)
    (hnames : Readable topicName messageType)
    (hstamped : ∀ d ∈ takenData i (served evs), Stamped me topicName messageType d) :
    Received me topicName messageType i evs w := by
  refine Trace.invariant (P := fun evs w =>
    (∀ d ∈ takenData i (served evs), Stamped me topicName messageType d) →
      Received me topicName messageType i evs w) (fun _ => ⟨hopened, rfl⟩) ?_ h hstamped
  rintro evs w e w' hprev ih ⟨a, -, hstep⟩ hstamped
  have hbefore : ∀ d ∈ takenData i (served evs), Stamped me topicName messageType d :=
    fun d hd => hstamped d (mem_takenData_concat e hd)
  have hreceived := ih hbefore
  cases stepped_of_step hstep with
  | @server a e s hserver =>
      have hread : readFrames i (evs ++ [.server e]) = readFrames i evs := by
        rw [readFrames_concat]
        exact List.append_nil _
      refine ⟨?_, ?_⟩
      · rw [hread]
        exact hreceived.window
      · rw [hread, delivered_concat]
        exact (List.append_nil _).trans hreceived.delivered
  | @read j f fs hstream =>
      by_cases hj : j = i
      · subst hj
        refine received_read hreceived ?_
        rintro call d rfl
        have hd := hbefore d (mem_takenData_of_stream hprev hstream)
        exact ⟨hd.reliableMessage hnames, hd⟩
      · have hread : ∀ msgs, readFrames i (evs ++ [.read j f msgs]) = readFrames i evs := by
          intro msgs
          rw [readFrames_concat, NetworkEvent.readOff, if_neg hj, List.append_nil]
        refine ⟨?_, ?_⟩
        · change (Function.update w.receivers j _ i).windowMet _ _ = _
          rw [hread, Function.update_of_ne (Ne.symm hj)]
          exact hreceived.window
        · rw [hread, delivered_concat, NetworkEvent.payloads, if_neg hj, List.append_nil]
          exact hreceived.delivered

/-- A topic whose names are no UTF-8 is dropped by every receiver. -/
theorem delivered_eq_nil_of_not_readable
    (h : Trace (StepsWhere ok step) (init me config maxFrames hwm lwm receivers) evs w)
    (hnames : ¬ Readable topicName messageType)
    (hstamped : ∀ d ∈ takenData i (served evs), Stamped me topicName messageType d) :
    delivered i evs = [] := by
  refine Trace.invariant (P := fun evs w =>
    (∀ d ∈ takenData i (served evs), Stamped me topicName messageType d) →
      delivered i evs = []) (fun _ => rfl) ?_ h hstamped
  rintro evs w e w' hprev ih ⟨a, -, hstep⟩ hstamped
  have hbefore : ∀ d ∈ takenData i (served evs), Stamped me topicName messageType d :=
    fun d hd => hstamped d (mem_takenData_concat e hd)
  rw [delivered_concat, ih hbefore, List.nil_append]
  cases stepped_of_step hstep with
  | server hserver => rfl
  | @read j f fs hstream =>
      rw [NetworkEvent.payloads]
      split
      · rename_i hj
        subst hj
        have hdropped : f.participantData.reliableMessage = none := by
          cases f with
          | presence p => exact reliableMessage_presence p
          | data call d =>
              exact (hbefore d (mem_takenData_of_stream hprev hstream)).reliableMessage_eq_none
                hnames
        rw [handleReliableDataFrame, hdropped]
        rfl
      · rfl

/-- Once the stream has drained, a subscriber has delivered exactly what it has
accepted if and only if the topic can be read and every gap between two accepted
frames is none or a whole window wide. -/
theorem delivered_eq_accepted_iff {earlier : Nat → ReliableReceiver}
    (h : Trace (Steps step) (init me config maxFrames hwm lwm
      fun i => (earlier i).noteReliableStreamEstablished me.uid) evs w)
    (htopic : OnTopic topicName messageType (served evs))
    (hfew : (sents (makeCompositeKey topicName messageType) (served evs)).length + 2 < 2 ^ 64)
    (hdrained : w.Drained i) :
    delivered i evs = acceptedPayloads i evs ↔
      acceptedPayloads i evs = [] ∨ Readable topicName messageType ∧
        ∀ g ∈ (ledger i (served evs)).gaps, g = 0 ∨ kReliableWindowSize ≤ g := by
  have hledger := Server.streamLedger_of_trace (i := i) (trace_served h) htopic (by omega)
  have hread := messages_readFrames_of_drained h hdrained
  have hlt : ∀ d ∈ takenData i (served evs), d.tid < 2 ^ 64 - 1 := by
    intro d hd
    have := hledger.balanced.tid_le d hd
    omega
  have hdispatched := ReliableRxWindow.length_dispatched_iff hlt hledger.balanced.grow
  rw [acceptedPayloads, List.map_eq_nil_iff, ← hledger.balanced.near]
  by_cases hnames : Readable topicName messageType
  · have hdelivered := (received_of_trace h (windowMet_note_self _ _ _) hnames
      hledger.frames).delivered
    rw [hdelivered, hread]
    constructor
    · intro heq
      refine .inr ⟨hnames, hdispatched.mp ?_⟩
      simpa using congrArg List.length heq
    · rintro (hnone | ⟨-, hnear⟩)
      · rw [hnone]
        rfl
      · rw [(ReliableRxWindow.fed_of_near hlt hnear).1]
  · rw [delivered_eq_nil_of_not_readable h hnames hledger.frames]
    constructor
    · intro heq
      exact .inl (List.map_eq_nil_iff.mp heq.symm)
    · rintro (hnone | ⟨hreadable, -⟩)
      · rw [hnone]
        rfl
      · exact absurd hreadable hnames

def connect (i : Nat) (sk : SubscriberKey) : List ServerAction :=
  [.streamParticipants, .reactor i (.onReadDone (some sk)), .reactor i (.run 0 true []),
    .reactor i (.run 0 true []), .reactor i (.run 0 true []), .reactor i (.run 0 true [])]

def sendToTwo (payload : Bytes) : List ServerAction :=
  [.tryPublishReliable [116] [84] payload 0, .resume, .resume, .resume]

def flush (i : Nat) : List ServerAction :=
  [.reactor i (.run 0 true []), .reactor i (.run 0 true []), .reactor i (.onWriteDone true),
    .reactor i (.run 0 true []), .reactor i (.run 0 true [])]

theorem onWire_four : (4 : UInt64).toNat < 2 ^ 32 := by
  decide

theorem onWire_seven : (7 : UInt64).toNat < 2 ^ 32 := by
  decide

def connectTwo : List ServerAction :=
  [.registry ⟨.announcement ⟨4, 5, 6⟩ [116] [84] false, onWire_four⟩,
    .registry ⟨.announcement ⟨7, 8, 9⟩ [116] [84] false, onWire_seven⟩,
    .startGrpcServer true] ++ connect 0 ⟨4, 5, 6⟩ ++ connect 1 ⟨7, 8, 9⟩

/-- Subscriber 1 refuses the second message, its first one being still queued, and
accepts the third. -/
def refusedOnce : List NetworkAction :=
  (connectTwo ++ sendToTwo [1] ++ flush 0 ++ sendToTwo [2] ++ flush 0 ++ flush 1 ++
    sendToTwo [3] ++ flush 0 ++ flush 1).map .server ++
    [.read 0, .read 0, .read 0, .read 1, .read 1]

def twoClients : Network 1 :=
  init ⟨1, 2, 3⟩ {} 2 1 0 fun _ => ({} : ReliableReceiver).noteReliableStreamEstablished 3

set_option maxRecDepth 4000 in
/-- The third message never comes out of the window of the client that missed the
second one. -/
theorem delivered_refused_once_fails :
    ∃ evs w, exec step twoClients refusedOnce = some (evs, w) ∧ w.server.dials = 2 ∧
      w.Drained 0 ∧ w.Drained 1 ∧ delivered 0 evs = [[1], [2], [3]] ∧
      acceptedPayloads 1 evs = [[1], [3]] ∧ delivered 1 evs = [[1]] := by
  have hrun : (exec step twoClients refusedOnce).map (fun p => (p.2.server.dials,
      (p.2.server.rpcs 0).reactor.outbox, (p.2.server.rpcs 0).claimed, p.2.streams 0,
      (p.2.server.rpcs 1).reactor.outbox, (p.2.server.rpcs 1).claimed, p.2.streams 1,
      delivered 0 p.1, acceptedPayloads 1 p.1, delivered 1 p.1)) =
        some (2, [], [], [], [], [], [], [[1], [2], [3]], [[1], [3]], [[1]]) := rfl
  obtain ⟨⟨evs, w⟩, h, hp⟩ := Option.map_eq_some_iff.mp hrun
  simp only [Prod.mk.injEq] at hp
  obtain ⟨hdials, ho₀, hc₀, hs₀, ho₁, hc₁, hs₁, hd₀, ha₁, hd₁⟩ := hp
  exact ⟨evs, w, h, hdials, ⟨ho₀, hc₀, hs₀⟩, ⟨ho₁, hc₁, hs₁⟩, hd₀, ha₁, hd₁⟩

set_option maxRecDepth 4000 in
theorem delivered_eq_accepted_iff_refused_once :
    ∃ evs w, exec step twoClients refusedOnce = some (evs, w) ∧
      (delivered 1 evs = acceptedPayloads 1 evs ↔
        acceptedPayloads 1 evs = [] ∨ Readable [116] [84] ∧
          ∀ g ∈ (ledger 1 (served evs)).gaps, g = 0 ∨ kReliableWindowSize ≤ g) := by
  have hrun : (exec step twoClients refusedOnce).map (fun p =>
      (decide (OnTopic [116] [84] (served p.1)), (served p.1).length,
        (p.2.server.rpcs 1).reactor.outbox, (p.2.server.rpcs 1).claimed, p.2.streams 1)) =
          some (true, 52, [], [], []) := rfl
  obtain ⟨⟨evs, w⟩, h, hp⟩ := Option.map_eq_some_iff.mp hrun
  simp only [Prod.mk.injEq] at hp
  obtain ⟨htopic, hlength, houtbox, hclaimed, hstream⟩ := hp
  have hfew : (sents (makeCompositeKey [116] [84]) (served evs)).length + 2 < 2 ^ 64 := by
    have := (length_sents_le (makeCompositeKey [116] [84]) (served evs)).trans hlength.le
    omega
  exact ⟨evs, w, h, delivered_eq_accepted_iff (trace_of_exec (fun _ _ _ => trivial) h)
    (of_decide_eq_true htopic) hfew ⟨houtbox, hclaimed, hstream⟩⟩

end Network

end Edriel
