import Edriel.Redial
import Edriel.WindingUp

namespace Edriel

open Proto3 Std Interleaving

/-- The call of a context has been started and not been finished. -/
def ContextPoint.onCall : ContextPoint → Bool
  | .writing => true
  | .established => true
  | .checking => true
  | .reading => true
  | .handling _ => true
  | .deadline _ => true
  | .draining _ => true
  | .finishing _ => true
  | _ => false

def ReaderPoint.onCall : ReaderPoint → Bool
  | .context _ _ p => p.onCall
  | _ => false

def ReaderPoint.isReading : ReaderPoint → Bool
  | .context _ _ .reading => true
  | _ => false

/-- The frame that the reader has read and not handed over yet. -/
def ReaderPoint.handling? : ReaderPoint → Option ParticipantData
  | .context _ _ (.handling frame) => some frame
  | _ => none

namespace ConnectionThreads

/-- All that a step of the reader can be to the frame that is being handed over. -/
inductive Hands (reply : Option ParticipantData) :
    ReaderPoint → ConnectionEvent → ReaderPoint → Prop
  | handed (ctx : Nat) (rest : List Bytes) (frame : ParticipantData) :
      Hands reply (.context ctx rest (.handling frame)) (.node (.frame frame))
        (.context ctx rest .checking)
  | got (ctx : Nat) (rest : List Bytes) (frame : ParticipantData) {e : ConnectionEvent}
      (hquiet : ∀ event, e ≠ .node event) (hreply : reply = some frame) :
      Hands reply (.context ctx rest .reading) e (.context ctx rest (.handling frame))
  | noted (ctx : Nat) (rest : List Bytes) (uid : UInt64) :
      Hands reply (.context ctx rest .established) (.node (.established uid))
        (.context ctx rest .checking)
  | walked {p p' : ReaderPoint} {e : ConnectionEvent} (hquiet : ∀ event, e ≠ .node event)
      (hfrom : p.handling? = none) (hto : p'.handling? = none) (hreading : p.isReading = true →
        reply = none) : Hands reply p e p'

variable {conn : ReliableSubscriberConnection} {stop : Bool} {reply : Option ParticipantData}
  {connected connected' : Bytes} {did : List ReaderAct} {p p' : ReaderPoint}
  {e : ConnectionEvent}

theorem not_node_of_acts {before : List ReaderAct} (h : before ++ e.acts = did)
    (hnone : ∀ event, .tells event ∉ did) (event : ReceiverEvent) : e ≠ .node event := by
  rintro rfl
  apply hnone event
  rw [← h]
  exact List.mem_append_right _ List.mem_cons_self

theorem node_of_acts {event : ReceiverEvent} (h : e.acts = [.tells event]) : e = .node event := by
  cases e with
  | node event' =>
      obtain ⟨hevent, -⟩ := List.cons.inj h
      rw [ReaderAct.tells.inj hevent]
  | wrote heartbeat =>
      obtain ⟨hevent, -⟩ := List.cons.inj h
      cases hevent
  | tryCancel ctx => cases h
  | internal => cases h

theorem Goes.hands (h : Goes conn stop reply connected p did connected' p')
    (hdid : p.acts reply ++ e.acts = did) : Hands reply p e p' := by
  cases h with
  | within ctx rest hwithin =>
      cases hwithin with
      | handed frame =>
          obtain rfl := node_of_acts hdid
          exact .handed ctx rest frame
      | got frame hreply => exact .got ctx rest frame (not_node_of_acts hdid (by simp)) hreply
      | noted =>
          obtain rfl := node_of_acts hdid
          exact .noted ctx rest _
      | broke hreply =>
          exact .walked (not_node_of_acts hdid (by simp)) rfl rfl fun _ => hreply
      | _ => exact .walked (not_node_of_acts hdid (by simp)) rfl rfl nofun
  | _ => exact .walked (not_node_of_acts hdid (by simp)) rfl rfl nofun

theorem hands_of_read {t t' : ConnectionThreads} (h : t.step (.read reply) = some (e, t')) :
    Hands reply t.reader e t'.reader :=
  (goes_of_readStep h).1.hands rfl

end ConnectionThreads

/-- A publisher, and a subscriber process with the threads of its connection.  `stream` is the
stream of the reader's call once that has reached the server, and `hand` the frame that has been
read from it and not been handed over. -/
structure Dialing (N : Nat) where
  server : Server N
  threads : ConnectionThreads
  streams : Nat → List OutFrame := fun _ => []
  receiver : ReliableReceiver := {}
  dialed : List Nat := []
  stream : Option Nat := none
  hand : Option (Nat × OutFrame) := none

/-- `thread` is a step of a thread in which it reads no frame of the publisher, and `read` one in
which the reader does. -/
inductive DialingAction where
  | server (a : ServerAction)
  | arrive
  | thread (a : ConnectionAction)
  | read
  | aside (event : ReceiverEvent)

namespace Dialing

variable {N : Nat}

def init (conn : ReliableSubscriberConnection) (me : Identity) (config : Config)
    (maxFrames hwm lwm : Nat) : Dialing N where
  server := .init (.fresh me config) maxFrames hwm lwm
  threads := { conn }

/-- What a thread's step does to the node.  A context that is gone takes its call with it. -/
def told (s : Dialing N) (e : ConnectionEvent) (threads : ConnectionThreads) :
    List SessionEvent × Dialing N :=
  match e with
  | .node (.frame frame) =>
      let handled := s.receiver.handleReliableDataFrame frame
      match s.hand with
      | some (i, f) =>
          ([.read i f handled.1], { s with threads, receiver := handled.2, hand := none })
      | none => ([.aside], { s with threads, receiver := handled.2 })
  | .node event => ([.aside], { s with threads, receiver := s.receiver.handle event })
  | _ =>
      ([], { s with
        threads
        stream := if threads.reader.ctx? = none then none else s.stream })

variable [NeZero N]

/-- What gRPC may answer a thread with, the frames of the publisher aside: where the call has not
reached the publisher it may be another one that answers. -/
def answers (s : Dialing N) : ConnectionAction → Bool
  | .read (some frame) =>
      !s.threads.reader.isReading || s.stream.isNone &&
        (ReceiverEvent.frame frame).publisher? != some s.server.node.selfParticipant.uid
  | _ => true

def step (s : Dialing N) : DialingAction → Option (List SessionEvent × Dialing N)
  | .server a =>
      (s.server.step a).map fun p =>
        ([.server p.1], { s with server := p.2, streams := fun i => s.streams i ++ p.1.wired i })
  | .arrive =>
      if s.threads.reader.onCall && s.stream.isNone then
        (s.server.step .streamParticipants).map fun p =>
          ([.dialed s.server.dials],
            { s with
              server := p.2
              dialed := s.dialed ++ [s.server.dials]
              stream := some s.server.dials })
      else none
  | .thread a =>
      if s.answers a then (s.threads.step a).map fun p => s.told p.1 p.2 else none
  | .read =>
      match s.stream with
      | none => none
      | some i =>
          match s.streams i with
          | [] => none
          | f :: fs =>
              if s.threads.reader.isReading then
                (s.threads.step (.read (some f.participantData))).map fun p =>
                  ([], { s with
                    threads := p.2
                    streams := Function.update s.streams i fs
                    hand := some (i, f) })
              else none
  | .aside event =>
      if event.publisher? = some s.server.node.selfParticipant.uid then none
      else some ([.aside], { s with receiver := s.receiver.handle event })

/-- What has been read off a stream and not been handed over. -/
def inHand (s : Dialing N) (i : Nat) : List OutFrame :=
  match s.hand with
  | some (j, f) => if j = i then [f] else []
  | none => []

/-- What a session sees: the frame in hand is still on its stream. -/
def session (s : Dialing N) : Session N where
  server := s.server
  streams := fun i => s.inHand i ++ s.streams i
  receiver := s.receiver
  dialed := s.dialed

inductive Stepped (s : Dialing N) : DialingAction → List SessionEvent → Dialing N → Prop
  | server {a : ServerAction} {e : ServerEvent} {server : Server N}
      (hstep : s.server.step a = some (e, server)) :
      Stepped s (.server a) [.server e]
        { s with server, streams := fun i => s.streams i ++ e.wired i }
  | arrived {server : Server N} (hfree : s.stream = none)
      (hstep : s.server.step .streamParticipants = some (.internal, server)) :
      Stepped s .arrive [.dialed s.server.dials]
        { s with
          server
          dialed := s.dialed ++ [s.server.dials]
          stream := some s.server.dials }
  | quiet {a : ConnectionAction} {threads : ConnectionThreads} {stream : Option Nat}
      (hsame : threads.reader.handling? = s.threads.reader.handling?)
      (hstream : stream = s.stream ∨ stream = none ∧ threads.reader.handling? = none) :
      Stepped s (.thread a) [] { s with threads, stream }
  | met {a : ConnectionAction} {threads : ConnectionThreads} {frame : ParticipantData}
      (hfrom : s.threads.reader.handling? = none)
      (hto : threads.reader.handling? = some frame)
      (hother : (ReceiverEvent.frame frame).publisher? ≠
        some s.server.node.selfParticipant.uid) :
      Stepped s (.thread a) [] { s with threads }
  | noted {a : ConnectionAction} {threads : ConnectionThreads} (uid : UInt64)
      (hfrom : s.threads.reader.handling? = none) (hto : threads.reader.handling? = none) :
      Stepped s (.thread a) [.aside]
        { s with threads, receiver := s.receiver.noteReliableStreamEstablished uid }
  | handed {a : ConnectionAction} {threads : ConnectionThreads} {frame : ParticipantData}
      {i : Nat} {f : OutFrame} (hhand : s.hand = some (i, f))
      (hfrom : s.threads.reader.handling? = some frame)
      (hto : threads.reader.handling? = none) :
      Stepped s (.thread a) [.read i f (s.receiver.handleReliableDataFrame frame).1]
        { s with
          threads
          receiver := (s.receiver.handleReliableDataFrame frame).2
          hand := none }
  | passed {a : ConnectionAction} {threads : ConnectionThreads} {frame : ParticipantData}
      (hhand : s.hand = none) (hfrom : s.threads.reader.handling? = some frame)
      (hto : threads.reader.handling? = none) :
      Stepped s (.thread a) [.aside]
        { s with threads, receiver := (s.receiver.handleReliableDataFrame frame).2 }
  | took {threads : ConnectionThreads} {i : Nat} {f : OutFrame} {fs : List OutFrame}
      (hstream : s.stream = some i) (hframes : s.streams i = f :: fs)
      (hfrom : s.threads.reader.handling? = none)
      (hto : threads.reader.handling? = some f.participantData) :
      Stepped s .read []
        { s with
          threads
          streams := Function.update s.streams i fs
          hand := some (i, f) }
  | aside {event : ReceiverEvent}
      (hother : event.publisher? ≠ some s.server.node.selfParticipant.uid) :
      Stepped s (.aside event) [.aside] { s with receiver := s.receiver.handle event }

theorem beside_of_step {t t' : ConnectionThreads} {a : ConnectionAction} {e : ConnectionEvent}
    (h : t.step a = some (e, t')) (hother : ∀ reply, a ≠ .read reply) :
    (∀ event, e ≠ .node event) ∧ t'.reader.handling? = t.reader.handling? := by
  cases a with
  | start =>
      rw [ConnectionThreads.step] at h
      split at h
      · rename_i hreader
        obtain ⟨rfl, rfl⟩ := Prod.mk.inj (Option.some.inj h)
        refine ⟨fun event hevent => ?_, ?_⟩
        · cases hevent
        · rw [hreader]
          rfl
      · cases h
  | read reply => exact absurd rfl (hother reply)
  | stop i =>
      have hstopping := ConnectionThreads.stopping_of_stopStep h
      refine ⟨?_, by rw [hstopping.reader.1]⟩
      rintro event rfl
      cases hstopping.acts

omit [NeZero N] in
theorem told_of_quiet (s : Dialing N) {e : ConnectionEvent} (threads : ConnectionThreads)
    (hquiet : ∀ event, e ≠ .node event) :
    s.told e threads = ([], { s with
      threads
      stream := if threads.reader.ctx? = none then none else s.stream }) := by
  cases e with
  | node event => exact absurd rfl (hquiet event)
  | _ => rfl

theorem ctx?_of_handling {p : ReaderPoint} {frame : ParticipantData}
    (h : p.handling? = some frame) : p.ctx? ≠ none := by
  cases p with
  | context ctx rest p => nofun
  | _ => cases h

theorem stepped_of_thread {s s' : Dialing N} {a : ConnectionAction} {evs : List SessionEvent}
    (h : s.step (.thread a) = some (evs, s')) : Stepped s (.thread a) evs s' := by
  simp only [step] at h
  split at h
  · rename_i hanswers
    obtain ⟨⟨e, threads⟩, hstep, hp⟩ := Option.map_eq_some_iff.mp h
    have hquiet : (∀ event, e ≠ .node event) →
        threads.reader.handling? = s.threads.reader.handling? → Stepped s (.thread a) evs s' := by
      intro hnone hsame
      rw [told_of_quiet s threads hnone] at hp
      obtain ⟨rfl, rfl⟩ := Prod.mk.inj hp
      refine .quiet hsame ?_
      split
      · rename_i hctx
        cases hhandling : threads.reader.handling? with
        | none => exact .inr ⟨rfl, rfl⟩
        | some frame => exact absurd hctx (ctx?_of_handling hhandling)
      · exact .inl rfl
    by_cases hread : ∃ reply, a = .read reply
    · obtain ⟨reply, rfl⟩ := hread
      have hhands := ConnectionThreads.hands_of_read hstep
      generalize hp₀ : s.threads.reader = p₀ at hhands
      generalize hp₁ : threads.reader = p₁ at hhands
      cases hhands with
      | handed ctx rest frame =>
          simp only [told] at hp
          split at hp
          · rename_i i f hhand
            obtain ⟨rfl, rfl⟩ := Prod.mk.inj hp
            exact .handed hhand (by rw [hp₀]; rfl) (by rw [hp₁]; rfl)
          · rename_i hhand
            obtain ⟨rfl, rfl⟩ := Prod.mk.inj hp
            exact .passed hhand (by rw [hp₀]; rfl) (by rw [hp₁]; rfl)
      | got ctx rest frame hnone hreply =>
          subst hreply
          rw [told_of_quiet s threads hnone, hp₁, ReaderPoint.ctx?, if_neg nofun] at hp
          obtain ⟨rfl, rfl⟩ := Prod.mk.inj hp
          rw [answers, hp₀, ReaderPoint.isReading, Bool.not_true, Bool.false_or,
            Bool.and_eq_true, bne_iff_ne] at hanswers
          exact .met (by rw [hp₀]; rfl) (by rw [hp₁]; rfl) hanswers.2
      | noted ctx rest uid =>
          obtain ⟨rfl, rfl⟩ := Prod.mk.inj hp
          exact .noted uid (by rw [hp₀]; rfl) (by rw [hp₁]; rfl)
      | walked hnone hfrom hto hreading =>
          exact hquiet hnone (by rw [hp₀, hp₁, hfrom, hto])
    · obtain ⟨hnone, hsame⟩ := beside_of_step hstep fun reply ha => hread ⟨reply, ha⟩
      exact hquiet hnone hsame
  · cases h

theorem stepped_of_step {s s' : Dialing N} {a : DialingAction} {evs : List SessionEvent}
    (h : s.step a = some (evs, s')) : Stepped s a evs s' := by
  cases a with
  | server a =>
      obtain ⟨⟨e, server⟩, hstep, hp⟩ := Option.map_eq_some_iff.mp h
      obtain ⟨rfl, rfl⟩ := Prod.mk.inj hp
      exact .server hstep
  | arrive =>
      simp only [step] at h
      split at h
      · rename_i hcall
        obtain ⟨⟨e, server⟩, hstep, hp⟩ := Option.map_eq_some_iff.mp h
        obtain ⟨rfl, rfl⟩ := Prod.mk.inj hp
        rw [Bool.and_eq_true, Option.isNone_iff_eq_none] at hcall
        refine .arrived hcall.2 ?_
        rw [hstep]
        simp only [Server.step] at hstep
        split at hstep
        · obtain ⟨rfl, -⟩ := Prod.mk.inj (Option.some.inj hstep)
          rfl
        · cases hstep
      · cases h
  | thread a => exact stepped_of_thread h
  | read =>
      simp only [step] at h
      split at h
      · cases h
      · rename_i i hstream
        split at h
        · cases h
        · rename_i f fs hframes
          split at h
          · rename_i hreading
            obtain ⟨⟨e, threads⟩, hstep, hp⟩ := Option.map_eq_some_iff.mp h
            obtain ⟨rfl, rfl⟩ := Prod.mk.inj hp
            have hhands := ConnectionThreads.hands_of_read hstep
            generalize hp₀ : s.threads.reader = p₀ at hhands hreading
            generalize hp₁ : threads.reader = p₁ at hhands
            cases hhands with
            | handed ctx rest frame => cases hreading
            | got ctx rest frame hnone hreply =>
                obtain rfl := Option.some.inj hreply
                exact .took hstream hframes (by rw [hp₀]; rfl) (by rw [hp₁]; rfl)
            | noted ctx rest uid => cases hreading
            | walked hnone hfrom hto hreply => cases hreply hreading
          · cases h
  | aside event =>
      simp only [step] at h
      split at h
      · cases h
      · obtain ⟨rfl, rfl⟩ := Prod.mk.inj (Option.some.inj h)
        exact .aside ‹_›

variable {conn : ReliableSubscriberConnection} {me : Identity} {config : Config}
  {maxFrames hwm lwm : Nat} {sk : SubscriberKey} {evs : List SessionEvent}
  {log : List (List SessionEvent)} {a : DialingAction} {s s' : Dialing N}

/-- The connection names itself `sk` on the streams that it dials. -/
def Honest (sk : SubscriberKey) (s : Dialing N) : DialingAction → Prop
  | .server a => Session.Honest sk s.session (.server a)
  | _ => True

/-- The frame in hand is what the reader hands over, and it comes off the stream that was dialed
last. -/
structure Held (me : Identity) (s : Dialing N) : Prop where
  self : s.server.node.selfParticipant = me
  last : ∀ i, s.stream = some i → s.dialed.getLast? = some i
  hand : ∀ i f, s.hand = some (i, f) →
    s.stream = some i ∧ s.threads.reader.handling? = some f.participantData
  other : ∀ frame, s.threads.reader.handling? = some frame → s.hand = none →
    (ReceiverEvent.frame frame).publisher? ≠ some me.uid

theorem self_of_step {a : ServerAction} {e : ServerEvent} {server server' : Server N}
    (h : server.step a = some (e, server')) (hself : server.node.selfParticipant = me) :
    server'.node.selfParticipant = me := by
  rcases Server.node_of_stepped (Server.stepped_of_step h) with hnode | ⟨op, hnode⟩
  · rw [hnode, hself]
  · rw [hnode, Node.selfParticipant_apply, hself]

omit [NeZero N] in
theorem Held.empty (h : Held me s) (hfrom : s.threads.reader.handling? = none) :
    s.hand = none := by
  cases hhand : s.hand with
  | none => rfl
  | some p =>
      obtain ⟨-, hhandling⟩ := h.hand p.1 p.2 hhand
      cases hfrom.symm.trans hhandling

theorem Held.stepped (h : Held me s) (hstep : Stepped s a evs s') : Held me s' := by
  cases hstep with
  | server hserver => exact ⟨self_of_step hserver h.self, h.last, h.hand, h.other⟩
  | arrived hfree hserver =>
      constructor
      case self => exact self_of_step hserver h.self
      case last =>
        rintro i ⟨⟩
        exact List.getLast?_concat
      case hand =>
        intro i f hhand
        cases hfree.symm.trans (h.hand i f hhand).1
      case other => exact h.other
  | @quiet a threads stream hsame hstream =>
      have hkept : ∀ i f, s.hand = some (i, f) → stream = s.stream := by
        intro i f hhand
        rcases hstream with hstream | ⟨-, hnone⟩
        · exact hstream
        · cases (hsame.symm.trans hnone).symm.trans (h.hand i f hhand).2
      constructor
      case self => exact h.self
      case last =>
        intro i hi
        rcases hstream with rfl | ⟨rfl, -⟩
        · exact h.last i hi
        · cases hi
      case hand =>
        intro i f hhand
        exact ⟨(hkept i f hhand).trans (h.hand i f hhand).1, hsame.trans (h.hand i f hhand).2⟩
      case other => exact fun frame hframe => h.other frame (hsame.symm.trans hframe)
  | met hfrom hto hother =>
      constructor
      case self => exact h.self
      case last => exact h.last
      case hand =>
        intro i f hhand
        cases (h.empty hfrom).symm.trans hhand
      case other =>
        intro frame hframe _
        obtain rfl := Option.some.inj (hto.symm.trans hframe)
        rw [← h.self]
        exact hother
  | noted uid hfrom hto =>
      constructor
      case self => exact h.self
      case last => exact h.last
      case hand =>
        intro i f hhand
        cases (h.empty hfrom).symm.trans hhand
      case other =>
        intro frame hframe _
        cases hto.symm.trans hframe
  | handed hhand hfrom hto =>
      constructor
      case self => exact h.self
      case last => exact h.last
      case hand => nofun
      case other =>
        intro frame hframe _
        cases hto.symm.trans hframe
  | passed hhand hfrom hto =>
      constructor
      case self => exact h.self
      case last => exact h.last
      case hand =>
        intro i f hsome
        cases hhand.symm.trans hsome
      case other =>
        intro frame hframe _
        cases hto.symm.trans hframe
  | took hstream hframes hfrom hto =>
      constructor
      case self => exact h.self
      case last => exact h.last
      case hand =>
        rintro j g ⟨⟩
        exact ⟨hstream, hto⟩
      case other =>
        intro frame _ hnone
        cases hnone
  | aside hother => exact ⟨h.self, h.last, h.hand, h.other⟩

omit [NeZero N] in
theorem held_init : Held me (init conn me config maxFrames hwm lwm : Dialing N) := by
  constructor
  case self => rfl
  case last =>
    intro i hi
    cases hi
  case hand =>
    intro i f hhand
    cases hhand
  case other =>
    intro frame hframe
    cases hframe

theorem held_of_trace {ok : Dialing N → DialingAction → Prop}
    (h : Trace (StepsWhere ok step) (init conn me config maxFrames hwm lwm) log s) : Held me s := by
  refine Trace.invariant (P := fun _ s => Held me s) held_init ?_ h
  rintro log s evs s' - hs ⟨a, -, hstep⟩
  exact hs.stepped (stepped_of_step hstep)

omit [NeZero N] in
theorem inHand_of_none (h : s.hand = none) (i : Nat) : s.inHand i = [] := by
  rw [inHand, h]

omit [NeZero N] in
theorem inHand_of_some {j : Nat} {f : OutFrame} (h : s.hand = some (j, f)) (i : Nat) :
    s.inHand i = if j = i then [f] else [] := by
  rw [inHand, h]

/-- One step of the threads and the server is a short run of the session. -/
theorem refine_step (h : Held me s) (hhonest : Honest sk s a) (hstep : Stepped s a evs s') :
    Trace (StepsWhere (Session.Honest sk) Session.step) s.session evs s'.session := by
  cases hstep with
  | @server a e server hserver =>
      refine .single ⟨.server a, hhonest, ?_⟩
      have hsession : s.session.server.step a = some (e, server) := hserver
      have hstreams : (fun i => s.session.streams i ++ e.wired i) =
          fun i => s.inHand i ++ (s.streams i ++ e.wired i) :=
        funext fun i => List.append_assoc _ _ _
      rw [Session.step, hsession, Option.map_some, hstreams]
      rfl
  | @arrived server hfree hserver =>
      refine .single ⟨.dial, trivial, ?_⟩
      have hsession : s.session.server.step .streamParticipants = some (.internal, server) :=
        hserver
      rw [Session.step, hsession]
      rfl
  | quiet hsame hstream => exact .nil
  | met hfrom hto hother => exact .nil
  | noted uid hfrom hto => exact .single ⟨.aside (.established uid), trivial, rfl⟩
  | @handed a threads frame i f hhand hfrom hto =>
      refine .single ⟨.read, trivial, ?_⟩
      obtain ⟨hstream, hhandling⟩ := h.hand i f hhand
      obtain rfl := Option.some.inj (hfrom.symm.trans hhandling)
      have hlast : s.session.dialed.getLast? = some i := h.last i hstream
      have hframes : s.session.streams i = f :: s.streams i := by
        change s.inHand i ++ s.streams i = _
        rw [inHand_of_some hhand, if_pos rfl, List.singleton_append]
      have hrest : Function.update s.session.streams i (s.streams i) = s.streams := by
        funext j
        rw [Function.update_apply]
        split
        · rw [‹j = i›]
        · rename_i hne
          change s.inHand j ++ s.streams j = _
          rw [inHand_of_some hhand, if_neg (Ne.symm hne), List.nil_append]
      simp only [Session.step, hlast, hframes, hrest]
      rfl
  | @passed a threads frame hhand hfrom hto =>
      refine .single ⟨.aside (.frame frame), trivial, ?_⟩
      have hself : s.session.server.node.selfParticipant = me := h.self
      rw [Session.step, hself, if_neg (h.other frame hfrom hhand)]
      rfl
  | @took threads i f fs hstream hframes hfrom hto =>
      have hnone := h.empty hfrom
      have hstreams : (fun j => s.inHand j ++ s.streams j) =
          fun j => (if i = j then [f] else []) ++ Function.update s.streams i fs j := by
        funext j
        rw [inHand_of_none hnone, Function.update_apply]
        by_cases hj : j = i
        · rw [if_pos hj, if_pos hj.symm, hj, hframes]
          rfl
        · rw [if_neg hj, if_neg (Ne.symm hj)]
      have hsession : ({ s with
          threads, streams := Function.update s.streams i fs, hand := some (i, f) } :
            Dialing N).session = s.session := by
        rw [session, session, hstreams]
        rfl
      rw [hsession]
      exact .nil
  | @aside event hother =>
      refine .single ⟨.aside event, trivial, ?_⟩
      exact if_neg hother

/-- Every run of the reading thread and of the threads that stop it, against the server, is a
run of a session. -/
theorem refines
    (h : Trace (StepsWhere (Honest sk) step) (init conn me config maxFrames hwm lwm) log s) :
    Trace (StepsWhere (Session.Honest sk) Session.step)
      (Session.init me config maxFrames hwm lwm) log.flatten s.session := by
  have hflat : log.flatten = log.flatMap id := by simp
  rw [hflat]
  refine Trace.project session id ?_ h
  rintro log s evs s' hprev ⟨a, hhonest, hstep⟩
  exact refine_step (held_of_trace hprev) hhonest (stepped_of_step hstep)

def Ended (t : ConnectionThreads) : Prop :=
  t.stop = true ∧ t.reader.quiet = true

theorem ended_of_step {t t' : ConnectionThreads} {a : ConnectionAction} {e : ConnectionEvent}
    (h : t.step a = some (e, t')) (hended : Ended t) : Ended t' := by
  obtain ⟨hstop, hquiet⟩ := hended
  cases a with
  | start =>
      rw [ConnectionThreads.step] at h
      split at h
      · obtain ⟨-, rfl⟩ := Prod.mk.inj (Option.some.inj h)
        exact ⟨hstop, rfl⟩
      · cases h
  | read reply =>
      obtain ⟨hgoes, hbeside⟩ := ConnectionThreads.goes_of_readStep h
      rw [hstop] at hgoes
      exact ⟨hbeside.stop.trans hstop, hgoes.quiet hquiet⟩
  | stop i =>
      obtain ⟨hreader, -, hflag⟩ := (ConnectionThreads.stopping_of_stopStep h).reader
      refine ⟨hflag.elim (fun hsame => hsame.trans hstop) id, ?_⟩
      rw [hreader]
      exact hquiet

omit [NeZero N] in
theorem told_threads (s : Dialing N) (e : ConnectionEvent) (threads : ConnectionThreads) :
    (s.told e threads).2.threads = threads := by
  cases e with
  | node event =>
      cases event with
      | frame frame =>
          simp only [told]
          split <;> rfl
      | established uid => rfl
      | timedOut uid => rfl
  | _ => rfl

theorem threads_of_step (h : s.step a = some (evs, s')) :
    s'.threads = s.threads ∨ ∃ b e, s.threads.step b = some (e, s'.threads) := by
  cases a with
  | server a =>
      obtain ⟨p, -, hp⟩ := Option.map_eq_some_iff.mp h
      obtain ⟨-, rfl⟩ := Prod.mk.inj hp
      exact .inl rfl
  | arrive =>
      simp only [step] at h
      split at h
      · obtain ⟨p, -, hp⟩ := Option.map_eq_some_iff.mp h
        obtain ⟨-, rfl⟩ := Prod.mk.inj hp
        exact .inl rfl
      · cases h
  | thread a =>
      simp only [step] at h
      split at h
      · obtain ⟨⟨e, threads⟩, hstep, hp⟩ := Option.map_eq_some_iff.mp h
        have hthreads := told_threads s e threads
        rw [hp] at hthreads
        exact .inr ⟨a, e, by rw [hthreads]; exact hstep⟩
      · cases h
  | read =>
      simp only [step] at h
      split at h
      · cases h
      · split at h
        · cases h
        · split at h
          · obtain ⟨⟨e, threads⟩, hstep, hp⟩ := Option.map_eq_some_iff.mp h
            obtain ⟨-, rfl⟩ := Prod.mk.inj hp
            exact .inr ⟨_, e, hstep⟩
          · cases h
  | aside event =>
      simp only [step] at h
      split at h
      · cases h
      · obtain ⟨-, rfl⟩ := Prod.mk.inj (Option.some.inj h)
        exact .inl rfl

theorem trace_threads {ok : Dialing N → DialingAction → Prop}
    (h : Trace (StepsWhere ok step) (init conn me config maxFrames hwm lwm) log s) :
    ∃ told, Trace (Steps ConnectionThreads.step) { conn } told s.threads := by
  refine Trace.invariant (P := fun _ s => ∃ told,
    Trace (Steps ConnectionThreads.step) { conn } told s.threads) ⟨[], .nil⟩ ?_ h
  rintro log s evs s' - ⟨told, htrace⟩ ⟨a, -, hstep⟩
  rcases threads_of_step hstep with hsame | ⟨b, e, hthreads⟩
  · rw [hsame]
    exact ⟨told, htrace⟩
  · exact ⟨_, htrace.snoc ⟨b, trivial, hthreads⟩⟩

omit [NeZero N] in
theorem handling_of_quiet {p : ReaderPoint} (h : p.quiet = true) : p.handling? = none := by
  cases p with
  | context ctx rest p => cases h
  | _ => rfl

theorem silent_of_ended {ok : Dialing N → DialingAction → Prop} (hended : Ended s.threads)
    (h : Trace (StepsWhere ok step) s log s') :
    Session.dispatched log.flatten = [] ∧ Ended s'.threads := by
  refine Trace.invariant (P := fun log s' =>
    Session.dispatched log.flatten = [] ∧ Ended s'.threads) ⟨rfl, hended⟩ ?_ h
  rintro log m evs s' - ⟨hnone, hended⟩ ⟨a, -, hstep⟩
  have hmine : Session.dispatched evs = [] := by
    cases stepped_of_step hstep with
    | handed hhand hfrom hto => cases (handling_of_quiet hended.2).symm.trans hfrom
    | _ => rfl
  refine ⟨?_, ?_⟩
  · rw [List.flatten_append, List.flatten_singleton, Session.dispatched, List.flatMap_append]
    exact List.append_eq_nil_iff.mpr ⟨hnone, hmine⟩
  · rcases threads_of_step hstep with hsame | ⟨b, e, hthreads⟩
    · rw [hsame]
      exact hended
    · exact ended_of_step hthreads hended

/-- Whatever the threads of a connection do, they run a session with the publisher: its process
gets the publisher's messages of a topic in the order they were sent, each at most once, and
only what a stream under its key has accepted.  When `stop()` has come back it gets no more. -/
theorem dialing_in_order
    (h : Trace (StepsWhere (Honest conn.selfKey) step) (init conn me config maxFrames hwm lwm)
      log s)
    (hfew : ∀ key, (sents key (Session.served log.flatten)).length < 2 ^ 64 - 1) :
    Trace (StepsWhere (Session.Honest conn.selfKey) Session.step)
        (Session.init me config maxFrames hwm lwm) log.flatten s.session ∧
      (Session.dispatched log.flatten).Pairwise DataMessage.Rising ∧
      List.Sublist (Session.dispatched log.flatten)
        (granted conn.selfKey (Session.served log.flatten)) ∧
      ∀ (i : Nat) (more : List (List SessionEvent)) (s' : Dialing N),
        s.threads.stoppers i = .returned → Trace (StepsWhere (Honest conn.selfKey) step) s more s' →
          Session.dispatched more.flatten = [] := by
  have hrun := refines h
  have hhanded := (Session.inStep_of_trace hrun hfew).handed
  refine ⟨hrun, (Session.read_rising hrun hfew).sublist hhanded,
    hhanded.trans (Session.read_sublist hrun), fun i more s' hi hmore => ?_⟩
  obtain ⟨told, hthreads⟩ := trace_threads h
  have hstop : s.threads.stop = true :=
    (ConnectionThreads.inv_of_trace hthreads).flagged i (by rw [hi]; nofun)
  have hquiet := (ConnectionThreads.joined_of_steps hthreads).returned i hi
  exact (silent_of_ended ⟨hstop, hquiet⟩ hmore).1

def opens : List DialingAction :=
  List.replicate 9 (.thread (.read (some {}))) ++
    .arrive :: List.replicate 3 (.thread (.read (some {})))

def readsThenBreaks : List DialingAction :=
  [.read] ++ List.replicate 13 (.thread (.read none))

def stops : List DialingAction :=
  List.replicate 5 (.thread (.stop 0)) ++ [.thread (.read none), .thread (.stop 0)]

/-- The process gets a message, loses its stream, dials again, gets the next one and stops. -/
def dialsTwice : List DialingAction :=
  [.server (.registry ⟨.announcement ⟨4, 5, 6⟩ [116] [84] false, Network.onWire_four⟩),
    .server (.startGrpcServer true), .thread .start] ++ opens ++
    (Session.sendTo 0 [1]).map .server ++ readsThenBreaks ++ opens ++
    (Session.sendTo 1 [2]).map .server ++ readsThenBreaks ++ stops

theorem honest_sendTo (i : Nat) (payload : Bytes) :
    ∀ a ∈ (Session.sendTo i payload).map DialingAction.server, ∀ s : Dialing 1,
      Honest ⟨4, 5, 6⟩ s a := by
  intro a ha s
  obtain ⟨b, hb, rfl⟩ := List.mem_map.mp ha
  exact Session.honest_sendTo i payload _ (List.mem_map_of_mem hb) s.session

theorem honest_dialsTwice : ∀ a ∈ dialsTwice, ∀ s : Dialing 1, Honest ⟨4, 5, 6⟩ s a := by
  have hopens : ∀ a ∈ opens, ∀ s : Dialing 1, Honest ⟨4, 5, 6⟩ s a := by
    simp [opens, Honest]
  have hreads : ∀ a ∈ readsThenBreaks, ∀ s : Dialing 1, Honest ⟨4, 5, 6⟩ s a := by
    simp [readsThenBreaks, Honest]
  simp only [dialsTwice, List.forall_mem_append]
  refine ⟨⟨⟨⟨⟨⟨⟨?_, hopens⟩, honest_sendTo 0 [1]⟩, hreads⟩, hopens⟩, honest_sendTo 1 [2]⟩,
    hreads⟩, ?_⟩
  · simp [Honest, Session.Honest]
  · simp [stops, Honest]

set_option maxRecDepth 4000 in
theorem dialing_in_order_dialsTwice :
    ∃ log s, exec step (init ⟨⟨1, 2, 3⟩, [[49]], 4, 5, 6, []⟩ ⟨1, 2, 3⟩ {} 4 3 1 : Dialing 1)
        dialsTwice = some (log, s) ∧
      (Session.dispatched log.flatten).map (·.payload) = [[1], [2]] ∧
      s.threads.stoppers 0 = .returned ∧
      Trace (StepsWhere (Session.Honest ⟨4, 5, 6⟩) Session.step)
        (Session.init ⟨1, 2, 3⟩ {} 4 3 1) log.flatten s.session ∧
      (Session.dispatched log.flatten).Pairwise DataMessage.Rising ∧
      List.Sublist (Session.dispatched log.flatten)
        (granted ⟨4, 5, 6⟩ (Session.served log.flatten)) ∧
      ∀ (i : Nat) (more : List (List SessionEvent)) (s' : Dialing 1),
        s.threads.stoppers i = .returned → Trace (StepsWhere (Honest ⟨4, 5, 6⟩) step) s more s' →
          Session.dispatched more.flatten = [] := by
  have hrun : (exec step (init ⟨⟨1, 2, 3⟩, [[49]], 4, 5, 6, []⟩ ⟨1, 2, 3⟩ {} 4 3 1 : Dialing 1)
      dialsTwice).map (fun p => ((Session.dispatched p.1.flatten).map (·.payload),
        p.2.threads.stoppers 0, (Session.served p.1.flatten).length)) =
          some ([[1], [2]], .returned, 30) := rfl
  obtain ⟨⟨log, s⟩, h, hp⟩ := Option.map_eq_some_iff.mp hrun
  obtain ⟨hpayloads, hp⟩ := Prod.mk.inj hp
  obtain ⟨hreturned, hlength⟩ := Prod.mk.inj hp
  refine ⟨log, s, h, hpayloads, hreturned,
    dialing_in_order (trace_of_exec honest_dialsTwice h) fun key => ?_⟩
  have := (length_sents_le key (Session.served log.flatten)).trans hlength.le
  omega

end Dialing

end Edriel
