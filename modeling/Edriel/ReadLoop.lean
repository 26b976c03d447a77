import Edriel.Cancellation

namespace Edriel

open Proto3 Interleaving

/-- What the reader does to the world: it waits for an endpoint to connect, opens a stream there,
writes its heartbeat, hands the node what happens on the stream, and finishes it. -/
inductive ReaderAct where
  | dials (target : Bytes) (reached : Bool)
  | opens
  | greets (heartbeat : SubscriberKey)
  | tells (e : ReceiverEvent)
  | finishes

def ConnectionEvent.acts : ConnectionEvent → List ReaderAct
  | .wrote heartbeat => [.greets heartbeat]
  | .node e => [.tells e]
  | .tryCancel _ => []
  | .internal => []

/-- The calls of gRPC that show in no event. -/
def ContextPoint.acts : ContextPoint → List ReaderAct
  | .opening => [.opens]
  | .finishing _ => [.finishes]
  | _ => []

def ReaderPoint.acts (reply : Option ParticipantData) : ReaderPoint → List ReaderAct
  | .connecting target _ => [.dials target reply.isSome]
  | .context _ _ p => p.acts
  | _ => []

/-- The key that a connection says its heartbeat with. -/
def ReliableSubscriberConnection.selfKey (conn : ReliableSubscriberConnection) : SubscriberKey where
  pid := conn.selfPid
  tid := conn.selfTid
  uid := conn.selfUid

namespace ConnectionThreads

def acts (s : ConnectionThreads) : ConnectionAction → List ReaderAct
  | .read reply => s.reader.acts reply
  | _ => []

/-- A step, seen by what the reader does. -/
def observed (s : ConnectionThreads) (a : ConnectionAction) :
    Option (List ReaderAct × ConnectionThreads) :=
  (s.step a).map fun p => (s.acts a ++ p.1.acts, p.2)

inductive Within (conn : ReliableSubscriberConnection) (stop : Bool)
    (reply : Option ParticipantData) :
    ContextPoint → List ReaderAct → ContextPoint → Prop
  | lock : Within conn stop reply .unpublished [] .locked
  | refuse (hstop : stop = true) : Within conn stop reply .locked [] .refusing
  | pass (hstop : stop = false) : Within conn stop reply .locked [] .passed
  | refused : Within conn stop reply .refusing [] (.ended .refused)
  | publish : Within conn stop reply .passed [] .published
  | unlock : Within conn stop reply .published [] .opening
  | opens : Within conn stop reply .opening [.opens] .writing
  | unwritten : Within conn stop reply .writing [] (.leaving .writeFailed)
  | wrote : Within conn stop reply .writing [.greets conn.selfKey] .established
  | noted : Within conn stop reply .established [.tells (.established conn.publisher.uid)] .checking
  | stopped (hstop : stop = true) : Within conn stop reply .checking [] (.deadline false)
  | await (hstop : stop = false) : Within conn stop reply .checking [] .reading
  | broke (hreply : reply = none) : Within conn stop reply .reading [] (.deadline true)
  | got (frame : ParticipantData) (hreply : reply = some frame) :
      Within conn stop reply .reading [] (.handling frame)
  | handed (frame : ParticipantData) :
      Within conn stop reply (.handling frame) [.tells (.frame frame)] .checking
  | limited (broken : Bool) : Within conn stop reply (.deadline broken) [] (.draining broken)
  | drains (broken : Bool) (hreply : reply ≠ none) :
      Within conn stop reply (.draining broken) [] (.draining broken)
  | drained (broken : Bool) : Within conn stop reply (.draining broken) [] (.finishing broken)
  | finished (broken : Bool) :
      Within conn stop reply (.finishing broken) [.finishes] (.leaving (.drained broken))
  | relock (ending : Ending) : Within conn stop reply (.leaving ending) [] (.clearing ending)
  | cleared (ending : Ending) : Within conn stop reply (.clearing ending) [] (.cleared ending)
  | left (ending : Ending) : Within conn stop reply (.cleared ending) [] (.ended ending)

/-- How the reader goes on.  `connected` is what `currentEndpoint()` answers before the step,
and it stands before the next point with what it answers then. -/
inductive Goes (conn : ReliableSubscriberConnection) (stop : Bool)
    (reply : Option ParticipantData) (connected : Bytes) :
    ReaderPoint → List ReaderAct → Bytes → ReaderPoint → Prop
  | scan (hstop : stop = false) :
      Goes conn stop reply connected .outer [] connected (.candidate conn.candidates)
  | exit (hstop : stop = true) : Goes conn stop reply connected .outer [] connected .exited
  | scanned : Goes conn stop reply connected (.candidate []) [] connected .backoff
  | abandon (target : Bytes) (rest : List Bytes) (hstop : stop = true) :
      Goes conn stop reply connected (.candidate (target :: rest)) [] connected .backoff
  | dial (target : Bytes) (rest : List Bytes) (hstop : stop = false) :
      Goes conn stop reply connected (.candidate (target :: rest)) [] connected
        (.connecting target rest)
  | unreachable (target : Bytes) (rest : List Bytes) :
      Goes conn stop reply connected (.connecting target rest) [.dials target false] connected
        (.candidate rest)
  | reached (target : Bytes) (rest : List Bytes) :
      Goes conn stop reply connected (.connecting target rest) [.dials target true] target
        (.redial rest)
  | quit (rest : List Bytes) (hstop : stop = true) :
      Goes conn stop reply connected (.redial rest) [] connected (.advance rest)
  | create (ctx : Nat) (rest : List Bytes) (hstop : stop = false) :
      Goes conn stop reply connected (.redial rest) [] connected (.context ctx rest .unpublished)
  | within (ctx : Nat) (rest : List Bytes) {p p' : ContextPoint} {did : List ReaderAct}
      (h : Within conn stop reply p did p') :
      Goes conn stop reply connected (.context ctx rest p) did connected (.context ctx rest p')
  | refused (ctx : Nat) (rest : List Bytes) :
      Goes conn stop reply connected (.context ctx rest (.ended .refused)) [] connected
        (.advance rest)
  | unwritten (ctx : Nat) (rest : List Bytes) :
      Goes conn stop reply connected (.context ctx rest (.ended .writeFailed)) [] connected
        (.advance rest)
  | broke (ctx : Nat) (rest : List Bytes) (hstop : stop = false) :
      Goes conn stop reply connected (.context ctx rest (.ended (.drained true))) [] connected
        (.advance rest)
  | again (ctx : Nat) (rest : List Bytes) {broken : Bool} (h : broken = true → stop = true) :
      Goes conn stop reply connected (.context ctx rest (.ended (.drained broken))) [] connected
        (.redial rest)
  | advance (rest : List Bytes) (hstop : stop = false) :
      Goes conn stop reply connected (.advance rest) [] [] (.candidate rest)
  | leave (rest : List Bytes) (hstop : stop = true) :
      Goes conn stop reply connected (.advance rest) [] [] .backoff
  | rested : Goes conn stop reply connected .backoff [] connected .outer

/-- What a step of the reader leaves to the threads that stop it. -/
structure Beside (s s' : ConnectionThreads) : Prop where
  conn : s'.conn = { s.conn with connected := s'.conn.connected }
  stop : s'.stop = s.stop
  stoppers : s'.stoppers = s.stoppers
  joinable : s'.joinable = s.joinable

/-- All that a call of `stop()` can do in a step. -/
inductive Stopping (s : ConnectionThreads) (i : Nat) : ConnectionEvent → ConnectionThreads → Prop
  | flag (h : s.stoppers i = .idle) :
      Stopping s i .internal { s with stop := true, stoppers := s.moveStopper i .flagged }
  | lock (h : s.stoppers i = .flagged) :
      Stopping s i .internal
        { s with ctxMutex := some (.stopper i), stoppers := s.moveStopper i .locked }
  | spare (h : s.stoppers i = .locked) :
      Stopping s i .internal { s with stoppers := s.moveStopper i .cancelled }
  | cancel (ctx : Nat) (h : s.stoppers i = .locked) :
      Stopping s i (.tryCancel ctx)
        { s with cancelled := insert ctx s.cancelled, stoppers := s.moveStopper i .cancelled }
  | release (h : s.stoppers i = .cancelled) :
      Stopping s i .internal { s with ctxMutex := none, stoppers := s.moveStopper i .released }
  | join (h : s.stoppers i = .released) (hjoinable : s.joinable = true) :
      Stopping s i .internal { s with stoppers := s.moveStopper i .joining }
  | pass (h : s.stoppers i = .released) (hjoinable : s.joinable = false) :
      Stopping s i .internal { s with stoppers := s.moveStopper i .returned }
  | joined (h : s.stoppers i = .joining) (hreader : s.reader = .exited) :
      Stopping s i .internal { s with joinable := false, stoppers := s.moveStopper i .returned }

/-- All that a step can be to the reader. -/
inductive Observed (s : ConnectionThreads) :
    ConnectionAction → List ReaderAct → ConnectionThreads → Prop
  | start (h : s.reader = .unstarted) :
      Observed s .start [] { s with joinable := true, reader := .outer }
  | read {reply : Option ParticipantData} {did : List ReaderAct} {s' : ConnectionThreads}
      (hgoes : Goes s.conn s.stop reply s.conn.connected s.reader did s'.conn.connected s'.reader)
      (hbeside : Beside s s') :
      Observed s (.read reply) did s'
  | stop (i : Nat) {e : ConnectionEvent} {s' : ConnectionThreads}
      (h : Stopping s i e s') : Observed s (.stop i) [] s'

variable {s s' : ConnectionThreads} {e : ConnectionEvent}

theorem Beside.of_reader (s : ConnectionThreads) (p : ReaderPoint) :
    Beside s { s with reader := p } :=
  ⟨rfl, rfl, rfl, rfl⟩

theorem goes_of_goto {reply : Option ParticipantData} {p : ReaderPoint} {did : List ReaderAct}
    (h : s.goto p = some (e, s'))
    (hgoes : Goes s.conn s.stop reply s.conn.connected s.reader did s.conn.connected p) :
    Goes s.conn s.stop reply s.conn.connected s.reader (did ++ e.acts) s'.conn.connected s'.reader ∧
      Beside s s' := by
  obtain ⟨rfl, rfl⟩ := Prod.mk.inj (Option.some.inj h)
  refine ⟨?_, .of_reader s p⟩
  rw [ConnectionEvent.acts, List.append_nil]
  exact hgoes

theorem goes_of_contextStep {reply : Option ParticipantData} {ctx : Nat} {rest : List Bytes}
    {p : ContextPoint} (hreader : s.reader = .context ctx rest p)
    (h : s.contextStep reply ctx rest p = some (e, s')) :
    Goes s.conn s.stop reply s.conn.connected s.reader (p.acts ++ e.acts) s'.conn.connected
      s'.reader ∧ Beside s s' := by
  obtain ⟨conn, stop, activeCtx, ctxMutex, joinable, reader, stoppers, made, cancelled,
    destroyed⟩ := s
  obtain rfl : reader = .context ctx rest p := hreader
  cases p with
  | unpublished =>
      simp only [contextStep] at h
      split at h
      · obtain ⟨rfl, rfl⟩ := Prod.mk.inj (Option.some.inj h)
        exact ⟨.within ctx rest .lock, rfl, rfl, rfl, rfl⟩
      · cases h
  | locked =>
      cases stop with
      | true => exact goes_of_goto h (.within ctx rest (.refuse rfl))
      | false => exact goes_of_goto h (.within ctx rest (.pass rfl))
  | refusing =>
      obtain ⟨rfl, rfl⟩ := Prod.mk.inj (Option.some.inj h)
      exact ⟨.within ctx rest .refused, rfl, rfl, rfl, rfl⟩
  | passed =>
      obtain ⟨rfl, rfl⟩ := Prod.mk.inj (Option.some.inj h)
      exact ⟨.within ctx rest .publish, rfl, rfl, rfl, rfl⟩
  | published =>
      obtain ⟨rfl, rfl⟩ := Prod.mk.inj (Option.some.inj h)
      exact ⟨.within ctx rest .unlock, rfl, rfl, rfl, rfl⟩
  | opening => exact goes_of_goto h (.within ctx rest .opens)
  | writing =>
      cases reply with
      | none => exact goes_of_goto h (.within ctx rest .unwritten)
      | some _ =>
          obtain ⟨rfl, rfl⟩ := Prod.mk.inj (Option.some.inj h)
          exact ⟨.within ctx rest .wrote, rfl, rfl, rfl, rfl⟩
  | established =>
      obtain ⟨rfl, rfl⟩ := Prod.mk.inj (Option.some.inj h)
      exact ⟨.within ctx rest .noted, rfl, rfl, rfl, rfl⟩
  | checking =>
      cases stop with
      | true => exact goes_of_goto h (.within ctx rest (.stopped rfl))
      | false => exact goes_of_goto h (.within ctx rest (.await rfl))
  | reading =>
      cases reply with
      | none => exact goes_of_goto h (.within ctx rest (.broke rfl))
      | some frame => exact goes_of_goto h (.within ctx rest (.got frame rfl))
  | handling frame =>
      obtain ⟨rfl, rfl⟩ := Prod.mk.inj (Option.some.inj h)
      exact ⟨.within ctx rest (.handed frame), rfl, rfl, rfl, rfl⟩
  | deadline broken => exact goes_of_goto h (.within ctx rest (.limited broken))
  | draining broken =>
      cases reply with
      | none => exact goes_of_goto h (.within ctx rest (.drained broken))
      | some _ => exact goes_of_goto h (.within ctx rest (.drains broken (Option.some_ne_none _)))
  | finishing broken => exact goes_of_goto h (.within ctx rest (.finished broken))
  | leaving ending =>
      simp only [contextStep] at h
      split at h
      · obtain ⟨rfl, rfl⟩ := Prod.mk.inj (Option.some.inj h)
        exact ⟨.within ctx rest (.relock ending), rfl, rfl, rfl, rfl⟩
      · cases h
  | clearing ending =>
      obtain ⟨rfl, rfl⟩ := Prod.mk.inj (Option.some.inj h)
      exact ⟨.within ctx rest (.cleared ending), rfl, rfl, rfl, rfl⟩
  | cleared ending =>
      obtain ⟨rfl, rfl⟩ := Prod.mk.inj (Option.some.inj h)
      exact ⟨.within ctx rest (.left ending), rfl, rfl, rfl, rfl⟩
  | ended ending =>
      obtain ⟨rfl, rfl⟩ := Prod.mk.inj (Option.some.inj h)
      refine ⟨?_, rfl, rfl, rfl, rfl⟩
      cases ending with
      | refused => exact .refused ctx rest
      | writeFailed => exact .unwritten ctx rest
      | drained broken =>
          cases stop with
          | true => exact .again ctx rest fun _ => rfl
          | false =>
              cases broken with
              | true => exact .broke ctx rest rfl
              | false => exact .again ctx rest fun h => absurd h Bool.false_ne_true

theorem goes_of_readStep {reply : Option ParticipantData}
    (h : s.readStep reply = some (e, s')) :
    Goes s.conn s.stop reply s.conn.connected s.reader (s.reader.acts reply ++ e.acts)
      s'.conn.connected s'.reader ∧ Beside s s' := by
  obtain ⟨conn, stop, activeCtx, ctxMutex, joinable, reader, stoppers, made, cancelled,
    destroyed⟩ := s
  cases reader with
  | unstarted => cases h
  | outer =>
      cases stop with
      | true => exact goes_of_goto h (.exit rfl)
      | false => exact goes_of_goto h (.scan rfl)
  | candidate rest =>
      cases rest with
      | nil => exact goes_of_goto h .scanned
      | cons target rest =>
          cases stop with
          | true => exact goes_of_goto h (.abandon target rest rfl)
          | false => exact goes_of_goto h (.dial target rest rfl)
  | connecting target rest =>
      cases reply with
      | none => exact goes_of_goto h (.unreachable target rest)
      | some _ =>
          obtain ⟨rfl, rfl⟩ := Prod.mk.inj (Option.some.inj h)
          exact ⟨.reached target rest, rfl, rfl, rfl, rfl⟩
  | redial rest =>
      cases stop with
      | true => exact goes_of_goto h (.quit rest rfl)
      | false =>
          obtain ⟨rfl, rfl⟩ := Prod.mk.inj (Option.some.inj h)
          exact ⟨.create _ rest rfl, rfl, rfl, rfl, rfl⟩
  | context ctx rest p => exact goes_of_contextStep rfl h
  | advance rest =>
      obtain ⟨rfl, rfl⟩ := Prod.mk.inj (Option.some.inj h)
      cases stop with
      | true => exact ⟨.leave rest rfl, rfl, rfl, rfl, rfl⟩
      | false => exact ⟨.advance rest rfl, rfl, rfl, rfl, rfl⟩
  | backoff => exact goes_of_goto h .rested
  | exited => cases h

theorem stopping_of_stopStep {i : Nat} (h : s.stopStep i = some (e, s')) : Stopping s i e s' := by
  rw [stopStep] at h
  split at h
  · obtain ⟨rfl, rfl⟩ := Prod.mk.inj (Option.some.inj h)
    exact .flag ‹_›
  · split at h
    · obtain ⟨rfl, rfl⟩ := Prod.mk.inj (Option.some.inj h)
      exact .lock ‹_›
    · cases h
  · split at h
    · obtain ⟨rfl, rfl⟩ := Prod.mk.inj (Option.some.inj h)
      exact .spare ‹_›
    · obtain ⟨rfl, rfl⟩ := Prod.mk.inj (Option.some.inj h)
      exact .cancel _ ‹_›
  · obtain ⟨rfl, rfl⟩ := Prod.mk.inj (Option.some.inj h)
    exact .release ‹_›
  · obtain ⟨rfl, rfl⟩ := Prod.mk.inj (Option.some.inj h)
    by_cases hjoinable : s.joinable = true
    · rw [if_pos hjoinable]
      exact .join ‹_› hjoinable
    · rw [if_neg hjoinable]
      exact .pass ‹_› (Bool.eq_false_iff.mpr hjoinable)
  · split at h
    · obtain ⟨rfl, rfl⟩ := Prod.mk.inj (Option.some.inj h)
      exact .joined ‹_› ‹_›
    · cases h
  · cases h

theorem Stopping.acts {i : Nat} (h : Stopping s i e s') : e.acts = [] := by
  cases h <;> rfl

theorem observed_of_step {a : ConnectionAction} {did : List ReaderAct}
    (h : s.observed a = some (did, s')) : Observed s a did s' := by
  obtain ⟨⟨e, s'⟩, hstep, hp⟩ := Option.map_eq_some_iff.mp h
  obtain ⟨rfl, rfl⟩ := Prod.mk.inj hp
  cases a with
  | start =>
      rw [step] at hstep
      split at hstep
      · obtain ⟨rfl, rfl⟩ := Prod.mk.inj (Option.some.inj hstep)
        exact .start ‹_›
      · cases hstep
  | read reply =>
      obtain ⟨hgoes, hbeside⟩ := goes_of_readStep hstep
      exact .read hgoes hbeside
  | stop i =>
      have hstopping := stopping_of_stopStep hstep
      rw [hstopping.acts]
      exact .stop i hstopping

theorem Within.of_connected {conn : ReliableSubscriberConnection} {c : Bytes} {stop : Bool}
    {reply : Option ParticipantData} {p p' : ContextPoint} {did : List ReaderAct}
    (h : Within { conn with connected := c } stop reply p did p') :
    Within conn stop reply p did p' := by
  cases h <;> constructor <;> assumption

theorem Goes.of_connected {conn : ReliableSubscriberConnection} {c connected connected' : Bytes}
    {stop : Bool} {reply : Option ParticipantData} {p p' : ReaderPoint} {did : List ReaderAct}
    (h : Goes { conn with connected := c } stop reply connected p did connected' p') :
    Goes conn stop reply connected p did connected' p' := by
  cases h with
  | within ctx rest hwithin => exact .within ctx rest hwithin.of_connected
  | _ => constructor <;> assumption

end ConnectionThreads

/-- How the visit of an endpoint ends: nobody answers, `stop()` comes first, the heartbeat is not
written, or frames are read until the stream is finished. -/
inductive Outcome where
  | unreachable
  | unopened
  | unwritten
  | served (frames : List ParticipantData)

structure Visit where
  target : Bytes
  outcome : Outcome

/-- What the reader does on a stream up to its finish. -/
def serving (conn : ReliableSubscriberConnection) (target : Bytes)
    (frames : List ParticipantData) : List ReaderAct :=
  [.dials target true, .opens, .greets conn.selfKey, .tells (.established conn.publisher.uid)] ++
    frames.map fun frame => .tells (.frame frame)

def Visit.acts (conn : ReliableSubscriberConnection) (v : Visit) : List ReaderAct :=
  match v.outcome with
  | .unreachable => [.dials v.target false]
  | .unopened => [.dials v.target true]
  | .unwritten => [.dials v.target true, .opens]
  | .served frames => serving conn v.target frames ++ [.finishes]

def Ending.outcome (frames : List ParticipantData) : Ending → Outcome
  | .refused => .unopened
  | .writeFailed => .unwritten
  | .drained _ => .served frames

namespace ContextPoint

def sofar (conn : ReliableSubscriberConnection) (target : Bytes)
    (frames : List ParticipantData) : ContextPoint → List ReaderAct
  | .unpublished => [.dials target true]
  | .locked => [.dials target true]
  | .refusing => [.dials target true]
  | .passed => [.dials target true]
  | .published => [.dials target true]
  | .opening => [.dials target true]
  | .writing => [.dials target true, .opens]
  | .established => [.dials target true, .opens, .greets conn.selfKey]
  | .checking => serving conn target frames
  | .reading => serving conn target frames
  | .handling _ => serving conn target frames
  | .deadline _ => serving conn target frames
  | .draining _ => serving conn target frames
  | .finishing _ => serving conn target frames
  | .leaving ending => Visit.acts conn ⟨target, ending.outcome frames⟩
  | .clearing ending => Visit.acts conn ⟨target, ending.outcome frames⟩
  | .cleared ending => Visit.acts conn ⟨target, ending.outcome frames⟩
  | .ended ending => Visit.acts conn ⟨target, ending.outcome frames⟩

def outcome (frames : List ParticipantData) : ContextPoint → Outcome
  | .leaving ending => ending.outcome frames
  | .clearing ending => ending.outcome frames
  | .cleared ending => ending.outcome frames
  | .ended ending => ending.outcome frames
  | _ => .served frames

/-- The stream is left although it has not broken. -/
def unbroken : ContextPoint → Bool
  | .deadline broken => !broken
  | .draining broken => !broken
  | .finishing broken => !broken
  | .leaving ending => ending == .drained false
  | .clearing ending => ending == .drained false
  | .cleared ending => ending == .drained false
  | .ended ending => ending == .drained false
  | _ => false

variable {conn : ReliableSubscriberConnection} {target : Bytes}

theorem sofar_isPrefix (frames : List ParticipantData) (p : ContextPoint) :
    p.sofar conn target frames <+: Visit.acts conn ⟨target, p.outcome frames⟩ := by
  cases p with
  | leaving ending => exact List.prefix_rfl
  | clearing ending => exact List.prefix_rfl
  | cleared ending => exact List.prefix_rfl
  | ended ending => exact List.prefix_rfl
  | checking => exact List.prefix_append _ _
  | reading => exact List.prefix_append _ _
  | handling frame => exact List.prefix_append _ _
  | deadline broken => exact List.prefix_append _ _
  | draining broken => exact List.prefix_append _ _
  | finishing broken => exact List.prefix_append _ _
  | writing => exact ⟨_, rfl⟩
  | established => exact ⟨_, rfl⟩
  | _ => exact ⟨_, rfl⟩

end ContextPoint

namespace ConnectionThreads

variable {conn : ReliableSubscriberConnection} {target : Bytes} {s s' : ConnectionThreads}

theorem Within.sofar {stop : Bool} {reply : Option ParticipantData} {p p' : ContextPoint}
    {did : List ReaderAct}
    (h : Within conn stop reply p did p') (frames : List ParticipantData) :
    ∃ frames', p'.sofar conn target frames' = p.sofar conn target frames ++ did := by
  cases h with
  | noted => exact ⟨[], rfl⟩
  | handed frame =>
      refine ⟨frames ++ [frame], ?_⟩
      simp only [ContextPoint.sofar, serving, List.map_append, List.map_singleton,
        List.append_assoc]
  | opens => exact ⟨frames, rfl⟩
  | wrote => exact ⟨frames, rfl⟩
  | finished broken => exact ⟨frames, rfl⟩
  | _ => exact ⟨frames, (List.append_nil _).symm⟩

theorem Within.unbroken {stop : Bool} {reply : Option ParticipantData} {p p' : ContextPoint}
    {did : List ReaderAct}
    (h : Within conn stop reply p did p') (hprev : p.unbroken = true → stop = true)
    (hnow : p'.unbroken = true) : stop = true := by
  cases h with
  | stopped hstop => exact hstop
  | limited broken => exact hprev hnow
  | drains broken hreply => exact hprev hnow
  | drained broken => exact hprev hnow
  | finished broken =>
      refine hprev ?_
      cases broken with
      | true => cases hnow
      | false => rfl
  | relock ending => exact hprev hnow
  | cleared ending => exact hprev hnow
  | left ending => exact hprev hnow
  | _ => cases hnow

def Left (candidates : List Bytes) (k : Nat) (rest : List Bytes) : Prop :=
  ∃ passes j, k = passes * candidates.length + j ∧ j ≤ candidates.length ∧
    rest = candidates.drop j

def Between (candidates : List Bytes) (k : Nat) : Prop :=
  ∃ passes, k = passes * candidates.length

variable {candidates rest : List Bytes} {k : Nat}

theorem Between.left (h : Between candidates k) : Left candidates k candidates := by
  obtain ⟨passes, rfl⟩ := h
  exact ⟨passes, 0, rfl, Nat.zero_le _, rfl⟩

theorem Left.between (h : Left candidates k []) : Between candidates k := by
  obtain ⟨passes, j, rfl, hj, hrest⟩ := h
  have hlen : candidates.length ≤ j := List.drop_eq_nil_iff.mp hrest.symm
  exact ⟨passes + 1, by rw [Nat.le_antisymm hj hlen, Nat.add_mul, Nat.one_mul]⟩

theorem Left.next (h : Left candidates k (target :: rest)) :
    candidates[k % candidates.length]? = some target ∧ Left candidates (k + 1) rest := by
  obtain ⟨passes, j, rfl, hj, hrest⟩ := h
  have hlt : j < candidates.length := by
    by_contra hle
    rw [List.drop_eq_nil_of_le (Nat.not_lt.mp hle)] at hrest
    cases hrest
  rw [List.drop_eq_getElem_cons hlt] at hrest
  obtain ⟨rfl, rfl⟩ := List.cons.inj hrest
  refine ⟨?_, passes, j + 1, rfl, hlt, rfl⟩
  rw [Nat.mul_add_mod', Nat.mod_eq_of_lt hlt, List.getElem?_eq_getElem hlt]

/-- The visits go round the candidates. -/
def Touring (candidates : List Bytes) (visits : List Visit) : Prop :=
  ∀ i v, visits[i]? = some v → candidates[i % candidates.length]? = some v.target

theorem Touring.concat {visits : List Visit} {outcome : Outcome}
    (h : Touring candidates visits)
    (htarget : candidates[visits.length % candidates.length]? = some target) :
    Touring candidates (visits ++ [⟨target, outcome⟩]) := by
  intro i v hv
  rw [List.getElem?_append] at hv
  split at hv
  · exact h i v hv
  · obtain ⟨hlt, rfl⟩ := List.getElem?_eq_some_iff.mp hv
    obtain rfl : i = visits.length := by
      rw [List.length_singleton] at hlt
      omega
    simpa using htarget

structure Heading (conn : ReliableSubscriberConnection) (visits : List Visit) (target : Bytes)
    (rest : List Bytes) (connected : Bytes) : Prop where
  touring : Touring conn.candidates visits
  left : Left conn.candidates visits.length (target :: rest)
  connected : connected = target

/-- Where the log of the reader stands at a point. -/
def Along (conn : ReliableSubscriberConnection) (stop : Bool) (connected : Bytes)
    (log : List ReaderAct) : ReaderPoint → Prop
  | .candidate rest =>
      ∃ visits, Touring conn.candidates visits ∧ log = visits.flatMap (Visit.acts conn) ∧
        connected = [] ∧ Left conn.candidates visits.length rest
  | .connecting target rest =>
      ∃ visits, Touring conn.candidates visits ∧ log = visits.flatMap (Visit.acts conn) ∧
        connected = [] ∧ Left conn.candidates visits.length (target :: rest)
  | .redial rest =>
      ∃ visits target outcome, Heading conn visits target rest connected ∧
        log = visits.flatMap (Visit.acts conn) ++ Visit.acts conn ⟨target, outcome⟩ ∧
          outcome ≠ .unreachable ∧ (stop = false → outcome = .unopened)
  | .context _ rest p =>
      ∃ visits target frames, Heading conn visits target rest connected ∧
        log = visits.flatMap (Visit.acts conn) ++ p.sofar conn target frames ∧
          (p.unbroken = true → stop = true)
  | .advance rest =>
      ∃ visits target outcome, Heading conn visits target rest connected ∧
        log = visits.flatMap (Visit.acts conn) ++ Visit.acts conn ⟨target, outcome⟩ ∧
          outcome ≠ .unreachable
  | _ =>
      ∃ visits, Touring conn.candidates visits ∧ log = visits.flatMap (Visit.acts conn) ∧
        connected = [] ∧ (stop = true ∨ Between conn.candidates visits.length)

variable {stop : Bool} {reply : Option ParticipantData} {connected connected' : Bytes}
  {log did : List ReaderAct} {p p' : ReaderPoint}

/-- The visit that is under way comes to its end. -/
theorem Heading.arrived {visits : List Visit} (h : Heading conn visits target rest connected)
    (outcome : Outcome) :
    Touring conn.candidates (visits ++ [(⟨target, outcome⟩ : Visit)]) ∧
      visits.flatMap (Visit.acts conn) ++ Visit.acts conn ⟨target, outcome⟩ =
        (visits ++ [(⟨target, outcome⟩ : Visit)]).flatMap (Visit.acts conn) ∧
      Left conn.candidates (visits ++ [(⟨target, outcome⟩ : Visit)]).length rest := by
  obtain ⟨htarget, hleft⟩ := h.left.next
  refine ⟨h.touring.concat htarget, ?_, ?_⟩
  · rw [List.flatMap_append, List.flatMap_singleton]
  · rw [List.length_append, List.length_singleton]
    exact hleft

theorem Along.stopped (h : Along conn stop connected log p) : Along conn true connected log p := by
  cases p with
  | candidate rest => exact h
  | connecting target rest => exact h
  | redial rest =>
      obtain ⟨visits, target, outcome, hheading, hlog, hreached, -⟩ := h
      exact ⟨visits, target, outcome, hheading, hlog, hreached, nofun⟩
  | context ctx rest p =>
      obtain ⟨visits, target, frames, hheading, hlog, -⟩ := h
      exact ⟨visits, target, frames, hheading, hlog, fun _ => rfl⟩
  | advance rest => exact h
  | _ =>
      obtain ⟨visits, htouring, hlog, hconnected, -⟩ := h
      exact ⟨visits, htouring, hlog, hconnected, .inl rfl⟩

theorem Along.goes (h : Along conn stop connected log p)
    (hgoes : Goes conn stop reply connected p did connected' p') :
    Along conn stop connected' (log ++ did) p' := by
  cases hgoes with
  | scan hstop =>
      obtain ⟨visits, htouring, rfl, hconnected, hpass⟩ := h
      refine ⟨visits, htouring, List.append_nil _, hconnected, ?_⟩
      rcases hpass with hset | hbetween
      · cases hset.symm.trans hstop
      · exact hbetween.left
  | exit hstop =>
      obtain ⟨visits, htouring, rfl, hconnected, -⟩ := h
      exact ⟨visits, htouring, List.append_nil _, hconnected, .inl hstop⟩
  | scanned =>
      obtain ⟨visits, htouring, rfl, hconnected, hleft⟩ := h
      exact ⟨visits, htouring, List.append_nil _, hconnected, .inr hleft.between⟩
  | abandon target rest hstop =>
      obtain ⟨visits, htouring, rfl, hconnected, -⟩ := h
      exact ⟨visits, htouring, List.append_nil _, hconnected, .inl hstop⟩
  | dial target rest hstop =>
      obtain ⟨visits, htouring, rfl, hconnected, hleft⟩ := h
      exact ⟨visits, htouring, List.append_nil _, hconnected, hleft⟩
  | unreachable target rest =>
      obtain ⟨visits, htouring, rfl, hconnected, hleft⟩ := h
      obtain ⟨htouring', hlog, hleft'⟩ :=
        Heading.arrived ⟨htouring, hleft, rfl⟩ .unreachable
      exact ⟨_, htouring', hlog, hconnected, hleft'⟩
  | reached target rest =>
      obtain ⟨visits, htouring, rfl, -, hleft⟩ := h
      exact ⟨visits, _, .unopened, ⟨htouring, hleft, rfl⟩, rfl, nofun, fun _ => rfl⟩
  | quit rest hstop =>
      obtain ⟨visits, target, outcome, hheading, rfl, hreached, -⟩ := h
      exact ⟨visits, target, outcome, hheading, List.append_nil _, hreached⟩
  | create ctx rest hstop =>
      obtain ⟨visits, target, outcome, hheading, rfl, -, hunopened⟩ := h
      obtain rfl := hunopened hstop
      exact ⟨visits, target, [], hheading, List.append_nil _, nofun⟩
  | within ctx rest hwithin =>
      obtain ⟨visits, target, frames, hheading, rfl, hunbroken⟩ := h
      obtain ⟨frames', hsofar⟩ := hwithin.sofar frames
      refine ⟨visits, target, frames', hheading, ?_, hwithin.unbroken hunbroken⟩
      rw [List.append_assoc, hsofar]
  | refused ctx rest =>
      obtain ⟨visits, target, frames, hheading, rfl, -⟩ := h
      exact ⟨visits, target, .unopened, hheading, List.append_nil _, nofun⟩
  | unwritten ctx rest =>
      obtain ⟨visits, target, frames, hheading, rfl, -⟩ := h
      exact ⟨visits, target, .unwritten, hheading, List.append_nil _, nofun⟩
  | broke ctx rest hstop =>
      obtain ⟨visits, target, frames, hheading, rfl, -⟩ := h
      exact ⟨visits, target, .served frames, hheading, List.append_nil _, nofun⟩
  | @again ctx rest broken hbroken =>
      obtain ⟨visits, target, frames, hheading, rfl, hunbroken⟩ := h
      refine ⟨visits, target, .served frames, hheading, List.append_nil _, nofun, fun hstop => ?_⟩
      -- the loop only comes round again when it has been stopped
      have hset : stop = true := by
        cases broken with
        | true => exact hbroken rfl
        | false => exact hunbroken rfl
      cases hset.symm.trans hstop
  | advance rest hstop =>
      obtain ⟨visits, target, outcome, hheading, rfl, -⟩ := h
      obtain ⟨htouring, hlog, hleft⟩ := hheading.arrived outcome
      exact ⟨_, htouring, (List.append_nil _).trans hlog, rfl, hleft⟩
  | leave rest hstop =>
      obtain ⟨visits, target, outcome, hheading, rfl, -⟩ := h
      obtain ⟨htouring, hlog, -⟩ := hheading.arrived outcome
      exact ⟨_, htouring, (List.append_nil _).trans hlog, rfl, .inl hstop⟩
  | rested =>
      obtain ⟨visits, htouring, rfl, hconnected, hpass⟩ := h
      exact ⟨visits, htouring, List.append_nil _, hconnected, hpass⟩

/-- What holds of the reader in a whole run. -/
structure OnTour (conn : ReliableSubscriberConnection) (log : List ReaderAct)
    (s : ConnectionThreads) : Prop where
  dialing : s.conn = { conn with connected := s.conn.connected }
  along : Along conn s.stop s.conn.connected log s.reader

theorem Stopping.reader {i : Nat} {e : ConnectionEvent} (h : Stopping s i e s') :
    s'.reader = s.reader ∧ s'.conn = s.conn ∧ (s'.stop = s.stop ∨ s'.stop = true) := by
  cases h with
  | flag h => exact ⟨rfl, rfl, .inr rfl⟩
  | _ => exact ⟨rfl, rfl, .inl rfl⟩

theorem OnTour.observed {a : ConnectionAction} (h : OnTour conn log s)
    (hstep : Observed s a did s') : OnTour conn (log ++ did) s' := by
  cases hstep with
  | start hreader =>
      refine ⟨h.dialing, ?_⟩
      have halong := h.along
      rw [hreader] at halong
      rw [List.append_nil]
      exact halong
  | read hgoes hbeside =>
      refine ⟨?_, ?_⟩
      · rw [hbeside.conn, h.dialing]
      · rw [hbeside.stop]
        rw [h.dialing] at hgoes
        exact h.along.goes hgoes.of_connected
  | stop i hstop =>
      obtain ⟨hreader, hconn, hflag⟩ := hstop.reader
      refine ⟨?_, ?_⟩
      · rw [hconn]
        exact h.dialing
      · rw [hreader, hconn, List.append_nil]
        rcases hflag with hsame | hset
        · rw [hsame]
          exact h.along
        · rw [hset]
          exact h.along.stopped

theorem onTour_of_trace {evs : List (List ReaderAct)} (hnew : conn.connected = [])
    (h : Trace (Steps observed) { conn } evs s) : OnTour conn evs.flatten s := by
  refine Trace.invariant (P := fun evs s => OnTour conn evs.flatten s) ⟨rfl, ?_⟩ ?_ h
  · exact ⟨[], nofun, rfl, hnew, .inr ⟨0, (Nat.zero_mul _).symm⟩⟩
  · rintro evs s did s' - hs ⟨a, -, hstep⟩
    rw [List.flatten_append, List.flatten_singleton]
    exact hs.observed (observed_of_step hstep)

theorem isPrefix_acts {outcome : Outcome} (hreached : outcome ≠ .unreachable) :
    [.dials target true] <+: Visit.acts conn ⟨target, outcome⟩ := by
  cases outcome with
  | unreachable => exact absurd rfl hreached
  | unopened => exact ⟨_, rfl⟩
  | unwritten => exact ⟨_, rfl⟩
  | served frames => exact ⟨_, rfl⟩

theorem isPrefix_sofar (frames : List ParticipantData) (p : ContextPoint) :
    [.dials target true] <+: p.sofar conn target frames := by
  have hacts : ∀ ending : Ending,
      [.dials target true] <+: Visit.acts conn ⟨target, ending.outcome frames⟩ := by
    intro ending
    apply isPrefix_acts
    cases ending <;> nofun
  cases p with
  | leaving ending => exact hacts ending
  | clearing ending => exact hacts ending
  | cleared ending => exact hacts ending
  | ended ending => exact hacts ending
  | _ => exact ⟨_, rfl⟩

/-- The visits that a log shows, the last one as far as it has got. -/
structure Shows (conn : ReliableSubscriberConnection) (connected : Bytes) (log : List ReaderAct)
    (visits : List Visit) : Prop where
  acts : log <+: visits.flatMap (Visit.acts conn)
  touring : Touring conn.candidates visits
  connected : connected ≠ [] → ∃ (earlier : List Visit) (v : Visit), visits = earlier ++ [v] ∧
    v.target = connected ∧ earlier.flatMap (Visit.acts conn) ++ [.dials v.target true] <+: log

theorem Heading.shows {visits : List Visit} {outcome : Outcome} {done : List ReaderAct}
    (h : Heading conn visits target rest connected)
    (hdone : done <+: Visit.acts conn ⟨target, outcome⟩)
    (hreached : [.dials target true] <+: done) :
    Shows conn connected (visits.flatMap (Visit.acts conn) ++ done)
      (visits ++ [(⟨target, outcome⟩ : Visit)]) := by
  obtain ⟨htouring, hlog, -⟩ := h.arrived outcome
  constructor
  case acts =>
    rw [← hlog]
    exact (List.prefix_append_right_inj _).mpr hdone
  case touring => exact htouring
  case connected =>
    intro _
    exact ⟨visits, _, rfl, h.connected.symm, (List.prefix_append_right_inj _).mpr hreached⟩

theorem Along.shows (h : Along conn stop connected log p) :
    ∃ visits, Shows conn connected log visits := by
  have hidle : ∀ {visits : List Visit}, Touring conn.candidates visits →
      log = visits.flatMap (Visit.acts conn) → connected = [] →
        Shows conn connected log visits := by
    intro visits htouring hlog hconnected
    refine ⟨?_, htouring, fun hne => absurd hconnected hne⟩
    rw [hlog]
  cases p with
  | candidate rest =>
      obtain ⟨visits, htouring, hlog, hconnected, -⟩ := h
      exact ⟨visits, hidle htouring hlog hconnected⟩
  | connecting target rest =>
      obtain ⟨visits, htouring, hlog, hconnected, -⟩ := h
      exact ⟨visits, hidle htouring hlog hconnected⟩
  | redial rest =>
      obtain ⟨visits, target, outcome, hheading, rfl, hreached, -⟩ := h
      exact ⟨_, hheading.shows List.prefix_rfl (isPrefix_acts hreached)⟩
  | context ctx rest p =>
      obtain ⟨visits, target, frames, hheading, rfl, -⟩ := h
      exact ⟨_, hheading.shows (p.sofar_isPrefix frames) (isPrefix_sofar frames p)⟩
  | advance rest =>
      obtain ⟨visits, target, outcome, hheading, rfl, hreached⟩ := h
      exact ⟨_, hheading.shows List.prefix_rfl (isPrefix_acts hreached)⟩
  | _ =>
      obtain ⟨visits, htouring, hlog, hconnected, -⟩ := h
      exact ⟨visits, hidle htouring hlog hconnected⟩

/-- The reader visits the candidates in their order, round and round, opens one stream at most
in a visit, and hands over frames only between the heartbeat that it wrote on the stream and the
stream's end.  `currentEndpoint()` is the endpoint of the visit that goes on. -/
theorem itinerary {evs : List (List ReaderAct)} (hnew : conn.connected = [])
    (h : Trace (Steps observed) { conn } evs s) :
    ∃ visits : List Visit, evs.flatten <+: visits.flatMap (Visit.acts conn) ∧
      (∀ (i : Nat) (v : Visit), visits[i]? = some v →
        conn.candidates[i % conn.candidates.length]? = some v.target) ∧
      (s.conn.connected ≠ [] → ∃ (earlier : List Visit) (v : Visit), visits = earlier ++ [v] ∧
        v.target = s.conn.connected ∧
          earlier.flatMap (Visit.acts conn) ++ [.dials v.target true] <+: evs.flatten) := by
  obtain ⟨visits, hshows⟩ := (onTour_of_trace hnew h).along.shows
  exact ⟨visits, hshows.acts, hshows.touring, hshows.connected⟩

/-- The first endpoint does not answer, the second one serves a frame until its stream breaks,
and in the next pass the first one answers. -/
def roundTwice : List ConnectionAction :=
  .start :: (List.replicate 2 (.read (some {})) ++ .read none ::
    (List.replicate 14 (.read (some {})) ++ .read none :: .read (some {}) :: .read none ::
      List.replicate 11 (.read (some {}))))

theorem itinerary_roundTwice :
    ∃ evs s, exec observed { conn := ⟨⟨4, 5, 6⟩, [[49], [50]], 1, 2, 3, []⟩ } roundTwice =
        some (evs, s) ∧ s.conn.connected = [49] ∧ evs.flatten.length = 8 ∧
      ∃ visits : List Visit,
        evs.flatten <+: visits.flatMap (Visit.acts ⟨⟨4, 5, 6⟩, [[49], [50]], 1, 2, 3, []⟩) ∧
        (∀ (i : Nat) (v : Visit), visits[i]? = some v →
          [[49], [50]][i % 2]? = some v.target) ∧
        (s.conn.connected ≠ [] → ∃ (earlier : List Visit) (v : Visit), visits = earlier ++ [v] ∧
          v.target = s.conn.connected ∧
            earlier.flatMap (Visit.acts ⟨⟨4, 5, 6⟩, [[49], [50]], 1, 2, 3, []⟩) ++
              [.dials v.target true] <+: evs.flatten) := by
  have hrun : (exec observed { conn := ⟨⟨4, 5, 6⟩, [[49], [50]], 1, 2, 3, []⟩ } roundTwice).map
      (fun p => (p.2.conn.connected, p.1.flatten.length)) = some ([49], 8) := by
    rfl
  obtain ⟨⟨evs, s⟩, h, hp⟩ := Option.map_eq_some_iff.mp hrun
  obtain ⟨hconnected, hlength⟩ := Prod.mk.inj hp
  exact ⟨evs, s, h, hconnected, hlength, itinerary rfl (trace_of_exec (fun _ _ _ => trivial) h)⟩

end ConnectionThreads

end Edriel
