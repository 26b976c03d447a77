import Edriel.Outbox
import Edriel.ReliablePublisher

/-!
A publisher node with its gRPC service: the send in progress, the table of
subscribers and the reactors of their streams, all of which run concurrently.
-/

namespace Edriel

open Proto3 Std Interleaving

/-- What gRPC does to one reactor, or a section of one of its threads: `known` is
the verdict of the registry on the dialer, `presence` the peers it lists. -/
inductive ReactorAction where
  | onWriteDone (ok : Bool)
  | onReadDone (heartbeat : Option SubscriberKey)
  | onCancel
  | onDone
  | run (k : Nat) (known : Bool) (presence : List Participant)

def ReactorAction.toRpc : ReactorAction → RpcAction OutFrame
  | .onWriteDone ok => .onWriteDone ok
  | .onReadDone heartbeat => .onReadDone heartbeat
  | .onCancel => .onCancel
  | .onDone => .onDone
  | .run k known presence => .run k { known, presence := presence.map .presence }

/-- A sender that was read off the wire has a 32-bit pid. -/
def Operation.OnWire : Operation → Prop
  | .announcement sender _ _ _ => sender.pid.toNat < 2 ^ 32
  | _ => True

/-- An operation on the registry as the node performs it. -/
structure WireOperation where
  op : Operation
  onWire : op.OnWire

/-- A step of the node.  `resume` is the next section of the send in progress. -/
inductive ServerAction where
  | registry (op : WireOperation)
  | startGrpcServer (bound : Bool)
  | stopGrpcServer
  | streamParticipants
  | reactor (i : Nat) (a : ReactorAction)
  | tryPublishReliable (topicName messageType payload : Bytes) (now : Int)
  | resume

/-- What a step shows.  A push names the reactor that the table gave for the key,
a registration the reactor it supersedes. -/
inductive ServerEvent where
  | refused (call : Nat) (why : Refusal)
  | begun (c : Call)
  | pushed (c : Call) (sk : SubscriberKey) (target : Option Nat) (status : OutboxStatus)
  | returned (c : Call) (result : ReliableSendResult)
  | registered (i : Nat) (sk : SubscriberKey) (superseded : Option Nat)
  | reactor (i : Nat) (e : RpcEvent OutFrame)
  | internal

def ServerEvent.view (i : Nat) : ServerEvent → List (RpcEvent OutFrame)
  | .pushed c _ target status =>
      if target = some i then [.enqueued (.data c.number c.data) status] else []
  | .registered j sk superseded =>
      if j = i then [.register sk] else if superseded = some i then [.superseded] else []
  | .reactor j e => if j = i then [e] else []
  | _ => []

/-- `serving` says whether the service exists.  Reactor `i` belongs to the dial
with that number; those from `dials` on are not made yet. -/
structure Server (N : Nat) where
  node : Node N
  serving : Bool := false
  publisher : ReliablePublisher := {}
  subscribers : ExtTreeMap SubscriberKey Nat := ∅
  dials : Nat := 0
  rpcs : Nat → Rpc OutFrame

namespace Server

variable {N : Nat}

def init (node : Node N) (maxFrames hwm lwm : Nat) : Server N :=
  { node, rpcs := fun _ => .init maxFrames hwm lwm }

def setRpc (s : Server N) (i : Nat) (r : Rpc OutFrame) : Server N :=
  { s with rpcs := Function.update s.rpcs i r }

/-- `registerSubscriber`: a reactor that has the key already is superseded. -/
def registerSubscriber (s : Server N) (sk : SubscriberKey) (i : Nat) :
    Option Nat × Server N :=
  match s.subscribers[sk]? with
  | none => (none, { s with subscribers := s.subscribers.insert sk i })
  | some j =>
      if j = i then (none, { s with subscribers := s.subscribers.insert sk i })
      else
        (some j,
          { s.setRpc j (s.rpcs j).supersede with
            subscribers := s.subscribers.insert sk i })

def unregisterSubscriber (s : Server N) (sk : SubscriberKey) (i : Nat) : Server N :=
  if s.subscribers[sk]? = some i then { s with subscribers := s.subscribers.erase sk }
  else s

def pushStatus (s : Server N) (c : Call) : Option Nat → OutboxStatus
  | none => .notConnected
  | some i => ((s.rpcs i).reactor.enqueue (.data c.number c.data)).1

/-- `pushData`, up to the end of `enqueue`'s lock section. -/
def pushData (s : Server N) (c : Call) : Option Nat → Server N
  | none => s
  | some i => s.setRpc i ((s.rpcs i).enqueue (.data c.number c.data))

/-- The next section of a send: a push, or the return. -/
def resume (s : Server N) (c : Call) : ServerEvent × Server N :=
  match c.remaining with
  | [] => (.returned c c.result, { s with publisher := s.publisher.finish c })
  | sub :: _ =>
      let sk := sub.subscriberKey
      let target := s.subscribers[sk]?
      let status := s.pushStatus c target
      (.pushed c sk target status,
        { s.pushData c target with
          publisher := { s.publisher with call := some (c.noted sk status) } })

/-- What the service does with what a reactor shows. -/
def react (s : Server N) (i : Nat) (e : RpcEvent OutFrame) (r : Rpc OutFrame) :
    ServerEvent × Server N :=
  match e with
  | .register sk =>
      let registered := (s.setRpc i r).registerSubscriber sk i
      (.registered i sk registered.1, registered.2)
  | .unregister sk => (.reactor i e, (s.setRpc i r).unregisterSubscriber sk i)
  | _ => (.reactor i e, s.setRpc i r)

theorem react_internal (s : Server N) (i : Nat) (r : Rpc OutFrame) :
    (s.react i .internal r).2 = s.setRpc i r :=
  rfl

theorem publisher_registerSubscriber (s : Server N) (sk : SubscriberKey) (i : Nat) :
    (s.registerSubscriber sk i).2.publisher = s.publisher := by
  rw [registerSubscriber]
  split
  · rfl
  · split <;> rfl

theorem publisher_unregisterSubscriber (s : Server N) (sk : SubscriberKey) (i : Nat) :
    (s.unregisterSubscriber sk i).publisher = s.publisher := by
  rw [unregisterSubscriber]
  split <;> rfl

section

variable [NeZero N]

/-- The start of a send, which takes `grpcServiceMutex_` until it returns. -/
def tryPublishReliable (s : Server N) (topicName messageType payload : Bytes)
    (now : Int) : ServerEvent × Server N :=
  match s.publisher.offer s.node s.serving topicName messageType payload now with
  | (.error why, p) =>
      (.refused s.publisher.calls why,
        { s with publisher := { p with calls := p.calls + 1 } })
  | (.ok c, p) =>
      (.begun c, { s with publisher := { p with calls := p.calls + 1, call := some c } })

def step (s : Server N) : ServerAction → Option (ServerEvent × Server N)
  | .registry op => some (.internal, { s with node := s.node.apply op.op })
  | .startGrpcServer bound =>
      if s.publisher.call.isSome then none
      else if s.serving || !bound then some (.internal, s)
      else some (.internal, { s with serving := true, subscribers := ∅ })
  | .stopGrpcServer =>
      -- the shutdown waits until every stream is over
      if s.publisher.call.isSome ||
          !(List.range s.dials).all fun i => (s.rpcs i).done then none
      else some (.internal, { s with serving := false, subscribers := ∅ })
  | .streamParticipants =>
      if s.serving then some (.internal, { s with dials := s.dials + 1 }) else none
  | .reactor i a =>
      if i < s.dials then
        ((s.rpcs i).step a.toRpc).map fun p => s.react i p.1 p.2
      else none
  | .tryPublishReliable topicName messageType payload now =>
      if s.publisher.call.isSome then none
      else some (s.tryPublishReliable topicName messageType payload now)
  | .resume => s.publisher.call.map s.resume

theorem react_of_step {s s' : Server N} {i : Nat} {a : ReactorAction} {e : ServerEvent}
    (h : s.step (.reactor i a) = some (e, s')) :
    ∃ e' r, (s.rpcs i).step a.toRpc = some (e', r) ∧ (s.react i e' r).1 = e ∧
      (s.react i e' r).2 = s' := by
  simp only [step] at h
  split_ifs at h
  obtain ⟨⟨e', r⟩, hstep, hreact⟩ := Option.map_eq_some_iff.mp h
  exact ⟨e', r, hstep, congrArg Prod.fst hreact, congrArg Prod.snd hreact⟩

inductive Stepped (s : Server N) : ServerEvent → Server N → Prop
  | registry (op : WireOperation) :
      Stepped s .internal { s with node := s.node.apply op.op }
  | service (serving : Bool) (dials : Nat) : Stepped s .internal { s with serving, dials }
  | cleared (serving : Bool) :
      Stepped s .internal { s with serving, subscribers := ∅ }
  | reactor {j : Nat} {a : ReactorAction} {e : RpcEvent OutFrame} {r : Rpc OutFrame}
      (hstep : (s.rpcs j).step a.toRpc = some (e, r)) :
      Stepped s (s.react j e r).1 (s.react j e r).2
  | refused {topicName messageType payload : Bytes} {now : Int} {why : Refusal}
      {p : ReliablePublisher} (hidle : s.publisher.call = none)
      (hoffer : s.publisher.offer s.node s.serving topicName messageType payload now =
        (.error why, p)) :
      Stepped s (.refused s.publisher.calls why)
        { s with publisher := { p with calls := p.calls + 1 } }
  | begun {topicName messageType payload : Bytes} {now : Int} {c : Call}
      {p : ReliablePublisher} (hidle : s.publisher.call = none)
      (hoffer : s.publisher.offer s.node s.serving topicName messageType payload now =
        (.ok c, p)) :
      Stepped s (.begun c)
        { s with publisher := { p with calls := p.calls + 1, call := some c } }
  | pushed {c : Call} {sub : Identity} {rest : List Identity}
      (hcall : s.publisher.call = some c) (hremaining : c.remaining = sub :: rest)
      {target : Option Nat} (htarget : target = s.subscribers[sub.subscriberKey]?) :
      Stepped s (.pushed c sub.subscriberKey target (s.pushStatus c target))
        { s.pushData c target with
          publisher := { s.publisher with
            call := some (c.noted sub.subscriberKey (s.pushStatus c target)) } }
  | returned {c : Call} (hcall : s.publisher.call = some c) (hremaining : c.remaining = []) :
      Stepped s (.returned c c.result) { s with publisher := s.publisher.finish c }

theorem stepped_tryPublishReliable {s : Server N} (hidle : s.publisher.call = none)
    (topicName messageType payload : Bytes) (now : Int) :
    Stepped s (s.tryPublishReliable topicName messageType payload now).1
      (s.tryPublishReliable topicName messageType payload now).2 := by
  cases hoffer : s.publisher.offer s.node s.serving topicName messageType payload now with
  | mk result p =>
      cases result with
      | error why =>
          simp only [tryPublishReliable, hoffer]
          exact .refused hidle hoffer
      | ok c =>
          simp only [tryPublishReliable, hoffer]
          exact .begun hidle hoffer

theorem stepped_resume {s : Server N} {c : Call} (hcall : s.publisher.call = some c) :
    Stepped s (s.resume c).1 (s.resume c).2 := by
  cases hremaining : c.remaining with
  | nil =>
      simp only [resume, hremaining]
      exact .returned hcall hremaining
  | cons sub rest =>
      simp only [resume, hremaining]
      exact .pushed hcall hremaining rfl

/-- The inversion lemma of the node. -/
theorem stepped_of_step {s s' : Server N} {a : ServerAction} {e : ServerEvent}
    (h : s.step a = some (e, s')) : Stepped s e s' := by
  cases a with
  | registry op =>
      obtain ⟨rfl, rfl⟩ := Prod.mk.inj (Option.some.inj h)
      exact .registry op
  | startGrpcServer bound =>
      simp only [step] at h
      split_ifs at h
      · obtain ⟨rfl, rfl⟩ := Prod.mk.inj (Option.some.inj h)
        exact .service s.serving s.dials
      · obtain ⟨rfl, rfl⟩ := Prod.mk.inj (Option.some.inj h)
        exact .cleared true
  | stopGrpcServer =>
      simp only [step] at h
      split_ifs at h
      obtain ⟨rfl, rfl⟩ := Prod.mk.inj (Option.some.inj h)
      exact .cleared false
  | streamParticipants =>
      simp only [step] at h
      split_ifs at h
      obtain ⟨rfl, rfl⟩ := Prod.mk.inj (Option.some.inj h)
      exact .service s.serving (s.dials + 1)
  | reactor i a =>
      obtain ⟨e', r, hstep, rfl, rfl⟩ := react_of_step h
      exact .reactor hstep
  | tryPublishReliable topicName messageType payload now =>
      simp only [step] at h
      split_ifs at h with hbusy
      have hidle : s.publisher.call = none := by simpa using hbusy
      have hsend := Option.some.inj h
      obtain rfl : (s.tryPublishReliable topicName messageType payload now).1 = e :=
        congrArg Prod.fst hsend
      obtain rfl : (s.tryPublishReliable topicName messageType payload now).2 = s' :=
        congrArg Prod.snd hsend
      exact stepped_tryPublishReliable hidle topicName messageType payload now
  | resume =>
      obtain ⟨c, hcall, hresume⟩ := Option.map_eq_some_iff.mp h
      obtain rfl : (s.resume c).1 = e := congrArg Prod.fst hresume
      obtain rfl : (s.resume c).2 = s' := congrArg Prod.snd hresume
      exact stepped_resume hcall

def PublisherEffect (s s' : Server N) : ServerEvent → Prop
  | .refused call _ =>
      s.publisher.call = none ∧ call = s.publisher.calls ∧
        s'.publisher.call = none ∧ s'.publisher.calls = s.publisher.calls + 1 ∧
        ∀ key, s'.publisher.seq key = s.publisher.seq key
  | .begun c =>
      s.publisher.call = none ∧
        (∃ topicName messageType payload,
          s.publisher.Opening s.node topicName messageType payload c) ∧
        s'.publisher.call = some c ∧ s'.publisher.calls = s.publisher.calls + 1 ∧
        ∀ key, s'.publisher.seq key = s.publisher.seq key
  | .pushed c sk target status =>
      s.publisher.call = some c ∧
        (∃ sub rest, c.remaining = sub :: rest ∧ sk = sub.subscriberKey) ∧
        target = s.subscribers[sk]? ∧ status = s.pushStatus c target ∧
        s'.publisher = { s.publisher with call := some (c.noted sk status) }
  | .returned c result =>
      s.publisher.call = some c ∧ c.remaining = [] ∧ result = c.result ∧
        s'.publisher = s.publisher.finish c
  | _ => s'.publisher = s.publisher

/-- A step does to the send in progress and to the sequence numbers what its
event says. -/
theorem publisherEffect_of_stepped {s s' : Server N} {e : ServerEvent}
    (h : Stepped s e s') : PublisherEffect s s' e := by
  cases h with
  | registry op => rfl
  | service serving dials => rfl
  | cleared serving => rfl
  | @reactor j a e r hstep =>
      cases e with
      | register sk => exact publisher_registerSubscriber _ _ _
      | unregister sk => exact publisher_unregisterSubscriber _ _ _
      | _ => rfl
  | refused hidle hoffer =>
      have hsame := ReliablePublisher.sameSeqs_offer hoffer
      exact ⟨hidle, rfl, hsame.call.trans hidle, congrArg (· + 1) hsame.calls, hsame.seq⟩
  | begun hidle hoffer =>
      have hsame := ReliablePublisher.sameSeqs_offer hoffer
      exact ⟨hidle, ⟨_, _, _, ReliablePublisher.opening_of_offer hoffer⟩, rfl,
        congrArg (· + 1) hsame.calls, hsame.seq⟩
  | pushed hcall hremaining htarget =>
      exact ⟨hcall, ⟨_, _, hremaining, rfl⟩, htarget, rfl, rfl⟩
  | returned hcall hremaining => exact ⟨hcall, hremaining, rfl, rfl⟩

end

theorem rpcs_setRpc (s : Server N) (j : Nat) (r : Rpc OutFrame) (i : Nat) :
    (s.setRpc j r).rpcs i = if j = i then r else s.rpcs i := by
  simp only [setRpc, Function.update_apply, eq_comm]

theorem rpcs_unregisterSubscriber (s : Server N) (sk : SubscriberKey) (j i : Nat) :
    (s.unregisterSubscriber sk j).rpcs i = s.rpcs i := by
  rw [unregisterSubscriber]
  split <;> rfl

theorem rpcs_registerSubscriber (s : Server N) (sk : SubscriberKey) (j i : Nat) :
    (s.registerSubscriber sk j).2.rpcs i =
      if (s.registerSubscriber sk j).1 = some i then (s.rpcs i).supersede
      else s.rpcs i := by
  rw [registerSubscriber]
  split
  · rfl
  · rename_i k _
    split
    · rfl
    · simp only [Option.some.injEq]
      rw [rpcs_setRpc]
      split
      · rename_i hk
        rw [hk]
      · rfl

theorem registerSubscriber_ne_self (s : Server N) (sk : SubscriberKey) (i : Nat) :
    (s.registerSubscriber sk i).1 ≠ some i := by
  rw [registerSubscriber]
  split
  · exact nofun
  · split
    · exact nofun
    · rename_i hother
      exact fun h => hother (Option.some.inj h)

theorem rpcs_pushData (s : Server N) (c : Call) (target : Option Nat) (i : Nat) :
    (s.pushData c target).rpcs i =
      if target = some i then (s.rpcs i).enqueue (.data c.number c.data)
      else s.rpcs i := by
  cases target with
  | none => rfl
  | some j =>
      rw [pushData, rpcs_setRpc]
      simp only [Option.some.injEq]
      split
      · rename_i hji
        rw [hji]
      · rfl

theorem trace_rpc_react {s : Server N} {j : Nat} {a : ReactorAction}
    {e : RpcEvent OutFrame} {r : Rpc OutFrame} (h : (s.rpcs j).step a.toRpc = some (e, r))
    (i : Nat) :
    Trace (Steps Rpc.step) (s.rpcs i) ((s.react j e r).1.view i)
      ((s.react j e r).2.rpcs i) := by
  have hself : ∀ e', e = e' → Trace (Steps Rpc.step) (s.rpcs i)
      (if j = i then [e'] else []) ((s.setRpc j r).rpcs i) := by
    rintro e' rfl
    rw [rpcs_setRpc]
    split
    · rename_i hji
      subst hji
      exact .single ⟨_, trivial, h⟩
    · exact .nil
  cases e with
  | register sk =>
      simp only [react, ServerEvent.view, rpcs_registerSubscriber]
      by_cases hji : j = i
      · have hme : ((s.setRpc j r).registerSubscriber sk j).1 ≠ some i :=
          hji ▸ registerSubscriber_ne_self _ sk j
        simpa only [if_pos hji, if_neg hme] using hself _ rfl
      · simp only [if_neg hji, rpcs_setRpc]
        split
        · exact .single ⟨.supersede, trivial, rfl⟩
        · exact .nil
  | unregister sk =>
      simp only [react, ServerEvent.view, rpcs_unregisterSubscriber]
      exact hself _ rfl
  | _ => exact hself _ rfl

/-- Every step of the node moves reactor `i` along a run of its own. -/
theorem trace_rpc_of_stepped [NeZero N] {s s' : Server N} {e : ServerEvent}
    (h : Stepped s e s') (i : Nat) :
    Trace (Steps Rpc.step) (s.rpcs i) (e.view i) (s'.rpcs i) := by
  cases h with
  | reactor hstep => exact trace_rpc_react hstep i
  | pushed hcall hremaining htarget =>
      simp only [ServerEvent.view, rpcs_pushData]
      split
      · rename_i hi
        rw [hi]
        exact .single ⟨.enqueue _, trivial, rfl⟩
      · exact .nil
  | _ => exact .nil

theorem trace_rpc [NeZero N] {s₀ s : Server N} {evs : List ServerEvent}
    {ok : Server N → ServerAction → Prop} (h : Trace (StepsWhere ok step) s₀ evs s) (i : Nat) :
    Trace (Steps Rpc.step) (s₀.rpcs i) (evs.flatMap (ServerEvent.view i)) (s.rpcs i) := by
  refine Trace.project (fun s => s.rpcs i) (ServerEvent.view i) ?_ h
  rintro evs s e s' - ⟨a, -, hstep⟩
  exact trace_rpc_of_stepped (stepped_of_step hstep) i

theorem pendingFrames_enqueue (r : Rpc OutFrame) (f : OutFrame) :
    (r.enqueue f).pendingFrames = r.pendingFrames :=
  Rpc.flatMap_frames_afterEnqueue _ _ _ _

theorem pendingFrames_react (s : Server N) (j : Nat) (e : RpcEvent OutFrame)
    (r : Rpc OutFrame) (i : Nat) :
    ((s.react j e r).2.rpcs i).pendingFrames = ((s.setRpc j r).rpcs i).pendingFrames := by
  cases e with
  | register sk =>
      simp only [react, rpcs_registerSubscriber]
      split <;> rfl
  | unregister sk => simp only [react, rpcs_unregisterSubscriber]
  | _ => rfl

/-- The threads of the reactors hold presence frames only. -/
def PresenceOnly (s : Server N) : Prop :=
  ∀ i, ∀ f ∈ (s.rpcs i).pendingFrames, f.IsPresence

theorem presenceOnly_react {s : Server N} {j : Nat} {a : ReactorAction}
    {e : RpcEvent OutFrame} {r : Rpc OutFrame} (hs : s.PresenceOnly)
    (h : (s.rpcs j).step a.toRpc = some (e, r)) :
    (s.react j e r).2.PresenceOnly ∧
      ∀ i f status, (s.react j e r).1 = .reactor i (.enqueued f status) → f.IsPresence := by
  obtain ⟨hpending, henqueued⟩ := Rpc.pendingFrames_of_step h (hs j) (by
    rintro k answer ha f hf
    cases a with
    | run k' known presence =>
        obtain ⟨-, rfl⟩ := RpcAction.run.inj ha
        obtain ⟨p, -, rfl⟩ := List.mem_map.mp hf
        exact trivial
    | _ => cases ha)
  constructor
  · intro i
    rw [pendingFrames_react, rpcs_setRpc]
    split
    · exact hpending
    · exact hs i
  · intro i f status he
    have hinner : e = .enqueued f status := by
      cases e with
      | register sk => cases he
      | _ => exact (ServerEvent.reactor.inj he).2
    rcases henqueued f status hinner with ha | hf
    · cases a <;> cases ha
    · exact hf

/-- A step keeps the threads free of data frames, and what they enqueue is
presence. -/
theorem presenceOnly_of_stepped [NeZero N] {s s' : Server N} {e : ServerEvent}
    (hs : s.PresenceOnly) (h : Stepped s e s') :
    s'.PresenceOnly ∧ ∀ i f status, e = .reactor i (.enqueued f status) → f.IsPresence := by
  cases h with
  | reactor hstep => exact presenceOnly_react hs hstep
  | pushed hcall hremaining htarget =>
      refine ⟨fun i => ?_, nofun⟩
      simp only [rpcs_pushData]
      split
      · rw [pendingFrames_enqueue]
        exact hs i
      · exact hs i
  | _ => exact ⟨hs, nofun⟩

theorem presenceOnly_of_trace [NeZero N] {ok : Server N → ServerAction → Prop}
    {node : Node N} {maxFrames hwm lwm : Nat} {evs : List ServerEvent} {s : Server N}
    (h : Trace (StepsWhere ok step) (init node maxFrames hwm lwm) evs s) :
    s.PresenceOnly ∧ ∀ i f status, .reactor i (.enqueued f status) ∈ evs → f.IsPresence := by
  refine Trace.invariant (P := fun evs s => s.PresenceOnly ∧
    ∀ i f status, .reactor i (.enqueued f status) ∈ evs → f.IsPresence) ?_ ?_ h
  · exact ⟨fun i f hf => absurd hf List.not_mem_nil,
      fun i f status h => absurd h List.not_mem_nil⟩
  · rintro evs s e s' - ⟨hs, hevs⟩ ⟨a, -, hstep⟩
    obtain ⟨hs', he⟩ := presenceOnly_of_stepped hs (stepped_of_step hstep)
    refine ⟨hs', fun i f status h => ?_⟩
    rcases List.mem_append.mp h with h | h
    · exact hevs i f status h
    · exact he i f status (List.mem_singleton.mp h).symm

end Server

end Edriel
