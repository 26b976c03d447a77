import Edriel.BestEffort

/-!
The threads of the receive pipeline: `startAutoDiscovery` spawns a worker for each ring and a
receiver, and `stopAutoDiscovery` closes the socket and the rings and joins them all.  The
datagrams come in beside them, through handlers that run on the caller's `io_context`.
-/

namespace Edriel

open Proto3 BoundedQueue Interleaving

/-- Where the thread is that calls `startAutoDiscovery` and `stopAutoDiscovery`. -/
inductive CallerPoint where
  | idle
  | starting
  | spawning (k : Nat)
  | spawningReceiver
  | stopping
  | shut
  | closing (k : Nat)
  | joining (k : Nat)
  | joiningReceiver
deriving DecidableEq

namespace CallerPoint

def stops : CallerPoint → Bool
  | .idle => false
  | .starting => false
  | .spawning _ => false
  | .spawningReceiver => false
  | _ => true

/-- The caller has closed the socket in the call that it is in. -/
def hasShut : CallerPoint → Bool
  | .stopping => false
  | p => p.stops

def joins : CallerPoint → Bool
  | .closing _ => true
  | .joining _ => true
  | .joiningReceiver => true
  | _ => false

/-- How many steps the caller is from the end of the stop, with `n` workers to join. -/
def work (n : Nat) : CallerPoint → Nat
  | .shut => 4 + 2 * n
  | .closing k => 3 + n + (n - k)
  | .joining k => 2 + (n - k)
  | .joiningReceiver => 1
  | _ => 0

end CallerPoint

/-- A thread object that can be joined has a thread in its loop, or one that has left it. -/
inductive ThreadPoint where
  | absent
  | running
  | left
deriving DecidableEq

def ThreadPoint.work : ThreadPoint → Nat
  | .running => 1
  | _ => 0

/-- A handler of `async_receive` waits for a datagram, has one in the buffer, or drains the
socket. -/
inductive HandlerPoint where
  | armed
  | holding (packet : Bytes)
  | draining

namespace HandlerPoint

def isHolding : HandlerPoint → Bool
  | .holding _ => true
  | _ => false

/-- How many steps a handler has before it once the socket is closed, and two for the frame
that it publishes. -/
def work : HandlerPoint → Nat
  | .holding _ => 4
  | _ => 1

end HandlerPoint

structure ReceivePipeline (N capacity : Nat) where
  reception : Reception N capacity
  isRunning : Bool := false
  pipelineStarted : Bool := false
  socketOpen : Bool := true
  caller : CallerPoint := .idle
  workers : Fin N → ThreadPoint := fun _ => .absent
  receiver : ThreadPoint := .absent
  handlers : List HandlerPoint := []

/-- A step of one thread.  `packet` is what the kernel gives the handler `k`, or `none` for an
error or an empty queue; `call` is the next step of the thread in the start or the stop. -/
inductive PipelineAction (N : Nat) where
  | start
  | stop
  | call
  | work (i : Fin N) (now : Int)
  | receiver
  | receive (k : Nat) (packet : Option Bytes)
  | deliver (k : Nat)
  | operation (op : Operation)

inductive PipelineEvent (N : Nat) where
  | ring (i : Fin N) (op : Op RawFrame)
  | handled (i : Fin N) (frame : RawFrame)
  | stopped
  /-- A thread object is assigned over that has not been joined. -/
  | terminated
  | internal

namespace PipelineEvent

variable {N : Nat}

def ringOp (i : Fin N) : PipelineEvent N → List (Op RawFrame)
  | .ring j op => if j = i then [op] else []
  | _ => []

def handledBy (i : Fin N) : PipelineEvent N → List RawFrame
  | .handled j frame => if j = i then [frame] else []
  | _ => []

end PipelineEvent

namespace ReceivePipeline

variable {N capacity : Nat} [NeZero N]

def fresh (me : Identity) (config : Config) : ReceivePipeline N capacity :=
  { reception := Reception.fresh me config }

def moveWorker (s : ReceivePipeline N capacity) (i : Fin N) (p : ThreadPoint) :
    Fin N → ThreadPoint :=
  Function.update s.workers i p

/-- `startReceivePipeline` and `stopReceivePipeline`, thread after thread. -/
def callStep (s : ReceivePipeline N capacity) :
    Option (PipelineEvent N × ReceivePipeline N capacity) :=
  match s.caller with
  | .idle => none
  | .starting =>
      if s.pipelineStarted then some (.internal, { s with caller := .idle })
      else some (.internal, { s with pipelineStarted := true, caller := .spawning 0 })
  | .spawning k =>
      if hk : k < N then
        match s.workers ⟨k, hk⟩ with
        | .absent =>
            some (.internal,
              { s with workers := s.moveWorker ⟨k, hk⟩ .running, caller := .spawning (k + 1) })
        | _ => some (.terminated, s)
      else
        some (.internal,
          { s with handlers := .armed :: s.handlers, caller := .spawningReceiver })
  | .spawningReceiver =>
      match s.receiver with
      | .absent => some (.internal, { s with receiver := .running, caller := .idle })
      | _ => some (.terminated, s)
  | .stopping => some (.internal, { s with socketOpen := false, caller := .shut })
  | .shut =>
      if s.pipelineStarted then
        some (.internal, { s with pipelineStarted := false, caller := .closing 0 })
      else some (.stopped, { s with caller := .idle })
  | .closing k =>
      if hk : k < N then
        some (.ring ⟨k, hk⟩ .close,
          { s with
            reception :=
              { s.reception with
                rings := Function.update s.reception.rings ⟨k, hk⟩
                  (s.reception.rings ⟨k, hk⟩).close }
            caller := .closing (k + 1) })
      else some (.internal, { s with caller := .joining 0 })
  | .joining k =>
      if hk : k < N then
        match s.workers ⟨k, hk⟩ with
        | .running => none
        | _ =>
            some (.internal,
              { s with workers := s.moveWorker ⟨k, hk⟩ .absent, caller := .joining (k + 1) })
      else some (.internal, { s with caller := .joiningReceiver })
  | .joiningReceiver =>
      match s.receiver with
      | .running => none
      | _ => some (.stopped, { s with receiver := .absent, caller := .idle })

/-- `autoDiscoveryWorkerLoop`.  A pop that waits is not enabled. -/
def workStep (decodes : Bytes → Bytes → Bool) (s : ReceivePipeline N capacity) (i : Fin N)
    (now : Int) : Option (PipelineEvent N × ReceivePipeline N capacity) :=
  match s.workers i with
  | .running =>
      match s.reception.hands i with
      | some frame =>
          some (.handled i frame, { s with reception := s.reception.handle decodes i now })
      | none =>
          match (s.reception.rings i).pop.1 with
          | .waits => none
          | .item _ => some (.ring i .pop, { s with reception := s.reception.pop i })
          | .null =>
              some (.ring i .pop,
                { s with
                  reception := s.reception.pop i
                  workers := s.moveWorker i .left })
  | _ => none

/-- `autoDiscoveryReceiverLoop`.  The socket is not one of `receiverIo_`, which has no work, so
`run()` comes back at once. -/
def receiverStep (s : ReceivePipeline N capacity) :
    Option (PipelineEvent N × ReceivePipeline N capacity) :=
  match s.receiver with
  | .running => some (.internal, { s with receiver := .left })
  | _ => none

/-- The receive of a handler completes, or its `recvmsg` returns.  A closed socket gives no
datagram, and where the drain ends the handler arms the next receive or is gone. -/
def receiveStep (s : ReceivePipeline N capacity) (k : Nat) (packet : Option Bytes) :
    Option (PipelineEvent N × ReceivePipeline N capacity) :=
  match pick k s.handlers, packet with
  | some (.armed, rest), none => some (.internal, { s with handlers := rest })
  | some (.draining, rest), none =>
      some (.internal, { s with handlers := if s.isRunning then .armed :: rest else rest })
  | some (.armed, rest), some packet =>
      if s.socketOpen then some (.internal, { s with handlers := .holding packet :: rest })
      else none
  | some (.draining, rest), some packet =>
      if s.socketOpen then some (.internal, { s with handlers := .holding packet :: rest })
      else none
  | _, _ => none

/-- `handleReceivedDatagram`, whether the socket is still open or not. -/
def delivered (s : ReceivePipeline N capacity) (packet : Bytes) (rest : List HandlerPoint) :
    PipelineEvent N × ReceivePipeline N capacity :=
  (match datagramBody packet with
    | none => .internal
    | some body =>
        match Reception.target body with
        | none => .internal
        | some i => .ring i (.publish (some (s.reception.arrivals, body))),
    { s with
      reception := s.reception.handleReceivedDatagram packet
      handlers := .draining :: rest })

def deliverStep (s : ReceivePipeline N capacity) (k : Nat) :
    Option (PipelineEvent N × ReceivePipeline N capacity) :=
  match pick k s.handlers with
  | some (.holding packet, rest) => some (s.delivered packet rest)
  | _ => none

def step (decodes : Bytes → Bytes → Bool) (s : ReceivePipeline N capacity) :
    PipelineAction N → Option (PipelineEvent N × ReceivePipeline N capacity)
  | .start =>
      match s.caller with
      | .idle =>
          if s.isRunning then some (.internal, s)
          else some (.internal, { s with isRunning := true, caller := .starting })
      | _ => none
  | .stop =>
      match s.caller with
      | .idle => some (.internal, { s with isRunning := false, caller := .stopping })
      | _ => none
  | .call => s.callStep
  | .work i now => s.workStep decodes i now
  | .receiver => s.receiverStep
  | .receive k packet => s.receiveStep k packet
  | .deliver k => s.deliverStep k
  | .operation op =>
      some (.internal,
        { s with reception := { s.reception with node := s.reception.node.apply op } })

inductive Calling (s : ReceivePipeline N capacity) :
    PipelineEvent N → ReceivePipeline N capacity → Prop
  | again (hcaller : s.caller = .starting) (hstarted : s.pipelineStarted = true) :
      Calling s .internal { s with caller := .idle }
  | begin (hcaller : s.caller = .starting) (hstarted : s.pipelineStarted = false) :
      Calling s .internal { s with pipelineStarted := true, caller := .spawning 0 }
  | spawn (i : Fin N) (hcaller : s.caller = .spawning i) (hworker : s.workers i = .absent) :
      Calling s .internal
        { s with workers := s.moveWorker i .running, caller := .spawning (i + 1) }
  | arm (k : Nat) (hcaller : s.caller = .spawning k) (hk : N ≤ k) :
      Calling s .internal
        { s with handlers := .armed :: s.handlers, caller := .spawningReceiver }
  | spawnReceiver (hcaller : s.caller = .spawningReceiver) (hreceiver : s.receiver = .absent) :
      Calling s .internal { s with receiver := .running, caller := .idle }
  | clash (hthread : (∃ i : Fin N, s.caller = .spawning i ∧ s.workers i ≠ .absent) ∨
        s.caller = .spawningReceiver ∧ s.receiver ≠ .absent) :
      Calling s .terminated s
  | shut (hcaller : s.caller = .stopping) :
      Calling s .internal { s with socketOpen := false, caller := .shut }
  | skip (hcaller : s.caller = .shut) (hstarted : s.pipelineStarted = false) :
      Calling s .stopped { s with caller := .idle }
  | halt (hcaller : s.caller = .shut) (hstarted : s.pipelineStarted = true) :
      Calling s .internal { s with pipelineStarted := false, caller := .closing 0 }
  | close (i : Fin N) (hcaller : s.caller = .closing i) :
      Calling s (.ring i .close)
        { s with
          reception :=
            { s.reception with
              rings := Function.update s.reception.rings i (s.reception.rings i).close }
          caller := .closing (i + 1) }
  | closed (k : Nat) (hcaller : s.caller = .closing k) (hk : N ≤ k) :
      Calling s .internal { s with caller := .joining 0 }
  | join (i : Fin N) (hcaller : s.caller = .joining i) (hworker : s.workers i ≠ .running) :
      Calling s .internal
        { s with workers := s.moveWorker i .absent, caller := .joining (i + 1) }
  | joined (k : Nat) (hcaller : s.caller = .joining k) (hk : N ≤ k) :
      Calling s .internal { s with caller := .joiningReceiver }
  | finish (hcaller : s.caller = .joiningReceiver) (hreceiver : s.receiver ≠ .running) :
      Calling s .stopped { s with receiver := .absent, caller := .idle }

/-- All that a step of the worker `i` can be. -/
inductive Working (decodes : Bytes → Bytes → Bool) (s : ReceivePipeline N capacity) (i : Fin N)
    (now : Int) : PipelineEvent N → ReceivePipeline N capacity → Prop
  | handle (frame : RawFrame) (hworker : s.workers i = .running)
      (hhand : s.reception.hands i = some frame) :
      Working decodes s i now (.handled i frame)
        { s with reception := s.reception.handle decodes i now }
  | take (frame : RawFrame) (hworker : s.workers i = .running) (hhand : s.reception.hands i = none)
      (hpop : (s.reception.rings i).pop.1 = .item frame) :
      Working decodes s i now (.ring i .pop) { s with reception := s.reception.pop i }
  | leave (hworker : s.workers i = .running) (hhand : s.reception.hands i = none)
      (hpop : (s.reception.rings i).pop.1 = .null) :
      Working decodes s i now (.ring i .pop)
        { s with reception := s.reception.pop i, workers := s.moveWorker i .left }

/-- All that a step of the handlers can be. -/
inductive Receiving (s : ReceivePipeline N capacity) :
    PipelineEvent N → ReceivePipeline N capacity → Prop
  | receive (k : Nat) (p : HandlerPoint) (rest : List HandlerPoint) (packet : Bytes)
      (hpick : pick k s.handlers = some (p, rest)) (hidle : p.isHolding = false)
      (hopen : s.socketOpen = true) :
      Receiving s .internal { s with handlers := .holding packet :: rest }
  | leave (k : Nat) (p : HandlerPoint) (rest : List HandlerPoint)
      (hpick : pick k s.handlers = some (p, rest)) (hidle : p.isHolding = false) :
      Receiving s .internal { s with handlers := rest }
  | rearm (k : Nat) (rest : List HandlerPoint)
      (hpick : pick k s.handlers = some (.draining, rest)) (hrunning : s.isRunning = true) :
      Receiving s .internal { s with handlers := .armed :: rest }
  | deliver (k : Nat) (packet : Bytes) (rest : List HandlerPoint)
      (hpick : pick k s.handlers = some (.holding packet, rest)) :
      Receiving s (s.delivered packet rest).1 (s.delivered packet rest).2

variable {decodes : Bytes → Bytes → Bool} {s s' : ReceivePipeline N capacity}
  {e : PipelineEvent N}

omit [NeZero N] in
theorem calling_of_callStep (h : s.callStep = some (e, s')) : Calling s e s' := by
  rw [callStep] at h
  split at h
  · cases h
  · rename_i hcaller
    split at h
    · rename_i hstarted
      cases h
      exact .again hcaller hstarted
    · rename_i hstarted
      cases h
      exact .begin hcaller (Bool.eq_false_iff.mpr hstarted)
  · rename_i k hcaller
    split at h
    · rename_i hk
      split at h
      · rename_i hworker
        cases h
        exact .spawn ⟨k, hk⟩ hcaller hworker
      · rename_i hworker
        cases h
        exact .clash (.inl ⟨⟨k, hk⟩, hcaller, hworker⟩)
    · rename_i hk
      cases h
      exact .arm k hcaller (Nat.le_of_not_lt hk)
  · rename_i hcaller
    split at h
    · rename_i hreceiver
      cases h
      exact .spawnReceiver hcaller hreceiver
    · rename_i hreceiver
      cases h
      exact .clash (.inr ⟨hcaller, hreceiver⟩)
  · rename_i hcaller
    cases h
    exact .shut hcaller
  · rename_i hcaller
    split at h
    · rename_i hstarted
      cases h
      exact .halt hcaller hstarted
    · rename_i hstarted
      cases h
      exact .skip hcaller (Bool.eq_false_iff.mpr hstarted)
  · rename_i k hcaller
    split at h
    · rename_i hk
      cases h
      exact .close ⟨k, hk⟩ hcaller
    · rename_i hk
      cases h
      exact .closed k hcaller (Nat.le_of_not_lt hk)
  · rename_i k hcaller
    split at h
    · rename_i hk
      split at h
      · cases h
      · rename_i hworker
        cases h
        exact .join ⟨k, hk⟩ hcaller hworker
    · rename_i hk
      cases h
      exact .joined k hcaller (Nat.le_of_not_lt hk)
  · rename_i hcaller
    split at h
    · cases h
    · rename_i hreceiver
      cases h
      exact .finish hcaller hreceiver

theorem working_of_workStep {i : Fin N} {now : Int} (h : s.workStep decodes i now = some (e, s')) :
    Working decodes s i now e s' := by
  rw [workStep] at h
  split at h
  · rename_i hworker
    split at h
    · rename_i frame hhand
      cases h
      exact .handle frame hworker hhand
    · rename_i hhand
      split at h
      · cases h
      · rename_i frame hpop
        cases h
        exact .take frame hworker hhand hpop
      · rename_i hpop
        cases h
        exact .leave hworker hhand hpop
  · cases h

omit [NeZero N] in
theorem running_of_receiverStep (h : s.receiverStep = some (e, s')) :
    s.receiver = .running ∧ e = .internal ∧ s' = { s with receiver := .left } := by
  rw [receiverStep] at h
  split at h
  · rename_i hreceiver
    cases h
    exact ⟨hreceiver, rfl, rfl⟩
  · cases h

theorem receiving_of_receiveStep {k : Nat} {packet : Option Bytes}
    (h : s.receiveStep k packet = some (e, s')) : Receiving s e s' := by
  rw [receiveStep.eq_def] at h
  split at h
  · rename_i rest hpick
    cases h
    exact .leave k .armed rest hpick rfl
  · rename_i rest hpick
    cases h
    by_cases hrunning : s.isRunning = true
    · rw [if_pos hrunning]
      exact .rearm k rest hpick hrunning
    · rw [if_neg hrunning]
      exact .leave k .draining rest hpick rfl
  · rename_i rest packet hpick
    split at h
    · rename_i hopen
      cases h
      exact .receive k .armed rest packet hpick rfl hopen
    · cases h
  · rename_i rest packet hpick
    split at h
    · rename_i hopen
      cases h
      exact .receive k .draining rest packet hpick rfl hopen
    · cases h
  · cases h

theorem receiving_of_deliverStep {k : Nat} (h : s.deliverStep k = some (e, s')) :
    Receiving s e s' := by
  rw [deliverStep] at h
  split at h
  · rename_i packet rest hpick
    cases h
    exact .deliver k packet rest hpick
  · cases h

inductive Turn (decodes : Bytes → Bytes → Bool) (s : ReceivePipeline N capacity) :
    PipelineEvent N → ReceivePipeline N capacity → Prop
  | stay (hcaller : s.caller = .idle) (hrunning : s.isRunning = true) : Turn decodes s .internal s
  | start (hcaller : s.caller = .idle) (hrunning : s.isRunning = false) :
      Turn decodes s .internal { s with isRunning := true, caller := .starting }
  | stop (hcaller : s.caller = .idle) :
      Turn decodes s .internal { s with isRunning := false, caller := .stopping }
  | call {e : PipelineEvent N} {s' : ReceivePipeline N capacity} (h : Calling s e s') :
      Turn decodes s e s'
  | work (i : Fin N) (now : Int) {e : PipelineEvent N} {s' : ReceivePipeline N capacity}
      (h : Working decodes s i now e s') : Turn decodes s e s'
  | receiver (hreceiver : s.receiver = .running) :
      Turn decodes s .internal { s with receiver := .left }
  | receive {e : PipelineEvent N} {s' : ReceivePipeline N capacity} (h : Receiving s e s') :
      Turn decodes s e s'
  | operation (op : Operation) :
      Turn decodes s .internal
        { s with reception := { s.reception with node := s.reception.node.apply op } }

theorem turn_of_step {a : PipelineAction N} (h : s.step decodes a = some (e, s')) :
    Turn decodes s e s' := by
  cases a with
  | start =>
      rw [step] at h
      split at h
      · rename_i hcaller
        split at h
        · rename_i hrunning
          cases h
          exact .stay hcaller hrunning
        · rename_i hrunning
          cases h
          exact .start hcaller (Bool.eq_false_iff.mpr hrunning)
      · cases h
  | stop =>
      rw [step] at h
      split at h
      · rename_i hcaller
        cases h
        exact .stop hcaller
      · cases h
  | call => exact .call (calling_of_callStep h)
  | work i now => exact .work i now (working_of_workStep h)
  | receiver =>
      obtain ⟨hreceiver, rfl, rfl⟩ := running_of_receiverStep h
      exact .receiver hreceiver
  | receive k packet => exact .receive (receiving_of_receiveStep h)
  | deliver k => exact .receive (receiving_of_deliverStep h)
  | operation op =>
      cases h
      exact .operation op

/-- All that a step can do to the rings and to the hands of the workers. -/
inductive Moves (decodes : Bytes → Bytes → Bool) (r : Reception N capacity) :
    PipelineEvent N → Reception N capacity → Prop
  | along (re : ReceptionEvent N) {e : PipelineEvent N}
      (hops : ∀ i, e.ringOp i = r.ringOp i re) (hhandled : ∀ i, e.handledBy i = r.handledBy i re) :
      Moves decodes r e (r.step decodes re)
  | still {e : PipelineEvent N} (hops : ∀ i, e.ringOp i = []) (hhandled : ∀ i, e.handledBy i = []) :
      Moves decodes r e r
  | close (i : Fin N) :
      Moves decodes r (.ring i .close)
        { r with rings := Function.update r.rings i (r.rings i).close }

theorem Working.moves {i : Fin N} {now : Int} (h : Working decodes s i now e s') :
    Moves decodes s.reception e s'.reception := by
  have hpops : s.reception.hands i = none →
      Moves decodes s.reception (.ring i .pop) (s.reception.pop i) := by
    intro hhand
    refine .along (.pop i) (fun j => ?_) fun j => rfl
    rw [PipelineEvent.ringOp, Reception.ringOp]
    by_cases hij : i = j
    · subst hij
      rw [if_pos rfl, if_pos ⟨rfl, hhand⟩]
    · rw [if_neg hij, if_neg (fun h => hij h.1)]
  cases h with
  | handle frame hworker hhand =>
      refine .along (.handle i now) (fun j => rfl) fun j => ?_
      rw [PipelineEvent.handledBy, Reception.handledBy]
      by_cases hij : i = j
      · subst hij
        rw [if_pos rfl, if_pos rfl, hhand]
        rfl
      · rw [if_neg hij, if_neg hij]
  | take frame hworker hhand hpop => exact hpops hhand
  | leave hworker hhand hpop => exact hpops hhand

theorem delivered_cases (s : ReceivePipeline N capacity) (packet : Bytes)
    (rest : List HandlerPoint) :
    ((s.delivered packet rest).1 = .internal ∧
        ∀ i, s.reception.ringOp i (.datagram packet) = []) ∨
      ∃ j item, (s.delivered packet rest).1 = .ring j (.publish item) ∧
        ∀ i, s.reception.ringOp i (.datagram packet) =
          if j = i then [.publish item] else [] := by
  simp only [delivered, Reception.ringOp]
  cases datagramBody packet with
  | none => exact .inl ⟨rfl, fun _ => rfl⟩
  | some body =>
      dsimp only
      cases Reception.target (N := N) body with
      | none => exact .inl ⟨rfl, fun _ => rfl⟩
      | some j =>
          refine .inr ⟨j, _, rfl, fun i => ?_⟩
          simp only [Option.some.injEq]

theorem moves_delivered (s : ReceivePipeline N capacity) (packet : Bytes)
    (rest : List HandlerPoint) :
    Moves decodes s.reception (s.delivered packet rest).1
      (s.delivered packet rest).2.reception := by
  rcases delivered_cases s packet rest with ⟨hevent, hops⟩ | ⟨j, item, hevent, hops⟩
  · rw [hevent]
    exact .along (.datagram packet) (fun i => (hops i).symm) fun _ => rfl
  · rw [hevent]
    exact .along (.datagram packet) (fun i => (hops i).symm) fun _ => rfl

theorem Turn.moves (h : Turn decodes s e s') : Moves decodes s.reception e s'.reception := by
  cases h with
  | call h =>
      cases h with
      | close i hcaller => exact .close i
      | _ => exact .still (fun _ => rfl) fun _ => rfl
  | work i now h => exact h.moves
  | receive h =>
      cases h with
      | deliver k packet rest hpick => exact moves_delivered s packet rest
      | _ => exact .still (fun _ => rfl) fun _ => rfl
  | operation op => exact .along (.operation op) (fun _ => rfl) fun _ => rfl
  | _ => exact .still (fun _ => rfl) fun _ => rfl

variable {r r' : Reception N capacity}

theorem Moves.rings (h : Moves decodes r e r') (i : Fin N) :
    r'.rings i = after SpscRing.step (r.rings i) (e.ringOp i) := by
  cases h with
  | along re hops hhandled => rw [hops, Reception.rings_step]
  | still hops hhandled => rw [hops, after]
  | close j =>
      rw [PipelineEvent.ringOp]
      by_cases hij : j = i
      · subst hij
        rw [if_pos rfl]
        exact Function.update_self _ _ _
      · rw [if_neg hij]
        exact Function.update_of_ne (Ne.symm hij) _ _

theorem Moves.hands (h : Moves decodes r e r') (i : Fin N) :
    (r.hands i).toList ++ returned SpscRing.step (r.rings i) (e.ringOp i) =
      e.handledBy i ++ (r'.hands i).toList := by
  cases h with
  | along re hops hhandled => rw [hops, hhandled, Reception.returned_step]
  | still hops hhandled =>
      rw [hops, hhandled]
      exact List.append_nil _
  | close j =>
      have hnone : returned SpscRing.step (r.rings i)
          ((PipelineEvent.ring j .close).ringOp i) = [] := by
        rw [PipelineEvent.ringOp]
        split <;> rfl
      rw [hnone]
      exact List.append_nil _

theorem Moves.published (h : Moves decodes r e r') (i : Fin N) :
    published (e.ringOp i) = [] ∧ r.arrivals ≤ r'.arrivals ∨
      (∃ body, published (e.ringOp i) = [(r.arrivals, body)]) ∧ r'.arrivals = r.arrivals + 1 := by
  cases h with
  | along re hops hhandled =>
      rw [hops]
      exact Reception.published_ringOp decodes r i re
  | still hops hhandled =>
      rw [hops]
      exact .inl ⟨rfl, le_rfl⟩
  | close j =>
      refine .inl ⟨?_, le_rfl⟩
      rw [PipelineEvent.ringOp]
      split <;> rfl

def opsOn (i : Fin N) (log : List (PipelineEvent N)) : List (Op RawFrame) :=
  log.flatMap (PipelineEvent.ringOp i)

def handledOn (i : Fin N) (log : List (PipelineEvent N)) : List RawFrame :=
  log.flatMap (PipelineEvent.handledBy i)

/-- The ring of a shard is what the run has made of it, and its worker has handled what it has
taken, but for the frame in its hand. -/
structure Kept (s : ReceivePipeline N capacity) (i : Fin N) (log : List (PipelineEvent N)) :
    Prop where
  ring : s.reception.rings i = SpscRing.ring capacity (opsOn i log)
  hand : returned SpscRing.step ({} : SpscRing RawFrame capacity) (opsOn i log) =
    handledOn i log ++ (s.reception.hands i).toList
  arrivals : ∀ f ∈ published (opsOn i log), f.1 < s.reception.arrivals
  nodup : (published (opsOn i log)).Nodup

theorem Kept.moves {i : Fin N} {log : List (PipelineEvent N)} (h : s.Kept i log)
    (hmoves : Moves decodes s.reception e s'.reception) : s'.Kept i (log ++ [e]) := by
  have hops : opsOn i (log ++ [e]) = opsOn i log ++ e.ringOp i := by
    rw [opsOn, List.flatMap_append, List.flatMap_singleton, opsOn]
  have hhandled : handledOn i (log ++ [e]) = handledOn i log ++ e.handledBy i := by
    rw [handledOn, List.flatMap_append, List.flatMap_singleton, handledOn]
  have hring : SpscRing.ring capacity (opsOn i log) = s.reception.rings i := h.ring.symm
  rw [SpscRing.ring] at hring
  constructor
  case ring => rw [hops, SpscRing.ring, after_append, hring, hmoves.rings]
  case hand =>
    rw [hops, returned_append, h.hand, hring, List.append_assoc, hmoves.hands, hhandled,
      List.append_assoc]
  case arrivals =>
    rw [hops, published_append]
    intro f hf
    rcases hmoves.published i with ⟨hnone, hle⟩ | ⟨⟨body, hone⟩, hnext⟩
    · rw [hnone, List.append_nil] at hf
      exact (h.arrivals f hf).trans_le hle
    · rw [hone] at hf
      rcases List.mem_append.mp hf with hf | hf
      · have := h.arrivals f hf
        omega
      · rw [List.mem_singleton.mp hf, hnext]
        exact Nat.lt_succ_self _
  case nodup =>
    rw [hops, published_append]
    rcases hmoves.published i with ⟨hnone, hle⟩ | ⟨⟨body, hone⟩, hnext⟩
    · rw [hnone, List.append_nil]
      exact h.nodup
    · rw [hone]
      refine List.nodup_append'.mpr ⟨h.nodup, List.nodup_singleton _, fun f hf hmem => ?_⟩
      have hlt := h.arrivals f hf
      rw [List.mem_singleton.mp hmem] at hlt
      exact absurd hlt (lt_irrefl _)

/-- What the place of the caller says about the threads. -/
structure Inv (s : ReceivePipeline N capacity) : Prop where
  stops : s.caller.stops = true → s.isRunning = false
  hasShut : s.caller.hasShut = true → s.socketOpen = false
  started : s.caller.joins = true → s.pipelineStarted = false
  unstarted : s.pipelineStarted = false → s.caller.joins = false →
    s.receiver = .absent ∧ ∀ i, s.workers i = .absent
  spawning : ∀ k, s.caller = .spawning k → s.pipelineStarted = true ∧ s.receiver = .absent ∧
    ∀ i : Fin N, s.workers i = .absent ↔ k ≤ i
  spawningReceiver : s.caller = .spawningReceiver →
    s.pipelineStarted = true ∧ s.receiver = .absent
  closing : ∀ k, s.caller = .closing k → ∀ i : Fin N, i < k → (s.reception.rings i).closed = true
  joining : ∀ k, s.caller = .joining k → ∀ i : Fin N, (s.reception.rings i).closed = true ∧
    (i < k → s.workers i = .absent)
  joiningReceiver : s.caller = .joiningReceiver → ∀ i : Fin N,
    (s.reception.rings i).closed = true ∧ s.workers i = .absent

omit [NeZero N] in
theorem inv_fresh (me : Identity) (config : Config) :
    (fresh me config : ReceivePipeline N capacity).Inv where
  stops := nofun
  hasShut := nofun
  started := nofun
  unstarted := fun _ _ => ⟨rfl, fun _ => rfl⟩
  spawning := nofun
  spawningReceiver := nofun
  closing := nofun
  joining := nofun
  joiningReceiver := nofun

omit [NeZero N] in
theorem forall_moveWorker (P : Fin N → ThreadPoint → Prop) {i : Fin N} {p : ThreadPoint}
    (hi : P i p) (hrest : ∀ j, j ≠ i → P j (s.workers j)) (j : Fin N) :
    P j (s.moveWorker i p j) := by
  rw [moveWorker]
  by_cases hji : j = i
  · subst hji
    rw [Function.update_self]
    exact hi
  · rw [Function.update_of_ne hji]
    exact hrest j hji

theorem closed_after {T : Type} {ring : SpscRing T capacity} (hclosed : ring.closed = true)
    (ops : List (Op T)) : (after SpscRing.step ring ops).closed = true := by
  induction ops generalizing ring with
  | nil => exact hclosed
  | cons op ops ih =>
      refine ih ?_
      cases op with
      | publish item => rw [SpscRing.step, SpscRing.publish, hclosed, Bool.true_or, if_pos rfl,
          hclosed]
      | pop =>
          rw [SpscRing.step, SpscRing.pop]
          split <;> exact hclosed
      | tryPop =>
          rw [SpscRing.step, SpscRing.tryPop]
          split <;> exact hclosed
      | close => rfl

theorem Turn.closed (h : Turn decodes s e s') {i : Fin N}
    (hclosed : (s.reception.rings i).closed = true) : (s'.reception.rings i).closed = true := by
  rw [h.moves.rings]
  exact closed_after hclosed _

omit [NeZero N] in
theorem Inv.calling (h : s.Inv) (hcalling : Calling s e s') : s'.Inv := by
  cases hcalling with
  | again hcaller hstarted =>
      refine ⟨nofun, nofun, nofun, fun hnot _ => ?_, nofun, nofun, nofun, nofun, nofun⟩
      cases hstarted.symm.trans hnot
  | begin hcaller hstarted =>
      obtain ⟨hreceiver, hworkers⟩ := h.unstarted hstarted (by rw [hcaller]; rfl)
      refine ⟨nofun, nofun, nofun, nofun, ?_, nofun, nofun, nofun, nofun⟩
      rintro k hk
      obtain rfl := CallerPoint.spawning.inj hk
      exact ⟨rfl, hreceiver, fun i => ⟨fun _ => Nat.zero_le _, fun _ => hworkers i⟩⟩
  | spawn i hcaller hworker =>
      obtain ⟨hstarted, hreceiver, hworkers⟩ := h.spawning _ hcaller
      refine ⟨nofun, nofun, nofun, fun hnot => ?_, ?_, nofun, nofun, nofun, nofun⟩
      · cases hstarted.symm.trans hnot
      rintro k hk
      obtain rfl := CallerPoint.spawning.inj hk
      refine ⟨hstarted, hreceiver, forall_moveWorker (fun j p => p = .absent ↔ i.val + 1 ≤ j.val)
        ⟨nofun, fun hle => absurd hle (Nat.not_succ_le_self _)⟩ fun j hji => ?_⟩
      rw [hworkers]
      have hne := Fin.val_ne_of_ne hji
      omega
  | arm k hcaller hk =>
      obtain ⟨hstarted, hreceiver, -⟩ := h.spawning _ hcaller
      refine ⟨nofun, nofun, nofun, fun hnot => ?_, nofun, fun _ => ⟨hstarted, hreceiver⟩, nofun,
        nofun, nofun⟩
      cases hstarted.symm.trans hnot
  | spawnReceiver hcaller hreceiver =>
      obtain ⟨hstarted, -⟩ := h.spawningReceiver hcaller
      refine ⟨nofun, nofun, nofun, fun hnot => ?_, nofun, nofun, nofun, nofun, nofun⟩
      cases hstarted.symm.trans hnot
  | clash hthread => exact h
  | shut hcaller =>
      refine ⟨fun _ => h.stops (by rw [hcaller]; rfl), fun _ => rfl, nofun, fun hnot _ => ?_,
        nofun, nofun, nofun, nofun, nofun⟩
      exact h.unstarted hnot (by rw [hcaller]; rfl)
  | skip hcaller hstarted =>
      refine ⟨nofun, nofun, nofun, fun hnot _ => ?_, nofun, nofun, nofun, nofun, nofun⟩
      exact h.unstarted hnot (by rw [hcaller]; rfl)
  | halt hcaller hstarted =>
      refine ⟨fun _ => h.stops (by rw [hcaller]; rfl), fun _ => h.hasShut (by rw [hcaller]; rfl),
        fun _ => rfl, nofun, nofun, nofun, ?_, nofun, nofun⟩
      rintro k hk i hi
      obtain rfl := CallerPoint.closing.inj hk
      exact absurd hi (Nat.not_lt_zero _)
  | close i hcaller =>
      refine ⟨fun _ => h.stops (by rw [hcaller]; rfl), fun _ => h.hasShut (by rw [hcaller]; rfl),
        fun _ => h.started (by rw [hcaller]; rfl), nofun, nofun, nofun, ?_, nofun, nofun⟩
      rintro k hk j hj
      obtain rfl := CallerPoint.closing.inj hk
      dsimp only
      by_cases hji : j = i
      · subst hji
        rw [Function.update_self]
        rfl
      · rw [Function.update_of_ne hji]
        have hne := Fin.val_ne_of_ne hji
        exact h.closing _ hcaller j (by omega)
  | closed k hcaller hk =>
      refine ⟨fun _ => h.stops (by rw [hcaller]; rfl), fun _ => h.hasShut (by rw [hcaller]; rfl),
        fun _ => h.started (by rw [hcaller]; rfl), nofun, nofun, nofun, nofun, ?_, nofun⟩
      rintro k' hk' i
      obtain rfl := CallerPoint.joining.inj hk'
      exact ⟨h.closing _ hcaller i (i.isLt.trans_le hk), fun hi => absurd hi (Nat.not_lt_zero _)⟩
  | join i hcaller hworker =>
      refine ⟨fun _ => h.stops (by rw [hcaller]; rfl), fun _ => h.hasShut (by rw [hcaller]; rfl),
        fun _ => h.started (by rw [hcaller]; rfl), nofun, nofun, nofun, nofun, ?_, nofun⟩
      rintro k hk j
      obtain rfl := CallerPoint.joining.inj hk
      refine ⟨(h.joining _ hcaller j).1, ?_⟩
      refine forall_moveWorker (fun j p => j.val < i.val + 1 → p = .absent) (fun _ => rfl)
        (fun j hji hj => ?_) j
      have hne := Fin.val_ne_of_ne hji
      exact (h.joining _ hcaller j).2 (by omega)
  | joined k hcaller hk =>
      refine ⟨fun _ => h.stops (by rw [hcaller]; rfl), fun _ => h.hasShut (by rw [hcaller]; rfl),
        fun _ => h.started (by rw [hcaller]; rfl), nofun, nofun, nofun, nofun, nofun,
        fun _ i => ?_⟩
      obtain ⟨hclosed, habsent⟩ := h.joining _ hcaller i
      exact ⟨hclosed, habsent (i.isLt.trans_le hk)⟩
  | finish hcaller hreceiver =>
      exact ⟨nofun, nofun, nofun, fun _ _ => ⟨rfl, fun i => (h.joiningReceiver hcaller i).2⟩,
        nofun, nofun, nofun, nofun, nofun⟩

/-- What a step of a thread of the pipeline leaves as it is. -/
structure Beside (s s' : ReceivePipeline N capacity) : Prop where
  caller : s'.caller = s.caller
  isRunning : s'.isRunning = s.isRunning
  pipelineStarted : s'.pipelineStarted = s.pipelineStarted
  socketOpen : s'.socketOpen = s.socketOpen
  receiver : s'.receiver = .absent ↔ s.receiver = .absent
  workers : ∀ i, s'.workers i = .absent ↔ s.workers i = .absent

theorem Working.beside {i : Fin N} {now : Int} (h : Working decodes s i now e s') :
    Beside s s' := by
  cases h with
  | leave hworker hhand hpop =>
      refine ⟨rfl, rfl, rfl, rfl, Iff.rfl, ?_⟩
      refine forall_moveWorker (fun j p => p = .absent ↔ s.workers j = .absent) ?_
        fun j _ => Iff.rfl
      rw [hworker]
      exact ⟨nofun, nofun⟩
  | _ => exact ⟨rfl, rfl, rfl, rfl, Iff.rfl, fun _ => Iff.rfl⟩

theorem Receiving.beside (h : Receiving s e s') : Beside s s' := by
  cases h <;> exact ⟨rfl, rfl, rfl, rfl, Iff.rfl, fun _ => Iff.rfl⟩

omit [NeZero N] in
theorem beside_receiver (hreceiver : s.receiver = .running) :
    Beside s { s with receiver := .left } := by
  refine ⟨rfl, rfl, rfl, rfl, ?_, fun _ => Iff.rfl⟩
  rw [hreceiver]
  exact ⟨nofun, nofun⟩

omit [NeZero N] in
theorem Inv.beside (h : s.Inv) (hbeside : Beside s s')
    (hclosed : ∀ i, (s.reception.rings i).closed = true → (s'.reception.rings i).closed = true) :
    s'.Inv := by
  obtain ⟨hcaller, hrunning, hstarted, hopen, hreceiver, hworkers⟩ := hbeside
  constructor
  case stops =>
    rw [hcaller, hrunning]
    exact h.stops
  case hasShut =>
    rw [hcaller, hopen]
    exact h.hasShut
  case started =>
    rw [hcaller, hstarted]
    exact h.started
  case unstarted =>
    rw [hcaller, hstarted]
    intro hnot hjoins
    obtain ⟨habsent, hall⟩ := h.unstarted hnot hjoins
    exact ⟨hreceiver.mpr habsent, fun i => (hworkers i).mpr (hall i)⟩
  case spawning =>
    rw [hcaller, hstarted]
    intro k hk
    obtain ⟨hpipeline, habsent, hall⟩ := h.spawning k hk
    exact ⟨hpipeline, hreceiver.mpr habsent, fun i => (hworkers i).trans (hall i)⟩
  case spawningReceiver =>
    rw [hcaller, hstarted]
    exact fun hk => (h.spawningReceiver hk).imp_right hreceiver.mpr
  case closing =>
    rw [hcaller]
    exact fun k hk i hi => hclosed i (h.closing k hk i hi)
  case joining =>
    rw [hcaller]
    intro k hk i
    obtain ⟨hring, hjoined⟩ := h.joining k hk i
    exact ⟨hclosed i hring, fun hi => (hworkers i).mpr (hjoined hi)⟩
  case joiningReceiver =>
    rw [hcaller]
    intro hk i
    obtain ⟨hring, habsent⟩ := h.joiningReceiver hk i
    exact ⟨hclosed i hring, (hworkers i).mpr habsent⟩

theorem Inv.turn (h : s.Inv) (hturn : Turn decodes s e s') : s'.Inv := by
  have hclosed := fun i => hturn.closed (i := i)
  cases hturn with
  | stay hcaller hrunning => exact h
  | start hcaller hrunning =>
      exact ⟨nofun, nofun, nofun, fun hnot _ => h.unstarted hnot (by rw [hcaller]; rfl),
        nofun, nofun, nofun, nofun, nofun⟩
  | stop hcaller =>
      exact ⟨fun _ => rfl, nofun, nofun, fun hnot _ => h.unstarted hnot (by rw [hcaller]; rfl),
        nofun, nofun, nofun, nofun, nofun⟩
  | call hcalling => exact h.calling hcalling
  | work i now hworking => exact h.beside hworking.beside hclosed
  | receiver hreceiver => exact h.beside (beside_receiver hreceiver) hclosed
  | receive hreceiving => exact h.beside hreceiving.beside hclosed
  | operation op => exact h.beside ⟨rfl, rfl, rfl, rfl, Iff.rfl, fun _ => Iff.rfl⟩ hclosed

variable {me : Identity} {config : Config} {log : List (PipelineEvent N)}

theorem inv_of_trace (h : Trace (Steps (step decodes)) (fresh me config) log s) : s.Inv := by
  refine Trace.invariant (P := fun _ s => s.Inv) (inv_fresh me config) ?_ h
  rintro log s e s' - hs ⟨a, -, hstep⟩
  exact hs.turn (turn_of_step hstep)

theorem kept_of_trace (h : Trace (Steps (step decodes)) (fresh me config) log s) (i : Fin N) :
    s.Kept i log := by
  refine Trace.invariant (P := fun log s => s.Kept i log) ⟨rfl, rfl, nofun, List.nodup_nil⟩ ?_ h
  rintro log s e s' - hs ⟨a, -, hstep⟩
  exact hs.moves (turn_of_step hstep).moves

end ReceivePipeline

end Edriel
