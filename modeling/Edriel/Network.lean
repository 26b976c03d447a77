import Edriel.Ledger
import Edriel.WindowOrder

/-!
A publisher with the streams to its subscribers and the receivers at their far
ends.  gRPC is a lossless FIFO for each stream.
-/

namespace Edriel

open Proto3 Std Interleaving

/-- `streams i` holds the frames of stream `i` that gRPC has taken and its client
has not read.  `receivers i` is the reliable half of the node that dialed it. -/
structure Network (N : Nat) where
  server : Server N
  streams : Nat → List OutFrame := fun _ => []
  receivers : Nat → ReliableReceiver

inductive NetworkAction where
  | server (a : ServerAction)
  | read (i : Nat)

inductive NetworkEvent where
  | server (e : ServerEvent)
  | read (i : Nat) (f : OutFrame) (dispatched : List DataMessage)

/-- The frame that an event hands to gRPC on stream `i`. -/
def ServerEvent.wired (i : Nat) : ServerEvent → List OutFrame
  | .reactor j (.startWrite frame) => if j = i then frame.toList else []
  | _ => []

def NetworkEvent.served : NetworkEvent → List ServerEvent
  | .server e => [e]
  | .read _ _ _ => []

def NetworkEvent.readOff (i : Nat) : NetworkEvent → List OutFrame
  | .server _ => []
  | .read j f _ => if j = i then [f] else []

/-- The payloads that an event gives to the callbacks of the client on stream `i`. -/
def NetworkEvent.payloads (i : Nat) : NetworkEvent → List Bytes
  | .server _ => []
  | .read j _ dispatched => if j = i then dispatched.map (·.payload) else []

def served (evs : List NetworkEvent) : List ServerEvent :=
  evs.flatMap NetworkEvent.served

def readFrames (i : Nat) (evs : List NetworkEvent) : List OutFrame :=
  evs.flatMap (NetworkEvent.readOff i)

def delivered (i : Nat) (evs : List NetworkEvent) : List Bytes :=
  evs.flatMap (NetworkEvent.payloads i)

def acceptedPayloads (i : Nat) (evs : List NetworkEvent) : List Bytes :=
  (takenData i (served evs)).map (·.payload)

theorem served_concat (evs : List NetworkEvent) (e : NetworkEvent) :
    served (evs ++ [e]) = served evs ++ e.served := by
  rw [served, List.flatMap_append, List.flatMap_singleton, served]

theorem readFrames_concat (i : Nat) (evs : List NetworkEvent) (e : NetworkEvent) :
    readFrames i (evs ++ [e]) = readFrames i evs ++ e.readOff i := by
  rw [readFrames, List.flatMap_append, List.flatMap_singleton, readFrames]

theorem delivered_concat (i : Nat) (evs : List NetworkEvent) (e : NetworkEvent) :
    delivered i (evs ++ [e]) = delivered i evs ++ e.payloads i := by
  rw [delivered, List.flatMap_append, List.flatMap_singleton, delivered]

namespace Network

variable {N : Nat}

def init (me : Identity) (config : Config) (maxFrames hwm lwm : Nat)
    (receivers : Nat → ReliableReceiver) : Network N :=
  { server := .init (.fresh me config) maxFrames hwm lwm, receivers }

variable [NeZero N]

def step (w : Network N) : NetworkAction → Option (NetworkEvent × Network N)
  | .server a =>
      (w.server.step a).map fun p =>
        (.server p.1,
          { w with server := p.2, streams := fun i => w.streams i ++ p.1.wired i })
  | .read i =>
      match w.streams i with
      | [] => none
      | f :: fs =>
          let handled := (w.receivers i).handleReliableDataFrame f.participantData
          some (.read i f handled.1,
            { w with
              streams := Function.update w.streams i fs
              receivers := Function.update w.receivers i handled.2 })

/-- Nothing is left between the outbox of stream `i` and its client. -/
structure Drained (w : Network N) (i : Nat) : Prop where
  outbox : (w.server.rpcs i).reactor.outbox = []
  claimed : (w.server.rpcs i).claimed = []
  stream : w.streams i = []

inductive Stepped (w : Network N) : NetworkEvent → Network N → Prop
  | server {a : ServerAction} {e : ServerEvent} {s : Server N}
      (hstep : w.server.step a = some (e, s)) :
      Stepped w (.server e)
        { w with server := s, streams := fun i => w.streams i ++ e.wired i }
  | read {i : Nat} {f : OutFrame} {fs : List OutFrame} (hstream : w.streams i = f :: fs) :
      Stepped w
        (.read i f ((w.receivers i).handleReliableDataFrame f.participantData).1)
        { w with
          streams := Function.update w.streams i fs
          receivers := Function.update w.receivers i
            ((w.receivers i).handleReliableDataFrame f.participantData).2 }

theorem stepped_of_step {w w' : Network N} {a : NetworkAction} {e : NetworkEvent}
    (h : w.step a = some (e, w')) : Stepped w e w' := by
  cases a with
  | server a =>
      obtain ⟨⟨e', s⟩, hstep, hp⟩ := Option.map_eq_some_iff.mp h
      obtain ⟨rfl, rfl⟩ := Prod.mk.inj hp
      exact .server hstep
  | read i =>
      simp only [step] at h
      split at h
      · cases h
      · rename_i f fs hstream
        have hread := Option.some.inj h
        obtain rfl : NetworkEvent.read i f _ = e := congrArg Prod.fst hread
        obtain rfl := congrArg Prod.snd hread
        exact .read hstream

theorem trace_server {okServer : Server N → ServerAction → Prop}
    {ok : Network N → NetworkAction → Prop}
    (hok : ∀ w a, ok w (.server a) → okServer w.server a) {w₀ w : Network N}
    {evs : List NetworkEvent} (h : Trace (StepsWhere ok step) w₀ evs w) :
    Trace (StepsWhere okServer Server.step) w₀.server (served evs) w.server := by
  refine Trace.project (fun w => w.server) NetworkEvent.served ?_ h
  rintro evs w e w' - ⟨a, ha, hstep⟩
  cases a with
  | server a =>
      obtain ⟨⟨e', s⟩, hserver, hp⟩ := Option.map_eq_some_iff.mp hstep
      obtain ⟨rfl, rfl⟩ := Prod.mk.inj hp
      exact .single ⟨a, hok w a ha, hserver⟩
  | read i =>
      simp only [step] at hstep
      split at hstep
      · cases hstep
      · have hread := Option.some.inj hstep
        obtain rfl : NetworkEvent.read i _ _ = e := congrArg Prod.fst hread
        obtain rfl := congrArg Prod.snd hread
        exact .nil

end Network

end Edriel
