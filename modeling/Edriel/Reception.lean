import Edriel.Conservation
import Edriel.Lib.Interleaving
import Edriel.Subscriptions
import Edriel.WireCursor

/-!
Best-effort data on its way: the packet that one node multicasts, the receive
handler of another that routes it to a ring, and the workers that empty the rings
into callbacks.
-/

namespace Edriel

open Proto3 BoundedQueue

namespace Node

variable {N : Nat} [NeZero N]

omit [NeZero N] in
def dataMessage (n : Node N) (topicName messageType payload : Bytes) : DataMessage :=
  { identifier := some { pid := n.selfParticipant.pid.toUInt32
                         tid := n.selfParticipant.tid
                         uid := n.selfParticipant.uid }
    topicName, messageType, payload }

omit [NeZero N] in
def publishData (n : Node N) (topicName messageType payload : Bytes) : Option Bytes :=
  sendPacket (Message.dataMessage (n.dataMessage topicName messageType payload)).toFields

/-- The callbacks a data message invokes, in order.  `decodes` says whether the
generated pool knows a type and parses a payload as it; if not, none is invoked. -/
def handleDataMessageReceive (n : Node N) (decodes : Bytes → Bytes → Bool)
    (data : DataMessage) : List Callback :=
  if decodes data.messageType data.payload then n.matchedCallbacks data else []

/-- What the worker's loop does with a frame that it has popped. -/
def handleFrame (n : Node N) (decodes : Bytes → Bytes → Bool) (now : Int) (body : Bytes) :
    List Callback × Node N :=
  match Message.parse body with
  | none => ([], n)
  | some (.dataMessage data) => (n.handleDataMessageReceive decodes data, n)
  | some m => n.handleAutoDiscoveryParse now m

theorem handleFrame_of_apply {P : Node N → Prop}
    (hheartbeat : ∀ n now sender endpoints, P n → P (n.apply (.heartbeat now sender endpoints)))
    (hannouncement : ∀ n sender topicName messageType isPublisher, P n →
      P (n.apply (.announcement sender topicName messageType isPublisher)))
    {n : Node N} (h : P n) (decodes : Bytes → Bytes → Bool) (now : Int) (body : Bytes) :
    P (n.handleFrame decodes now body).2 := by
  rw [handleFrame]
  split
  · exact h
  · exact h
  · rw [handleAutoDiscoveryParse]
    split
    · exact h
    · exact hheartbeat _ _ _ _ h
    · exact h
    · exact hannouncement _ _ _ _ _ (hheartbeat _ _ _ _ h)

end Node

/-- A raw frame; two frames with the same bytes differ by their arrival. -/
abbrev RawFrame := Nat × Bytes

/-- The receiving side of a node: a ring for each shard, and in the hands of each
worker the frame it has popped and not handled yet. -/
structure Reception (N capacity : Nat) where
  node : Node N
  rings : Fin N → SpscRing RawFrame capacity := fun _ => {}
  hands : Fin N → Option RawFrame := fun _ => none
  arrivals : Nat := 0

/-- The turns of the receive handlers and of the workers, the operations that share
the registry with them, and `stopReceivePipeline`. -/
inductive ReceptionEvent (N : Nat) where
  | datagram (packet : Bytes)
  | pop (i : Fin N)
  | handle (i : Fin N) (now : Int)
  | operation (op : Operation)
  | stop

namespace Reception

variable {N capacity : Nat} [NeZero N]

def target (body : Bytes) : Option (Fin N) :=
  match tryReadRoutingKey body with
  | some composite => some (Node.shardIndexForTopic composite)
  | none =>
      match Message.parse body with
      | some (.identifier i) => some (Node.shardIndexForUid i.uid)
      | some (.dataMessage d) =>
          some (Node.shardIndexForTopic (makeCompositeKey d.topicName d.messageType))
      | some (.advertisement ad) =>
          some (Node.shardIndexForTopic
            (makeCompositeKey (ad.topic.getD {}).topicName (ad.topic.getD {}).messageType))
      | _ => none

def publish (s : Reception N capacity) (i : Fin N) (body : Bytes) : Reception N capacity :=
  { s with
    rings := Function.update s.rings i ((s.rings i).publish (some (s.arrivals, body)))
    arrivals := s.arrivals + 1 }

def handleReceivedDatagram (s : Reception N capacity) (packet : Bytes) :
    Reception N capacity :=
  match datagramBody packet with
  | none => s
  | some body =>
      match target body with
      | none => s
      | some i => s.publish i body

/-- A worker pops its next frame once it has handled the last one. -/
def pop (s : Reception N capacity) (i : Fin N) : Reception N capacity :=
  match s.hands i with
  | some _ => s
  | none =>
      { s with
        rings := Function.update s.rings i (s.rings i).pop.2
        hands := Function.update s.hands i (s.rings i).pop.1.object? }

def invoked (decodes : Bytes → Bytes → Bool) (s : Reception N capacity) (i : Fin N)
    (now : Int) : List Callback :=
  match s.hands i with
  | none => []
  | some frame => (s.node.handleFrame decodes now frame.2).1

def handle (decodes : Bytes → Bytes → Bool) (s : Reception N capacity) (i : Fin N)
    (now : Int) : Reception N capacity :=
  match s.hands i with
  | none => s
  | some frame =>
      { s with
        node := (s.node.handleFrame decodes now frame.2).2
        hands := Function.update s.hands i none }

def step (decodes : Bytes → Bytes → Bool) (s : Reception N capacity) :
    ReceptionEvent N → Reception N capacity
  | .datagram packet => s.handleReceivedDatagram packet
  | .pop i => s.pop i
  | .handle i now => s.handle decodes i now
  | .operation op => { s with node := s.node.apply op }
  | .stop => { s with rings := fun i => (s.rings i).close }

def run (decodes : Bytes → Bytes → Bool) (s : Reception N capacity)
    (events : List (ReceptionEvent N)) : Reception N capacity :=
  events.foldl (step decodes) s

/-- The callbacks registered for a topic along a run that starts with
`callbacks`. -/
def registered (decodes : Bytes → Bytes → Bool) (topicName messageType : Bytes) :
    Reception N capacity → List Nat → List (ReceptionEvent N) → List Nat
  | _, callbacks, [] => callbacks
  | s, callbacks, e :: events =>
      registered decodes topicName messageType (s.step decodes e)
        (match e with
          | .operation op => s.node.noteSubscription topicName messageType callbacks op
          | _ => callbacks) events

/-- The operation of an event on the ring of a shard. -/
def ringOp (s : Reception N capacity) (i : Fin N) : ReceptionEvent N → List (Op RawFrame)
  | .datagram packet =>
      match datagramBody packet with
      | none => []
      | some body => if target body = some i then [.publish (some (s.arrivals, body))] else []
  | .pop j => if j = i ∧ s.hands i = none then [.pop] else []
  | .handle _ _ => []
  | .operation _ => []
  | .stop => [.close]

def ringOps (decodes : Bytes → Bytes → Bool) (i : Fin N) :
    Reception N capacity → List (ReceptionEvent N) → List (Op RawFrame)
  | _, [] => []
  | s, e :: events => s.ringOp i e ++ ringOps decodes i (s.step decodes e) events

def handledBy (s : Reception N capacity) (i : Fin N) : ReceptionEvent N → List RawFrame
  | .handle j _ => if j = i then (s.hands i).toList else []
  | _ => []

def handled (decodes : Bytes → Bytes → Bool) (i : Fin N) :
    Reception N capacity → List (ReceptionEvent N) → List RawFrame
  | _, [] => []
  | s, e :: events => s.handledBy i e ++ handled decodes i (s.step decodes e) events

variable {decodes : Bytes → Bytes → Bool}

omit [NeZero N] in
theorem rings_publish (s : Reception N capacity) (i j : Fin N) (body : Bytes) :
    (s.publish j body).rings i =
      if j = i then (s.rings i).publish (some (s.arrivals, body)) else s.rings i := by
  by_cases hij : j = i
  · subst hij
    rw [if_pos rfl]
    exact Function.update_self _ _ _
  · rw [if_neg hij]
    exact Function.update_of_ne (Ne.symm hij) _ _

/-- A datagram is dropped, or published to the ring of its shard. -/
theorem datagram_cases (s : Reception N capacity) (packet : Bytes) :
    (s.handleReceivedDatagram packet = s ∧ ∀ i, s.ringOp i (.datagram packet) = []) ∨
      ∃ j body, s.handleReceivedDatagram packet = s.publish j body ∧
        ∀ i, s.ringOp i (.datagram packet) =
          if j = i then [.publish (some (s.arrivals, body))] else [] := by
  simp only [handleReceivedDatagram, ringOp]
  cases datagramBody packet with
  | none => exact .inl ⟨rfl, fun _ => rfl⟩
  | some body =>
      dsimp only
      cases target (N := N) body with
      | none => exact .inl ⟨rfl, fun _ => rfl⟩
      | some j =>
          refine .inr ⟨j, body, rfl, fun i => ?_⟩
          simp only [Option.some.injEq]

theorem rings_step (decodes : Bytes → Bytes → Bool) (s : Reception N capacity) (i : Fin N)
    (e : ReceptionEvent N) :
    (s.step decodes e).rings i = after SpscRing.step (s.rings i) (s.ringOp i e) := by
  cases e with
  | datagram packet =>
      rcases datagram_cases s packet with ⟨hsame, hops⟩ | ⟨j, body, hpublish, hops⟩
      · rw [step, hsame, hops]
        rfl
      · rw [step, hpublish, hops, rings_publish]
        split <;> rfl
  | pop j =>
      rw [step, pop, ringOp]
      by_cases hij : j = i
      · subst hij
        cases hhand : s.hands j with
        | some frame => rw [if_neg (by simp)]; rfl
        | none =>
            rw [if_pos ⟨rfl, rfl⟩]
            exact Function.update_self _ _ _
      · rw [if_neg (fun h => hij h.1)]
        split
        · rfl
        · exact Function.update_of_ne (Ne.symm hij) _ _
  | handle j now =>
      rw [step, handle]
      split <;> rfl
  | operation op => rfl
  | stop => rfl

/-- What a worker took is what it has handled and what it holds. -/
theorem returned_step (decodes : Bytes → Bytes → Bool) (s : Reception N capacity) (i : Fin N)
    (e : ReceptionEvent N) :
    (s.hands i).toList ++ returned SpscRing.step (s.rings i) (s.ringOp i e) =
      s.handledBy i e ++ ((s.step decodes e).hands i).toList := by
  cases e with
  | datagram packet =>
      have hhands : ((s.step decodes (.datagram packet)).hands i) = s.hands i := by
        rw [step, handleReceivedDatagram]
        split
        · rfl
        · split <;> rfl
      have hnone : returned SpscRing.step (s.rings i) (s.ringOp i (.datagram packet)) = [] := by
        rw [ringOp]
        split
        · rfl
        · split <;> rfl
      rw [hnone, hhands, List.append_nil]
      rfl
  | pop j =>
      have hnone : s.handledBy i (.pop j) = [] := rfl
      rw [step, pop, ringOp, hnone, List.nil_append]
      by_cases hij : j = i
      · subst hij
        cases hhand : s.hands j with
        | some frame => rw [if_neg (by simp), hhand]; rfl
        | none =>
            rw [if_pos ⟨rfl, rfl⟩]
            dsimp only
            rw [Function.update_self, returned, taken, taken, SpscRing.step]
            cases (s.rings j).pop.1 <;> rfl
      · rw [if_neg (fun h => hij h.1)]
        split
        · exact List.append_nil _
        · dsimp only
          rw [Function.update_of_ne (Ne.symm hij)]
          exact List.append_nil _
  | handle j now =>
      rw [step, handle, handledBy, ringOp]
      by_cases hij : j = i
      · subst hij
        cases hhand : s.hands j with
        | none => rw [hhand, if_pos rfl]; rfl
        | some frame =>
            dsimp only
            rw [Function.update_self, if_pos rfl]
            rfl
      · rw [if_neg hij]
        split
        · exact List.append_nil _
        · dsimp only
          rw [Function.update_of_ne (Ne.symm hij)]
          exact List.append_nil _
  | operation op => exact List.append_nil _
  | stop => exact List.append_nil _

theorem run_cons (s : Reception N capacity) (e : ReceptionEvent N)
    (events : List (ReceptionEvent N)) :
    s.run decodes (e :: events) = (s.step decodes e).run decodes events :=
  rfl

theorem rings_run (i : Fin N) (events : List (ReceptionEvent N)) :
    ∀ s : Reception N capacity, (s.run decodes events).rings i =
      after SpscRing.step (s.rings i) (ringOps decodes i s events) := by
  induction events with
  | nil => intro s; rfl
  | cons e events ih =>
      intro s
      rw [run_cons, ih, rings_step, ringOps, after_append]

theorem returned_run (decodes : Bytes → Bytes → Bool) (i : Fin N)
    (events : List (ReceptionEvent N)) :
    ∀ s : Reception N capacity,
      (s.hands i).toList ++ returned SpscRing.step (s.rings i) (ringOps decodes i s events) =
        handled decodes i s events ++ ((s.run decodes events).hands i).toList := by
  induction events with
  | nil => intro s; exact List.append_nil _
  | cons e events ih =>
      intro s
      rw [ringOps, returned_append, ← List.append_assoc, returned_step decodes,
        List.append_assoc, ← rings_step decodes, ih, handled, run_cons,
        List.append_assoc]

theorem ringOps_append (i : Fin N) (before later : List (ReceptionEvent N)) :
    ∀ s : Reception N capacity, ringOps decodes i s (before ++ later) =
      ringOps decodes i s before ++ ringOps decodes i (s.run decodes before) later := by
  induction before with
  | nil => intro s; rfl
  | cons e before ih =>
      intro s
      rw [List.cons_append, ringOps, ringOps, ih, List.append_assoc, run_cons]

theorem handled_append (i : Fin N) (before later : List (ReceptionEvent N)) :
    ∀ s : Reception N capacity, handled decodes i s (before ++ later) =
      handled decodes i s before ++ handled decodes i (s.run decodes before) later := by
  induction before with
  | nil => intro s; rfl
  | cons e before ih =>
      intro s
      rw [List.cons_append, handled, handled, ih, List.append_assoc, run_cons]

theorem length_ringOps_le (decodes : Bytes → Bytes → Bool) (i : Fin N)
    (events : List (ReceptionEvent N)) :
    ∀ s : Reception N capacity, (ringOps decodes i s events).length ≤ events.length := by
  induction events with
  | nil => intro s; exact le_rfl
  | cons e events ih =>
      intro s
      have hop : (s.ringOp i e).length ≤ 1 := by
        rw [ringOp.eq_def]
        split
        · split
          · exact Nat.zero_le _
          · split <;> simp
        · split <;> simp
        · exact Nat.zero_le _
        · exact Nat.zero_le _
        · exact le_rfl
      have hrest := ih (s.step decodes e)
      rw [ringOps, List.length_append, List.length_cons]
      omega

theorem published_ringOp (decodes : Bytes → Bytes → Bool) (s : Reception N capacity) (i : Fin N)
    (e : ReceptionEvent N) :
    published (s.ringOp i e) = [] ∧ s.arrivals ≤ (s.step decodes e).arrivals ∨
      (∃ body, published (s.ringOp i e) = [(s.arrivals, body)]) ∧
        (s.step decodes e).arrivals = s.arrivals + 1 := by
  cases e with
  | datagram packet =>
      rcases datagram_cases s packet with ⟨hsame, hops⟩ | ⟨j, body, hpublish, hops⟩
      · rw [step, hsame, hops]
        exact .inl ⟨rfl, le_rfl⟩
      · rw [step, hpublish, hops]
        split
        · exact .inr ⟨⟨body, rfl⟩, rfl⟩
        · exact .inl ⟨rfl, Nat.le_succ _⟩
  | pop j =>
      refine .inl ⟨?_, ?_⟩
      · rw [ringOp]
        split <;> rfl
      · rw [step, pop]
        split <;> exact le_rfl
  | handle j now =>
      refine .inl ⟨rfl, ?_⟩
      rw [step, handle]
      split <;> exact le_rfl
  | operation op => exact .inl ⟨rfl, le_rfl⟩
  | stop => exact .inl ⟨rfl, le_rfl⟩

theorem arrivals_le_of_published (decodes : Bytes → Bytes → Bool) (i : Fin N)
    (events : List (ReceptionEvent N)) :
    ∀ s : Reception N capacity, (∀ f ∈ published (ringOps decodes i s events),
      s.arrivals ≤ f.1) ∧ (published (ringOps decodes i s events)).Nodup := by
  induction events with
  | nil => intro s; exact ⟨nofun, List.nodup_nil⟩
  | cons e events ih =>
      intro s
      obtain ⟨hlater, hnodup⟩ := ih (s.step decodes e)
      rw [ringOps, published_append]
      rcases published_ringOp decodes s i e with ⟨hnone, hle⟩ | ⟨⟨body, hone⟩, hnext⟩
      · rw [hnone, List.nil_append]
        exact ⟨fun f hf => hle.trans (hlater f hf), hnodup⟩
      · rw [hone, List.singleton_append]
        refine ⟨fun f hf => ?_, List.nodup_cons.mpr ⟨fun hmem => ?_, hnodup⟩⟩
        · rcases List.mem_cons.mp hf with rfl | hf
          · exact le_rfl
          · have := hlater f hf
            omega
        · have := hlater _ hmem
          omega

/-- The worker of shard `i` handles `frame` after the events `seen`. -/
structure Handles (decodes : Bytes → Bytes → Bool) (s : Reception N capacity) (i : Fin N)
    (frame : RawFrame) (events seen : List (ReceptionEvent N)) (now : Int) : Prop where
  event : ∃ later, events = seen ++ .handle i now :: later
  hand : (s.run decodes seen).hands i = some frame

theorem exists_of_mem_handled {i : Fin N} {frame : RawFrame} {events : List (ReceptionEvent N)} :
    ∀ {s : Reception N capacity}, frame ∈ handled decodes i s events →
      ∃ seen now, Handles decodes s i frame events seen now := by
  induction events with
  | nil => intro s h; cases h
  | cons e events ih =>
      intro s h
      rcases List.mem_append.mp h with hnow | hlater
      · cases e with
        | handle j now =>
            rw [handledBy] at hnow
            split at hnow
            · rename_i hij
              subst hij
              exact ⟨[], now, ⟨events, rfl⟩, Option.mem_toList.mp hnow⟩
            · cases hnow
        | _ => cases hnow
      · obtain ⟨seen, now, ⟨later, hevent⟩, hhand⟩ := ih hlater
        exact ⟨e :: seen, now, ⟨later, by rw [hevent, List.cons_append]⟩, hhand⟩

theorem handled_of_handles {s : Reception N capacity} {i : Fin N} {frame : RawFrame}
    {seen : List (ReceptionEvent N)} (later : List (ReceptionEvent N)) (now : Int)
    (hhand : (s.run decodes seen).hands i = some frame) :
    ∃ rest, handled decodes i s (seen ++ .handle i now :: later) =
      handled decodes i s seen ++ frame :: rest := by
  refine ⟨handled decodes i ((s.run decodes seen).step decodes (.handle i now)) later, ?_⟩
  rw [handled_append, handled, handledBy, if_pos rfl, hhand]
  rfl

theorem Handles.not_again {s : Reception N capacity} {i : Fin N} {frame : RawFrame}
    {events seen middle : List (ReceptionEvent N)} {now now' : Int}
    (hnodup : (handled decodes i s events).Nodup)
    (hhand : (s.run decodes seen).hands i = some frame)
    (h : Handles decodes s i frame events (seen ++ .handle i now :: middle) now') : False := by
  obtain ⟨later, rfl⟩ := h.event
  obtain ⟨rest, hfirst⟩ := handled_of_handles middle now hhand
  obtain ⟨rest', hsecond⟩ := handled_of_handles later now' h.hand
  rw [hsecond, hfirst] at hnodup
  exact (List.nodup_append'.mp hnodup).2.2
    (List.mem_append_right _ List.mem_cons_self) List.mem_cons_self

/-- A worker handles a frame once if it has taken it once. -/
theorem Handles.unique {s : Reception N capacity} {i : Fin N} {frame : RawFrame}
    {events seen seen' : List (ReceptionEvent N)} {now now' : Int}
    (hnodup : (handled decodes i s events).Nodup)
    (h : Handles decodes s i frame events seen now)
    (h' : Handles decodes s i frame events seen' now') : seen = seen' := by
  obtain ⟨later, hevent⟩ := h.event
  obtain ⟨later', hevent'⟩ := h'.event
  rcases Interleaving.place_cases (hevent.symm.trans hevent') with
    hsame | ⟨middle, rfl⟩ | ⟨middle, rfl⟩
  · exact hsame
  · exact (h'.not_again hnodup h.hand).elim
  · exact (h.not_again hnodup h'.hand).elim

theorem node_step (decodes : Bytes → Bytes → Bool) {P : Node N → Prop}
    (hheartbeat : ∀ n now sender endpoints, P n → P (n.apply (.heartbeat now sender endpoints)))
    (hannouncement : ∀ n sender topicName messageType isPublisher, P n →
      P (n.apply (.announcement sender topicName messageType isPublisher)))
    {s : Reception N capacity} (h : P s.node) (e : ReceptionEvent N)
    (hoperation : ∀ op, e = .operation op → P (s.node.apply op)) :
    P (s.step decodes e).node := by
  cases e with
  | datagram packet =>
      rw [step, handleReceivedDatagram]
      split
      · exact h
      · split <;> exact h
  | pop i =>
      rw [step, pop]
      split <;> exact h
  | handle i now =>
      rw [step, handle]
      split
      · exact h
      · exact Node.handleFrame_of_apply hheartbeat hannouncement h decodes now _
  | operation op => exact hoperation op rfl
  | stop => exact h

theorem subscribed_run (decodes : Bytes → Bytes → Bool) {topicName messageType : Bytes}
    (events : List (ReceptionEvent N)) :
    ∀ (s : Reception N capacity) (callbacks : List Nat),
      s.node.Subscribed topicName messageType callbacks →
        (s.run decodes events).node.Subscribed topicName messageType
          (registered decodes topicName messageType s callbacks events) := by
  induction events with
  | nil => intro s callbacks h; exact h
  | cons e events ih =>
      intro s callbacks h
      refine ih _ _ ?_
      have hkeep := node_step decodes
        (P := fun n => n.Subscribed topicName messageType callbacks)
        (fun _ _ _ _ h => Node.subscribed_apply h _)
        (fun _ _ _ _ _ h => Node.subscribed_apply h _) h e
      cases e with
      | operation op => exact Node.subscribed_apply h op
      | _ => exact hkeep nofun

theorem placed_run (events : List (ReceptionEvent N)) :
    ∀ s : Reception N capacity, s.node.Placed → (s.run decodes events).node.Placed := by
  induction events with
  | nil => intro s h; exact h
  | cons e events ih =>
      intro s h
      exact ih _ (node_step decodes (fun _ _ _ _ h => h.apply _) (fun _ _ _ _ _ h => h.apply _) h e
        (fun op _ => h.apply op))

end Reception

end Edriel
