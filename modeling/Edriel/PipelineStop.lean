import Edriel.ReceivePipeline

namespace Edriel

open Proto3 BoundedQueue Interleaving

namespace ReceivePipeline

variable {N capacity : Nat} [NeZero N] {decodes : Bytes → Bytes → Bool}
  {s s' : ReceivePipeline N capacity} {e : PipelineEvent N} {r r' : Reception N capacity}
  {me : Identity} {config : Config} {log : List (PipelineEvent N)}

structure Drained (r : Reception N capacity) (i : Fin N) : Prop where
  empty : (r.rings i).head = (r.rings i).tail
  hand : r.hands i = none

/-- A worker that is not in its loop leaves nothing behind, and nothing more comes. -/
def Emptied (s : ReceivePipeline N capacity) : Prop :=
  ∀ i, s.workers i ≠ .running → Drained s.reception i ∧
    ((s.reception.rings i).closed = true ∨ s.workers i = .absent ∧ s.handlers = [])

omit [NeZero N] in
theorem pop_of_ne {i j : Fin N} (r : Reception N capacity) (hij : i ≠ j) :
    (r.pop j).rings i = r.rings i ∧ (r.pop j).hands i = r.hands i := by
  rw [Reception.pop]
  split
  · exact ⟨rfl, rfl⟩
  · exact ⟨Function.update_of_ne hij _ _, Function.update_of_ne hij _ _⟩

theorem handle_of_ne {i j : Fin N} (r : Reception N capacity) (decodes : Bytes → Bytes → Bool)
    (now : Int) (hij : i ≠ j) :
    (r.handle decodes j now).rings i = r.rings i ∧
      (r.handle decodes j now).hands i = r.hands i := by
  rw [Reception.handle]
  split
  · exact ⟨rfl, rfl⟩
  · exact ⟨rfl, Function.update_of_ne hij _ _⟩

theorem ring_of_datagram (r : Reception N capacity) (packet : Bytes) (i : Fin N) :
    (r.handleReceivedDatagram packet).hands i = r.hands i ∧
      ((r.handleReceivedDatagram packet).rings i = r.rings i ∨
        ∃ item, (r.handleReceivedDatagram packet).rings i = (r.rings i).publish item) := by
  rcases r.datagram_cases packet with ⟨hsame, -⟩ | ⟨j, body, hpublish, -⟩
  · rw [hsame]
    exact ⟨rfl, .inl rfl⟩
  · rw [hpublish]
    refine ⟨rfl, ?_⟩
    rw [Reception.rings_publish]
    split
    · exact .inr ⟨_, rfl⟩
    · exact .inl rfl

theorem Receiving.handlers_ne_nil (h : Receiving s e s') : s.handlers ≠ [] := by
  cases h with
  | receive k p rest packet hpick => exact List.ne_nil_of_mem ((mem_of_pick hpick).mpr (.inl rfl))
  | leave k p rest hpick => exact List.ne_nil_of_mem ((mem_of_pick hpick).mpr (.inl rfl))
  | rearm k rest hpick => exact List.ne_nil_of_mem ((mem_of_pick hpick).mpr (.inl rfl))
  | deliver k packet rest hpick => exact List.ne_nil_of_mem ((mem_of_pick hpick).mpr (.inl rfl))

theorem Turn.ring_of_idle (h : Turn decodes s e s') {i : Fin N} (hworker : s.workers i ≠ .running) :
    s'.reception.hands i = s.reception.hands i ∧
      (s'.reception.rings i = s.reception.rings i ∨
        s'.reception.rings i = (s.reception.rings i).close ∨
        s.handlers ≠ [] ∧
          ∃ item, s'.reception.rings i = (s.reception.rings i).publish item) := by
  have hother : ∀ j : Fin N, s.workers j = .running → i ≠ j := by
    rintro j hj rfl
    exact hworker hj
  cases h with
  | call h =>
      cases h with
      | close j hcaller =>
          refine ⟨rfl, ?_⟩
          by_cases hij : i = j
          · subst hij
            exact .inr (.inl (Function.update_self _ _ _))
          · exact .inl (Function.update_of_ne hij _ _)
      | _ => exact ⟨rfl, .inl rfl⟩
  | work j now h =>
      cases h with
      | handle frame hj hhand =>
          obtain ⟨hring, hhands⟩ := handle_of_ne s.reception decodes now (hother j hj)
          exact ⟨hhands, .inl hring⟩
      | take frame hj hhand hpop =>
          obtain ⟨hring, hhands⟩ := pop_of_ne s.reception (hother j hj)
          exact ⟨hhands, .inl hring⟩
      | leave hj hhand hpop =>
          obtain ⟨hring, hhands⟩ := pop_of_ne s.reception (hother j hj)
          exact ⟨hhands, .inl hring⟩
  | receive h =>
      have hpresent := h.handlers_ne_nil
      cases h with
      | deliver k packet rest hpick =>
          obtain ⟨hhands, hring⟩ := ring_of_datagram s.reception packet i
          exact ⟨hhands, hring.imp_right fun hpublish => .inr ⟨hpresent, hpublish⟩⟩
      | _ => exact ⟨rfl, .inl rfl⟩
  | _ => exact ⟨rfl, .inl rfl⟩

omit [NeZero N] in
theorem Drained.of_ring {i : Fin N} (h : Drained r i) (hhands : r'.hands i = r.hands i)
    (hhead : (r'.rings i).head = (r.rings i).head)
    (htail : (r'.rings i).tail = (r.rings i).tail) : Drained r' i :=
  ⟨by rw [hhead, htail, h.empty], hhands.trans h.hand⟩

theorem Turn.drained (h : Turn decodes s e s') {i : Fin N} (hworker : s.workers i ≠ .running)
    (hdrained : Drained s.reception i)
    (hends : (s.reception.rings i).closed = true ∨ s.handlers = []) :
    Drained s'.reception i := by
  obtain ⟨hhands, hsame | hclose | ⟨hpresent, item, hpublish⟩⟩ := h.ring_of_idle hworker
  · exact hdrained.of_ring hhands (by rw [hsame]) (by rw [hsame])
  · exact hdrained.of_ring hhands (by rw [hclose]; rfl) (by rw [hclose]; rfl)
  · have hclosed := hends.resolve_right hpresent
    have hkept : s'.reception.rings i = s.reception.rings i := by
      rw [hpublish]
      exact SpscRing.step_of_drained hclosed hdrained.empty (.publish item)
    exact hdrained.of_ring hhands (by rw [hkept]) (by rw [hkept])

theorem Turn.left_or_idle (h : Turn decodes s e s') {i : Fin N}
    (hworker : s'.workers i ≠ .running) :
    s.workers i ≠ .running ∨
      s.reception.hands i = none ∧ (s.reception.rings i).pop.1 = .null ∧
        s'.reception = s.reception.pop i := by
  cases h with
  | call h =>
      cases h with
      | spawn j hcaller hj =>
          refine .inl ?_
          by_cases hij : i = j
          · rw [hij, hj]
            nofun
          · have hsame : s.moveWorker j .running i = s.workers i := Function.update_of_ne hij _ _
            exact fun hrunning => hworker (hsame.trans hrunning)
      | join j hcaller hj =>
          refine .inl ?_
          by_cases hij : i = j
          · rw [hij]
            exact hj
          · have hsame : s.moveWorker j .absent i = s.workers i := Function.update_of_ne hij _ _
            exact fun hrunning => hworker (hsame.trans hrunning)
      | _ => exact .inl hworker
  | work j now h =>
      cases h with
      | leave hj hhand hpop =>
          by_cases hij : i = j
          · rw [hij]
            exact .inr ⟨hhand, hpop, rfl⟩
          · have hsame : s.moveWorker j .left i = s.workers i := Function.update_of_ne hij _ _
            exact .inl fun hrunning => hworker (hsame.trans hrunning)
      | _ => exact .inl hworker
  | receive h => cases h <;> exact .inl hworker
  | _ => exact .inl hworker

theorem Working.handlers {i : Fin N} {now : Int} (h : Working decodes s i now e s') :
    s'.handlers = s.handlers := by
  cases h <;> rfl

theorem Turn.absent (h : Turn decodes s e s') (hinv : s.Inv) {i : Fin N}
    (hworker : s'.workers i ≠ .running) (habsent : s.workers i = .absent)
    (hnone : s.handlers = []) : s'.workers i = .absent ∧ s'.handlers = [] := by
  cases h with
  | call h =>
      cases h with
      | spawn j hcaller hj =>
          refine ⟨?_, hnone⟩
          have hij : i ≠ j := by
            rintro rfl
            exact hworker (Function.update_self _ _ _)
          exact (Function.update_of_ne hij _ _).trans habsent
      | arm k hcaller hk =>
          obtain ⟨-, -, hworkers⟩ := hinv.spawning k hcaller
          exact absurd (hk.trans ((hworkers i).mp habsent)) (Nat.not_le_of_lt i.isLt)
      | join j hcaller hj =>
          exact ⟨forall_moveWorker (fun j p => j = i → p = .absent) (fun _ => rfl)
            (fun j _ hji => hji ▸ habsent) i rfl, hnone⟩
      | _ => exact ⟨habsent, hnone⟩
  | work j now h => exact ⟨(h.beside.workers i).mpr habsent, h.handlers.trans hnone⟩
  | receive h => exact absurd hnone h.handlers_ne_nil
  | _ => exact ⟨habsent, hnone⟩

theorem Emptied.turn (h : s.Emptied) (hinv : s.Inv)
    (hnull : ∀ i, (s.reception.rings i).pop.1 = .null →
      (s.reception.rings i).closed = true ∧
        (s.reception.rings i).head = (s.reception.rings i).tail)
    (hturn : Turn decodes s e s') : s'.Emptied := by
  intro i hworker
  rcases hturn.left_or_idle hworker with hidle | ⟨hhand, hpop, hnext⟩
  · obtain ⟨hdrained, hends⟩ := h i hidle
    refine ⟨hturn.drained hidle hdrained (hends.imp_right And.right), ?_⟩
    rcases hends with hclosed | ⟨habsent, hnone⟩
    · exact .inl (hturn.closed hclosed)
    · exact .inr (hturn.absent hinv hworker habsent hnone)
  · obtain ⟨hclosed, hempty⟩ := hnull i hpop
    refine ⟨⟨?_, ?_⟩, .inl (hturn.closed hclosed)⟩
    · have hring : (s.reception.pop i).rings i = (s.reception.rings i).pop.2 := by
        rw [Reception.pop, hhand]
        exact Function.update_self _ _ _
      rw [hnext, hring, SpscRing.pop, if_pos hempty]
      exact hempty
    · rw [hnext, Reception.pop, hhand]
      dsimp only
      rw [Function.update_self, hpop]
      rfl

omit [NeZero N] in
theorem length_opsOn_le (i : Fin N) (log : List (PipelineEvent N)) :
    (opsOn i log).length ≤ log.length := by
  induction log with
  | nil => exact le_rfl
  | cons e log ih =>
      have hop : (e.ringOp i).length ≤ 1 := by
        rw [PipelineEvent.ringOp.eq_def]
        split
        · split <;> simp
        · exact Nat.zero_le _
      rw [opsOn, List.flatMap_cons, List.length_append, List.length_cons, ← opsOn]
      omega

theorem emptied_of_trace (hpos : 0 < capacity) (hlt : capacity < 2 ^ 64)
    (h : Trace (Steps (step decodes)) (fresh me config) log s)
    (hrange : capacity ∣ 2 ^ 64 ∨ log.length ≤ 2 ^ 64) : s.Emptied := by
  revert hrange
  refine Trace.invariant
    (P := fun log s => capacity ∣ 2 ^ 64 ∨ log.length ≤ 2 ^ 64 → s.Emptied) ?_ ?_ h
  · exact fun _ i _ => ⟨⟨rfl, rfl⟩, .inr ⟨rfl, rfl⟩⟩
  rintro log s e s' hprev hs ⟨a, -, hstep⟩ hrange
  have hrange' : capacity ∣ 2 ^ 64 ∨ log.length ≤ 2 ^ 64 := by
    rw [List.length_append, List.length_singleton] at hrange
    exact hrange.imp_right (by omega)
  refine (hs hrange').turn (inv_of_trace hprev) (fun i hpop => ?_) (turn_of_step hstep)
  obtain ⟨start, items, hholds, -, -⟩ := SpscRing.account hpos hlt (opsOn i log)
    (hrange'.imp_right (length_opsOn_le i log).trans)
  rw [← (kept_of_trace hprev i).ring] at hholds
  exact hholds.drained_of_null hlt hpop

/-- Nothing is left to be handled, and nothing can come in any more: a ring that is open gets
nothing, since no handler has a datagram and the socket gives none. -/
structure Deaf (s : ReceivePipeline N capacity) : Prop where
  socketOpen : s.socketOpen = false
  drained : ∀ i, Drained s.reception i
  quiet : ∀ i, (s.reception.rings i).closed = true ∨ ∀ p ∈ s.handlers, p.isHolding = false

omit [NeZero N] in
theorem Drained.pop_eq {i : Fin N} (h : Drained r i) :
    (r.rings i).pop.2 = r.rings i ∧ ∀ frame, (r.rings i).pop.1 ≠ .item frame := by
  rw [SpscRing.pop, if_pos h.empty]
  refine ⟨rfl, fun frame hitem => ?_⟩
  dsimp only at hitem
  split at hitem <;> cases hitem

omit [NeZero N] in
theorem gather_ringOp {i j : Fin N} {op : Op RawFrame} {ring : SpscRing RawFrame capacity}
    (h : j = i → ring.accepts op = none) :
    gather SpscRing.accepts SpscRing.step ring ((PipelineEvent.ring j op).ringOp i) = [] := by
  rw [PipelineEvent.ringOp]
  split
  · rename_i hji
    rw [gather, h hji]
    rfl
  · rfl

omit [NeZero N] in
theorem Deaf.calling (h : s.Deaf) (hcalling : Calling s e s') :
    s'.Deaf ∧ ∀ i, e.handledBy i = [] ∧
      gather SpscRing.accepts SpscRing.step (s.reception.rings i) (e.ringOp i) = [] := by
  cases hcalling with
  | arm k hcaller hk =>
      refine ⟨⟨h.socketOpen, h.drained, fun i => ?_⟩, fun _ => ⟨rfl, rfl⟩⟩
      exact (h.quiet i).imp_right fun hquiet => List.forall_mem_cons.mpr ⟨rfl, hquiet⟩
  | shut hcaller => exact ⟨⟨rfl, h.drained, h.quiet⟩, fun _ => ⟨rfl, rfl⟩⟩
  | close i hcaller =>
      refine ⟨⟨h.socketOpen, fun j => ⟨?_, (h.drained j).hand⟩, fun j => ?_⟩,
        fun j => ⟨rfl, gather_ringOp fun _ => rfl⟩⟩
      · dsimp only
        by_cases hji : j = i
        · subst hji
          rw [Function.update_self]
          exact (h.drained j).empty
        · rw [Function.update_of_ne hji]
          exact (h.drained j).empty
      · dsimp only
        by_cases hji : j = i
        · subst hji
          rw [Function.update_self]
          exact .inl rfl
        · rw [Function.update_of_ne hji]
          exact h.quiet j
  | _ => exact ⟨⟨h.socketOpen, h.drained, h.quiet⟩, fun _ => ⟨rfl, rfl⟩⟩

theorem Deaf.working {i : Fin N} {now : Int} (h : s.Deaf)
    (hworking : Working decodes s i now e s') :
    s'.Deaf ∧ ∀ j, e.handledBy j = [] ∧
      gather SpscRing.accepts SpscRing.step (s.reception.rings j) (e.ringOp j) = [] := by
  cases hworking with
  | handle frame hworker hhand => cases hhand.symm.trans (h.drained i).hand
  | take frame hworker hhand hpop => exact absurd hpop ((h.drained i).pop_eq.2 frame)
  | leave hworker hhand hpop =>
      have hrings : ∀ j, (s.reception.pop i).rings j = s.reception.rings j := by
        intro j
        by_cases hji : j = i
        · subst hji
          rw [Reception.pop, hhand]
          exact (Function.update_self _ _ _).trans (h.drained j).pop_eq.1
        · exact (pop_of_ne s.reception hji).1
      refine ⟨⟨h.socketOpen, fun j => ?_, fun j => ?_⟩,
        fun j => ⟨rfl, gather_ringOp fun _ => rfl⟩⟩
      · refine (h.drained j).of_ring ?_ (by rw [hrings]) (by rw [hrings])
        by_cases hji : j = i
        · subst hji
          rw [hhand, Reception.pop, hhand]
          dsimp only
          rw [Function.update_self, hpop]
          rfl
        · exact (pop_of_ne s.reception hji).2
      · rw [hrings]
        exact h.quiet j

/-- A handler that has a datagram finds all rings closed. -/
theorem Deaf.receiving (h : s.Deaf) (hreceiving : Receiving s e s') :
    s'.Deaf ∧ ∀ i, e.handledBy i = [] ∧
      gather SpscRing.accepts SpscRing.step (s.reception.rings i) (e.ringOp i) = [] := by
  cases hreceiving with
  | receive k p rest packet hpick hidle hopen => cases h.socketOpen.symm.trans hopen
  | leave k p rest hpick hidle =>
      refine ⟨⟨h.socketOpen, h.drained, fun i => ?_⟩, fun _ => ⟨rfl, rfl⟩⟩
      exact (h.quiet i).imp_right fun hquiet q hq =>
        hquiet q ((mem_of_pick hpick).mpr (.inr hq))
  | rearm k rest hpick hrunning =>
      refine ⟨⟨h.socketOpen, h.drained, fun i => ?_⟩, fun _ => ⟨rfl, rfl⟩⟩
      exact (h.quiet i).imp_right fun hquiet => List.forall_mem_cons.mpr ⟨rfl, fun q hq =>
        hquiet q ((mem_of_pick hpick).mpr (.inr hq))⟩
  | deliver k packet rest hpick =>
      have hclosed : ∀ i, (s.reception.rings i).closed = true := fun i =>
        (h.quiet i).resolve_right fun hquiet =>
          Bool.noConfusion (hquiet _ ((mem_of_pick hpick).mpr (.inl rfl)))
      have hrings : ∀ i, (s.reception.handleReceivedDatagram packet).rings i =
          s.reception.rings i := by
        intro i
        rcases (ring_of_datagram s.reception packet i).2 with hsame | ⟨item, hpublish⟩
        · exact hsame
        · rw [hpublish]
          exact SpscRing.step_of_drained (hclosed i) (h.drained i).empty (.publish item)
      refine ⟨⟨h.socketOpen, fun i => ?_, fun i => .inl ?_⟩, fun i => ?_⟩
      · refine (h.drained i).of_ring (ring_of_datagram s.reception packet i).1 ?_ ?_
        · exact congrArg SpscRing.head (hrings i)
        · exact congrArg SpscRing.tail (hrings i)
      · exact (congrArg SpscRing.closed (hrings i)).trans (hclosed i)
      · rcases delivered_cases s packet rest with ⟨hevent, -⟩ | ⟨j, item, hevent, -⟩
        · rw [hevent]
          exact ⟨rfl, rfl⟩
        · rw [hevent]
          refine ⟨rfl, gather_ringOp fun hji => ?_⟩
          rw [SpscRing.accepts, hclosed i, if_pos rfl]

/-- What is deaf stays deaf: no ring accepts a frame any more and none is handled. -/
theorem Deaf.turn (h : s.Deaf) (hturn : Turn decodes s e s') :
    s'.Deaf ∧ ∀ i, e.handledBy i = [] ∧
      gather SpscRing.accepts SpscRing.step (s.reception.rings i) (e.ringOp i) = [] := by
  cases hturn with
  | call hcalling => exact h.calling hcalling
  | work i now hworking => exact h.working hworking
  | receive hreceiving => exact h.receiving hreceiving
  | operation op =>
      exact ⟨⟨h.socketOpen, fun i => ⟨(h.drained i).empty, (h.drained i).hand⟩, h.quiet⟩,
        fun _ => ⟨rfl, rfl⟩⟩
  | _ => exact ⟨⟨h.socketOpen, h.drained, h.quiet⟩, fun _ => ⟨rfl, rfl⟩⟩

theorem Turn.calling (h : Turn decodes s e s') (he : e = .stopped ∨ e = .terminated) :
    Calling s e s' := by
  cases h with
  | call h => exact h
  | work i now h => cases h <;> rcases he with he | he <;> cases he
  | receive h =>
      cases h with
      | deliver k packet rest hpick =>
          rcases delivered_cases s packet rest with ⟨hevent, -⟩ | ⟨i, item, hevent, -⟩
          · rw [hevent] at he
            rcases he with he | he <;> cases he
          · rw [hevent] at he
            rcases he with he | he <;> cases he
      | _ => rcases he with he | he <;> cases he
  | _ => rcases he with he | he <;> cases he

omit [NeZero N] in
/-- All threads are joined when a stop comes back. -/
theorem Inv.stopped (h : s.Inv) (hcalling : Calling s .stopped s') :
    s'.caller = .idle ∧ s'.isRunning = false ∧ s'.socketOpen = false ∧
      s'.receiver = .absent ∧ s'.reception = s.reception ∧ s'.handlers = s.handlers ∧
      ∀ i, s.workers i = .absent ∧ s'.workers i = .absent := by
  cases hcalling with
  | skip hcaller hstarted =>
      obtain ⟨hreceiver, hworkers⟩ := h.unstarted hstarted (by rw [hcaller]; rfl)
      exact ⟨rfl, h.stops (by rw [hcaller]; rfl), h.hasShut (by rw [hcaller]; rfl), hreceiver, rfl,
        rfl, fun i => ⟨hworkers i, hworkers i⟩⟩
  | finish hcaller hreceiver =>
      have hworkers := fun i => (h.joiningReceiver hcaller i).2
      exact ⟨rfl, h.stops (by rw [hcaller]; rfl), h.hasShut (by rw [hcaller]; rfl), rfl, rfl,
        rfl, fun i => ⟨hworkers i, hworkers i⟩⟩

theorem deaf_of_stopped (hpos : 0 < capacity) (hlt : capacity < 2 ^ 64)
    (h : Trace (Steps (step decodes)) (fresh me config) log s)
    (hrange : capacity ∣ 2 ^ 64 ∨ log.length ≤ 2 ^ 64) (hstopped : .stopped ∈ log) : s.Deaf := by
  revert hrange hstopped
  refine Trace.invariant
    (P := fun log s => capacity ∣ 2 ^ 64 ∨ log.length ≤ 2 ^ 64 → .stopped ∈ log → s.Deaf)
    (fun _ hmem => absurd hmem List.not_mem_nil) ?_ h
  rintro log s e s' hprev hs ⟨a, -, hstep⟩ hrange hmem
  have hrange' : capacity ∣ 2 ^ 64 ∨ log.length ≤ 2 ^ 64 := by
    rw [List.length_append, List.length_singleton] at hrange
    exact hrange.imp_right (by omega)
  have hturn := turn_of_step hstep
  rcases List.mem_append.mp hmem with hmem | hmem
  · exact ((hs hrange' hmem).turn hturn).1
  · obtain rfl := List.mem_singleton.mp hmem
    obtain ⟨-, -, hopen, -, hreception, hhandlers, hworkers⟩ :=
      (inv_of_trace hprev).stopped (hturn.calling (.inl rfl))
    have hemptied := emptied_of_trace hpos hlt hprev hrange'
    refine ⟨hopen, fun i => ?_, fun i => ?_⟩
    · have hdrained := (hemptied i (by rw [(hworkers i).1]; nofun)).1
      exact hdrained.of_ring (by rw [hreception]) (by rw [hreception]) (by rw [hreception])
    · rw [hreception, hhandlers]
      refine (hemptied i (by rw [(hworkers i).1]; nofun)).2.imp_right fun hidle => ?_
      rw [hidle.2]
      exact List.forall_mem_nil _

theorem silent_of_deaf {before later : List (PipelineEvent N)}
    (hbefore : Trace (Steps (step decodes)) (fresh me config) before s) (hdeaf : s.Deaf)
    (h : Trace (Steps (step decodes)) s later s') (i : Fin N) :
    handledOn i later = [] ∧ SpscRing.accepted capacity (opsOn i (before ++ later)) =
      SpscRing.accepted capacity (opsOn i before) := by
  have hall : s'.Deaf ∧ handledOn i later = [] ∧
      SpscRing.accepted capacity (opsOn i (before ++ later)) =
        SpscRing.accepted capacity (opsOn i before) := by
    refine Trace.invariant (P := fun later s' => s'.Deaf ∧ handledOn i later = [] ∧
      SpscRing.accepted capacity (opsOn i (before ++ later)) =
        SpscRing.accepted capacity (opsOn i before)) ?_ ?_ h
    · exact ⟨hdeaf, rfl, by rw [List.append_nil]⟩
    rintro later m e s' htrace ⟨hm, hhandled, haccepted⟩ ⟨a, -, hstep⟩
    obtain ⟨hm', hsilent⟩ := hm.turn (turn_of_step hstep)
    have hring : after SpscRing.step ({} : SpscRing RawFrame capacity)
        (opsOn i (before ++ later)) = m.reception.rings i :=
      (kept_of_trace (hbefore.append htrace) i).ring.symm
    refine ⟨hm', ?_, ?_⟩
    · rw [handledOn, List.flatMap_append, List.flatMap_singleton, ← handledOn, hhandled,
        (hsilent i).1, List.append_nil]
    · rw [← haccepted, SpscRing.accepted, SpscRing.accepted, ← List.append_assoc, opsOn,
        List.flatMap_append, List.flatMap_singleton, ← opsOn, gather_append, hring,
        (hsilent i).2, List.append_nil]
  exact hall.2

/-- A stop is final.  When it has come back, each frame that a ring accepted has been handled by
its worker or overwritten in the ring, once, and in whatever follows, later starts and handlers
that still have a datagram included, no ring accepts a frame and none is handled. -/
theorem stop_is_final (hpos : 0 < capacity) (hlt : capacity < 2 ^ 64)
    {before later : List (PipelineEvent N)}
    (h : Trace (Steps (step decodes)) (fresh me config) before s)
    (hrange : capacity ∣ 2 ^ 64 ∨ before.length ≤ 2 ^ 64) (hstopped : .stopped ∈ before)
    (hrest : Trace (Steps (step decodes)) s later s') (i : Fin N) :
    (SpscRing.accepted capacity (opsOn i before)).Perm
        (handledOn i before ++ SpscRing.overwritten capacity (opsOn i before)) ∧
      (SpscRing.accepted capacity (opsOn i before)).Nodup ∧
      handledOn i later = [] ∧
      SpscRing.accepted capacity (opsOn i (before ++ later)) =
        SpscRing.accepted capacity (opsOn i before) := by
  have hdeaf := deaf_of_stopped hpos hlt h hrange hstopped
  have hkept := kept_of_trace h i
  obtain ⟨start, items, hholds, hperm, hsub⟩ := SpscRing.account hpos hlt (opsOn i before)
    (hrange.imp_right (length_opsOn_le i before).trans)
  refine ⟨?_, hkept.nodup.sublist hsub, silent_of_deaf h hdeaf hrest i⟩
  have hnone : items = [] := by
    rw [← hkept.ring] at hholds
    exact (hholds.head_eq_tail_iff hlt).mp (hdeaf.drained i).empty
  rw [hnone, List.nil_append, hkept.hand, (hdeaf.drained i).hand, Option.toList_none,
    List.append_nil] at hperm
  exact hperm

/-- Two datagrams come in.  The frame of the first is handled while the stop waits for the
worker, and the second is still in the buffer when the stop comes back. -/
def stoppedOnce : List (PipelineAction 1) :=
  [.start, .call, .call, .call, .call, .receive 0 (some Reception.dataPacket), .deliver 0,
    .receive 0 (some Reception.dataPacket), .work ⟨0, Nat.one_pos⟩ 0, .stop, .call, .call, .call,
    .call, .work ⟨0, Nat.one_pos⟩ 0, .work ⟨0, Nat.one_pos⟩ 0, .call, .receiver, .call, .call]

/-- A later start arms a receive on the closed socket, and its worker leaves again; the handler of
the first start publishes to a closed ring. -/
def startedAgain : List (PipelineAction 1) :=
  [.start, .call, .call, .call, .call, .deliver 1, .receive 0 none, .receive 0 none,
    .work ⟨0, Nat.one_pos⟩ 0, .receiver]

theorem stop_is_final_startedAgain :
    ∃ before s later s',
      exec (step fun _ _ => true) (fresh ⟨1, 0, 9⟩ {} : ReceivePipeline 1 2) stoppedOnce =
        some (before, s) ∧ exec (step fun _ _ => true) s startedAgain = some (later, s') ∧
      (handledOn 0 before).length = 1 ∧ (published (opsOn 0 later)).length = 1 ∧
      (SpscRing.accepted 2 (opsOn 0 before)).Perm
        (handledOn 0 before ++ SpscRing.overwritten 2 (opsOn 0 before)) ∧
      (SpscRing.accepted 2 (opsOn 0 before)).Nodup ∧ handledOn 0 later = [] ∧
      SpscRing.accepted 2 (opsOn 0 (before ++ later)) = SpscRing.accepted 2 (opsOn 0 before) := by
  have hbefore : (exec (step fun _ _ => true) (fresh ⟨1, 0, 9⟩ {} : ReceivePipeline 1 2)
      stoppedOnce).map (fun p => (p.1.getLast?, (handledOn 0 p.1).length,
        (exec (step fun _ _ => true) p.2 startedAgain).map fun q =>
          (published (opsOn 0 q.1)).length)) = some (some .stopped, 1, some 1) := by
    rfl
  obtain ⟨⟨before, s⟩, h, hp⟩ := Option.map_eq_some_iff.mp hbefore
  obtain ⟨hlast, hp⟩ := Prod.mk.inj hp
  obtain ⟨hhandled, hsome⟩ := Prod.mk.inj hp
  obtain ⟨⟨later, s'⟩, h', hpublished⟩ := Option.map_eq_some_iff.mp hsome
  exact ⟨before, s, later, s', h, h', hhandled, hpublished, stop_is_final (by decide) (by decide)
    (trace_of_exec (fun _ _ _ => trivial) h) (.inl (by decide)) (List.mem_of_getLast? hlast)
    (trace_of_exec (fun _ _ _ => trivial) h') 0⟩

/-- Threads are joined before they are spawned anew: in no run does a start assign over a thread
object that a thread still belongs to, and a stop that comes back leaves no thread behind. -/
theorem joined_before_spawned (h : Trace (Steps (step decodes)) (fresh me config) log s) :
    .terminated ∉ log ∧
      (log.getLast? = some .stopped → s.receiver = .absent ∧ ∀ i, s.workers i = .absent) := by
  refine Trace.invariant (P := fun log s => .terminated ∉ log ∧
    (log.getLast? = some .stopped → s.receiver = .absent ∧ ∀ i, s.workers i = .absent))
    ⟨List.not_mem_nil, nofun⟩ ?_ h
  rintro log s e s' hprev ⟨hnot, -⟩ ⟨a, -, hstep⟩
  have hinv := inv_of_trace hprev
  have hturn := turn_of_step hstep
  constructor
  · intro hmem
    rcases List.mem_append.mp hmem with hmem | hmem
    · exact hnot hmem
    · have hcalling := hturn.calling (.inr (List.mem_singleton.mp hmem).symm)
      obtain rfl := List.mem_singleton.mp hmem
      cases hcalling with
      | clash hthread =>
          rcases hthread with ⟨i, hcaller, hworker⟩ | ⟨hcaller, hpresent⟩
          · obtain ⟨-, -, hworkers⟩ := hinv.spawning i hcaller
            exact hworker ((hworkers i).mpr le_rfl)
          · exact hpresent (hinv.spawningReceiver hcaller).2
  · intro hlast
    rw [List.getLast?_append, List.getLast?_singleton, Option.some_or] at hlast
    obtain rfl := Option.some.inj hlast
    obtain ⟨-, -, -, hreceiver, -, -, hworkers⟩ := hinv.stopped (hturn.calling (.inl rfl))
    exact ⟨hreceiver, fun i => (hworkers i).2⟩

theorem joined_before_spawned_startedAgain :
    ∃ log s, exec (step fun _ _ => true) (fresh ⟨1, 0, 9⟩ {} : ReceivePipeline 1 2)
        (stoppedOnce ++ startedAgain) = some (log, s) ∧ s.workers 0 = .left ∧
      s.receiver = .left ∧
      .terminated ∉ log ∧
      (log.getLast? = some .stopped → s.receiver = .absent ∧ ∀ i, s.workers i = .absent) := by
  have hend : (exec (step fun _ _ => true) (fresh ⟨1, 0, 9⟩ {} : ReceivePipeline 1 2)
      (stoppedOnce ++ startedAgain)).map (fun p => (p.2.workers 0, p.2.receiver)) =
        some (.left, .left) := by
    rfl
  obtain ⟨⟨log, s⟩, h, hp⟩ := Option.map_eq_some_iff.mp hend
  obtain ⟨hworker, hreceiver⟩ := Prod.mk.inj hp
  exact ⟨log, s, h, hworker, hreceiver, joined_before_spawned (trace_of_exec (fun _ _ _ => trivial) h)⟩

def workerWork (s : ReceivePipeline N capacity) (i : Fin N) : Nat :=
  2 * (s.reception.rings i).size + (s.reception.hands i).toList.length + (s.workers i).work

def work (s : ReceivePipeline N capacity) : Nat :=
  s.caller.work N + s.receiver.work + (s.handlers.map HandlerPoint.work).sum +
    ∑ i, s.workerWork i

def Winding (_ : ReceivePipeline N capacity) : PipelineAction N → Prop
  | .start => False
  | .stop => False
  | .operation _ => False
  | _ => True

/-- The steps of the threads that a stop waits for, and its own.  Those of the handlers are not
among them. -/
def Joined : PipelineAction N → Prop
  | .call => True
  | .work _ _ => True
  | .receiver => True
  | _ => False

/-- The caller has closed the socket and is on its way back. -/
structure Halting (s : ReceivePipeline N capacity) : Prop where
  isRunning : s.isRunning = false
  socketOpen : s.socketOpen = false
  caller : s.caller = .idle ∨ s.caller.hasShut = true
  pipelineStarted : s.caller = .idle → s.pipelineStarted = false

theorem size_publish_le (ring : SpscRing RawFrame capacity) (item : Option RawFrame) :
    (ring.publish item).size ≤ ring.size + 1 := by
  rw [SpscRing.publish]
  split
  · exact Nat.le_succ _
  · split
    · have hnext : ring.head + 1 - ring.tail = ring.head - ring.tail + 1 := by grind
      rw [SpscRing.size, SpscRing.size]
      dsimp only
      rw [hnext, UInt64.toNat_add]
      exact Nat.mod_le _ _
    · exact Nat.le_succ _

theorem size_take (ring : SpscRing RawFrame capacity) (hne : ring.head ≠ ring.tail) :
    ring.take.2.size + 1 = ring.size := by
  rw [SpscRing.size, SpscRing.size, SpscRing.take]
  dsimp only
  have hsplit : ring.head - ring.tail = ring.head - (ring.tail + 1) + 1 := by grind
  have hpos : (ring.head - ring.tail).toNat ≠ 0 :=
    fun hzero => hne (sub_eq_zero.mp (UInt64.toNat_inj.mp hzero))
  have hlt := (ring.head - (ring.tail + 1)).toNat_lt
  rw [hsplit, UInt64.toNat_add] at hpos ⊢
  have hone : (1 : UInt64).toNat = 1 := rfl
  omega

theorem size_pop_le (ring : SpscRing RawFrame capacity) : ring.pop.2.size ≤ ring.size := by
  rw [SpscRing.pop]
  split
  · exact le_rfl
  · rename_i hne
    exact Nat.le_of_succ_le (size_take ring hne).le

theorem size_pop_item {ring : SpscRing RawFrame capacity} {frame : RawFrame}
    (hpop : ring.pop.1 = .item frame) : ring.pop.2.size + 1 = ring.size := by
  rw [SpscRing.pop] at hpop ⊢
  split at hpop
  · split at hpop <;> cases hpop
  · rename_i hne
    rw [if_neg hne]
    exact size_take ring hne

theorem Working.work {i : Fin N} {now : Int} (h : Working decodes s i now e s') :
    s'.workerWork i < s.workerWork i ∧ ∀ j, j ≠ i → s'.workerWork j = s.workerWork j := by
  cases h with
  | handle frame hworker hhand =>
      refine ⟨?_, fun j hji => ?_⟩
      · rw [workerWork, workerWork, Reception.handle, hhand]
        dsimp only
        rw [Function.update_self]
        simp only [Option.toList_none, Option.toList_some, List.length_nil, List.length_singleton]
        omega
      · obtain ⟨hring, hhands⟩ := handle_of_ne s.reception decodes now hji
        rw [workerWork, workerWork, hring, hhands]
  | take frame hworker hhand hpop =>
      refine ⟨?_, fun j hji => ?_⟩
      · rw [workerWork, workerWork, Reception.pop, hhand]
        dsimp only
        rw [Function.update_self, Function.update_self, hpop]
        have hsize := size_pop_item hpop
        simp only [Taken.object?, Option.toList_none, Option.toList_some, List.length_nil,
          List.length_singleton]
        omega
      · obtain ⟨hring, hhands⟩ := pop_of_ne s.reception hji
        rw [workerWork, workerWork, hring, hhands]
  | leave hworker hhand hpop =>
      refine ⟨?_, fun j hji => ?_⟩
      · rw [workerWork, workerWork, Reception.pop, hhand]
        dsimp only
        rw [Function.update_self, Function.update_self, hpop, moveWorker, Function.update_self,
          hworker]
        have hsize := size_pop_le (s.reception.rings i)
        simp only [Taken.object?, Option.toList_none, List.length_nil, ThreadPoint.work]
        omega
      · obtain ⟨hring, hhands⟩ := pop_of_ne s.reception hji
        have hsame : s.moveWorker i .left j = s.workers j := Function.update_of_ne hji _ _
        rw [workerWork, workerWork, hring, hhands]
        exact congrArg (fun p : ThreadPoint => _ + p.work) hsame

theorem sum_delivered_le (s : ReceivePipeline N capacity) (packet : Bytes)
    (rest : List HandlerPoint) :
    ∑ i, (s.delivered packet rest).2.workerWork i ≤ (∑ i, s.workerWork i) + 2 := by
  rcases s.reception.datagram_cases packet with ⟨hsame, -⟩ | ⟨j, body, hpublish, -⟩
  · refine le_of_eq_of_le (Finset.sum_congr rfl fun i _ => ?_) (Nat.le_add_right _ 2)
    rw [workerWork, delivered, hsame, workerWork]
  · have hsingle : (∑ i, if j = i then 2 else 0) = 2 := by
      rw [Finset.sum_ite_eq, if_pos (Finset.mem_univ j)]
    rw [← hsingle, ← Finset.sum_add_distrib]
    refine Finset.sum_le_sum fun i _ => ?_
    rw [workerWork, delivered, hpublish, workerWork]
    dsimp only
    rw [Reception.rings_publish, Reception.publish]
    dsimp only
    by_cases hij : j = i
    · rw [if_pos hij, if_pos hij]
      have hsize := size_publish_le (s.reception.rings i) (some (s.reception.arrivals, body))
      omega
    · rw [if_neg hij, if_neg hij]
      exact le_rfl

theorem sum_of_pick {k : Nat} {pool rest : List HandlerPoint} {p : HandlerPoint}
    (hpick : pick k pool = some (p, rest)) :
    (pool.map HandlerPoint.work).sum = p.work + (rest.map HandlerPoint.work).sum := by
  rw [((perm_of_pick hpick).map _).sum_eq, List.map_cons, List.sum_cons]

omit [NeZero N] in
theorem work_lt_of_caller (hworkers : ∀ i, s'.workerWork i = s.workerWork i)
    (hreceiver : s'.receiver.work = s.receiver.work) (hhandlers : s'.handlers = s.handlers)
    (hcaller : s'.caller.work N < s.caller.work N) : s'.work < s.work := by
  have hsum : ∑ i, s'.workerWork i = ∑ i, s.workerWork i :=
    Finset.sum_congr rfl fun i _ => hworkers i
  rw [work, work, hreceiver, hhandlers, hsum]
  omega

omit [NeZero N] in
theorem Halting.calling (h : s.Halting) (hinv : s.Inv) (hcalling : Calling s e s') :
    s'.Halting ∧ s'.work < s.work ∧ (s'.caller = .idle → e = .stopped) := by
  obtain ⟨hrunning, hopen, hcaller, -⟩ := h
  have hnot : s.caller ≠ .idle → s.caller.hasShut = false → False := fun hbusy hout => by
    cases hout.symm.trans (hcaller.resolve_left hbusy)
  cases hcalling with
  | skip hpoint hstarted =>
      refine ⟨⟨hrunning, hopen, .inl rfl, fun _ => hstarted⟩,
        work_lt_of_caller (fun _ => rfl) rfl rfl ?_, fun _ => rfl⟩
      rw [hpoint]
      simp only [CallerPoint.work]
      omega
  | halt hpoint hstarted =>
      refine ⟨⟨hrunning, hopen, .inr rfl, nofun⟩, work_lt_of_caller (fun _ => rfl) rfl rfl ?_, nofun⟩
      rw [hpoint]
      simp only [CallerPoint.work]
      omega
  | close i hpoint =>
      refine ⟨⟨hrunning, hopen, .inr rfl, nofun⟩, work_lt_of_caller (fun j => ?_) rfl rfl ?_, nofun⟩
      · rw [workerWork, workerWork]
        dsimp only
        by_cases hji : j = i
        · subst hji
          rw [Function.update_self]
          rfl
        · rw [Function.update_of_ne hji]
      · rw [hpoint]
        have hi := i.isLt
        simp only [CallerPoint.work]
        omega
  | closed k hpoint hk =>
      refine ⟨⟨hrunning, hopen, .inr rfl, nofun⟩, work_lt_of_caller (fun _ => rfl) rfl rfl ?_, nofun⟩
      rw [hpoint]
      simp only [CallerPoint.work]
      omega
  | join i hpoint hworker =>
      refine ⟨⟨hrunning, hopen, .inr rfl, nofun⟩, work_lt_of_caller (fun j => ?_) rfl rfl ?_, nofun⟩
      · rw [workerWork, workerWork]
        refine congrArg _ (forall_moveWorker (fun j p => p.work = (s.workers j).work) ?_
          (fun _ _ => rfl) j)
        cases hpoint : s.workers i with
        | running => exact absurd hpoint hworker
        | _ => rfl
      · rw [hpoint]
        have hi := i.isLt
        simp only [CallerPoint.work]
        omega
  | joined k hpoint hk =>
      refine ⟨⟨hrunning, hopen, .inr rfl, nofun⟩, work_lt_of_caller (fun _ => rfl) rfl rfl ?_, nofun⟩
      rw [hpoint]
      simp only [CallerPoint.work]
      omega
  | finish hpoint hreceiver =>
      refine ⟨⟨hrunning, hopen, .inl rfl, fun _ => hinv.started (by rw [hpoint]; rfl)⟩,
        work_lt_of_caller (fun _ => rfl) ?_ rfl ?_, fun _ => rfl⟩
      · cases hthread : s.receiver with
        | running => exact absurd hthread hreceiver
        | _ => rfl
      · rw [hpoint]
        simp only [CallerPoint.work]
        omega
  | again hpoint => exact (hnot (by rw [hpoint]; nofun) (by rw [hpoint]; rfl)).elim
  | begin hpoint => exact (hnot (by rw [hpoint]; nofun) (by rw [hpoint]; rfl)).elim
  | spawn i hpoint => exact (hnot (by rw [hpoint]; nofun) (by rw [hpoint]; rfl)).elim
  | arm k hpoint => exact (hnot (by rw [hpoint]; nofun) (by rw [hpoint]; rfl)).elim
  | spawnReceiver hpoint => exact (hnot (by rw [hpoint]; nofun) (by rw [hpoint]; rfl)).elim
  | clash hthread =>
      rcases hthread with ⟨i, hpoint, -⟩ | ⟨hpoint, -⟩
      · exact (hnot (by rw [hpoint]; nofun) (by rw [hpoint]; rfl)).elim
      · exact (hnot (by rw [hpoint]; nofun) (by rw [hpoint]; rfl)).elim
  | shut hpoint => exact (hnot (by rw [hpoint]; nofun) (by rw [hpoint]; rfl)).elim

omit [NeZero N] in
theorem Halting.beside (h : s.Halting) (hbeside : Beside s s') : s'.Halting := by
  refine ⟨hbeside.isRunning.trans h.isRunning, hbeside.socketOpen.trans h.socketOpen, ?_, ?_⟩
  · rw [hbeside.caller]
    exact h.caller
  · rw [hbeside.caller, hbeside.pipelineStarted]
    exact h.pipelineStarted

theorem Halting.working {i : Fin N} {now : Int} (h : s.Halting)
    (hworking : Working decodes s i now e s') : s'.Halting ∧ s'.work < s.work := by
  obtain ⟨hless, hsame⟩ := hworking.work
  have hreceiver : s'.receiver = s.receiver := by cases hworking <;> rfl
  have hbeside := hworking.beside
  refine ⟨h.beside hbeside, ?_⟩
  rw [work, work, hbeside.caller, hreceiver, hworking.handlers]
  refine Nat.add_lt_add_left (Finset.sum_lt_sum (fun j _ => ?_) ⟨i, Finset.mem_univ i, hless⟩) _
  by_cases hji : j = i
  · rw [hji]
    exact hless.le
  · exact (hsame j hji).le

omit [NeZero N] in
theorem Halting.receiver (h : s.Halting) (hreceiver : s.receiver = .running) :
    Halting { s with receiver := .left } ∧ work { s with receiver := .left } < s.work := by
  refine ⟨h.beside (beside_receiver hreceiver), ?_⟩
  have hsame : ∑ i, workerWork { s with receiver := .left } i = ∑ i, s.workerWork i :=
    Finset.sum_congr rfl fun _ _ => rfl
  rw [work, work, hsame, hreceiver]
  simp only [ThreadPoint.work]
  omega

theorem Halting.receiving (h : s.Halting) (hreceiving : Receiving s e s') :
    s'.Halting ∧ s'.work < s.work := by
  refine ⟨h.beside hreceiving.beside, ?_⟩
  cases hreceiving with
  | receive k p rest packet hpick hidle hopen => cases h.socketOpen.symm.trans hopen
  | leave k p rest hpick hidle =>
      have hwork : p.work = 1 := by
        cases p with
        | holding packet => cases hidle
        | _ => rfl
      have hsame : ∑ i, workerWork { s with handlers := rest } i = ∑ i, s.workerWork i :=
        Finset.sum_congr rfl fun _ _ => rfl
      rw [work, work, hsame, sum_of_pick hpick, hwork]
      dsimp only
      omega
  | rearm k rest hpick hrunning => cases h.isRunning.symm.trans hrunning
  | deliver k packet rest hpick =>
      have hsum := sum_delivered_le s packet rest
      have hhandlers : ((s.delivered packet rest).2.handlers.map HandlerPoint.work).sum =
          1 + (rest.map HandlerPoint.work).sum := rfl
      have hholding : (HandlerPoint.holding packet).work = 4 := rfl
      rw [work, work, hhandlers, sum_of_pick hpick, hholding]
      change s.caller.work N + s.receiver.work + _ + _ < _
      omega

theorem halting_of_trace {evs : List (PipelineEvent N)} (hinv : s.Inv) (h : s.Halting)
    (hbusy : s.caller ≠ .idle) (htrace : Trace (StepsWhere Winding (step decodes)) s evs s') :
    (s'.Inv ∧ s'.Halting) ∧ evs.length + s'.work ≤ s.work ∧
      (s'.caller = .idle → .stopped ∈ evs) := by
  refine Trace.invariant (P := fun evs s' => (s'.Inv ∧ s'.Halting) ∧
    evs.length + s'.work ≤ s.work ∧ (s'.caller = .idle → .stopped ∈ evs)) ?_ ?_ htrace
  · refine ⟨⟨hinv, h⟩, ?_, fun hidle => absurd hidle hbusy⟩
    rw [List.length_nil, Nat.zero_add]
  rintro evs m e s' - ⟨⟨hm, hhalting⟩, hle, hback⟩ ⟨a, hwinding, hstep⟩
  have hturn : s'.Halting ∧ s'.work < m.work ∧
      (s'.caller = .idle → e = .stopped ∨ m.caller = .idle) := by
    cases a with
    | start => exact hwinding.elim
    | stop => exact hwinding.elim
    | operation op => exact hwinding.elim
    | call =>
        obtain ⟨hnext, hless, hend⟩ := hhalting.calling hm (calling_of_callStep hstep)
        exact ⟨hnext, hless, fun hidle => .inl (hend hidle)⟩
    | work i now =>
        have hworking := working_of_workStep hstep
        obtain ⟨hnext, hless⟩ := hhalting.working hworking
        exact ⟨hnext, hless, fun hidle => .inr (hworking.beside.caller.symm.trans hidle)⟩
    | receiver =>
        obtain ⟨hreceiver, -, rfl⟩ := running_of_receiverStep hstep
        obtain ⟨hnext, hless⟩ := hhalting.receiver hreceiver
        exact ⟨hnext, hless, .inr⟩
    | receive k packet =>
        have hreceiving := receiving_of_receiveStep hstep
        obtain ⟨hnext, hless⟩ := hhalting.receiving hreceiving
        exact ⟨hnext, hless, fun hidle => .inr (hreceiving.beside.caller.symm.trans hidle)⟩
    | deliver k =>
        have hreceiving := receiving_of_deliverStep hstep
        obtain ⟨hnext, hless⟩ := hhalting.receiving hreceiving
        exact ⟨hnext, hless, fun hidle => .inr (hreceiving.beside.caller.symm.trans hidle)⟩
  obtain ⟨hnext, hless, hend⟩ := hturn
  refine ⟨⟨hm.turn (turn_of_step hstep), hnext⟩, ?_, fun hidle => ?_⟩
  · rw [List.length_append, List.length_singleton]
    omega
  · rcases hend hidle with rfl | hidle
    · exact List.mem_append_right _ List.mem_cons_self
    · exact List.mem_append_left _ (hback hidle)

/-- A worker whose ring is closed never waits. -/
theorem workStep_ne_none {i : Fin N} (now : Int) (hworker : s.workers i = .running)
    (hclosed : (s.reception.rings i).closed = true) : s.workStep decodes i now ≠ none := by
  intro hnone
  rw [workStep, hworker] at hnone
  dsimp only at hnone
  split at hnone
  · cases hnone
  · split at hnone
    · rename_i hpop
      rw [SpscRing.pop, hclosed] at hpop
      split at hpop
      · cases hpop
      · rw [SpscRing.take] at hpop
        dsimp only at hpop
        split at hpop <;> cases hpop
    · cases hnone
    · cases hnone

/-- Where none of its threads can go on, the stop has come back. -/
theorem idle_of_stuck (hinv : s.Inv)
    (hstuck : ∀ a, Joined a → s.step decodes a = none) : s.caller = .idle := by
  have hcall : s.callStep = none := hstuck .call trivial
  rw [callStep] at hcall
  split at hcall
  · assumption
  · split at hcall <;> cases hcall
  · split at hcall
    · split at hcall <;> cases hcall
    · cases hcall
  · split at hcall <;> cases hcall
  · cases hcall
  · split at hcall <;> cases hcall
  · split at hcall <;> cases hcall
  · rename_i k hcaller
    split at hcall
    · rename_i hk
      split at hcall
      · rename_i hworker
        exact absurd (hstuck (.work ⟨k, hk⟩ 0) trivial)
          (workStep_ne_none 0 hworker (hinv.joining k hcaller ⟨k, hk⟩).1)
      · cases hcall
    · cases hcall
  · split at hcall
    · rename_i hreceiver
      have hleave : s.receiverStep = none := hstuck .receiver trivial
      rw [receiverStep, hreceiver] at hleave
      cases hleave
    · cases hcall

/-- Once the socket is closed, a stop comes back, whether the handlers run or not: whatever the
schedule and whatever frames wait, only so many more steps are made, and where neither the stop
nor a thread that it joins can go on, it has come back and every thread is joined. -/
theorem stop_joins_all {before : List (PipelineEvent N)}
    (h : Trace (Steps (step decodes)) (fresh me config) before s)
    (hshut : s.caller.hasShut = true) :
    ∃ bound, ∀ (evs : List (PipelineEvent N)) (s' : ReceivePipeline N capacity),
      Trace (StepsWhere Winding (step decodes)) s evs s' → evs.length ≤ bound ∧
        ((∀ a, Joined a → s'.step decodes a = none) →
          .stopped ∈ evs ∧ s'.caller = .idle ∧ s'.receiver = .absent ∧
            ∀ i, s'.workers i = .absent) := by
  have hinv := inv_of_trace h
  have hbusy : s.caller ≠ .idle := fun hidle => by
    rw [hidle] at hshut
    cases hshut
  have hstops : s.caller.stops = true := by
    cases hcaller : s.caller <;> rw [hcaller] at hshut <;> first | rfl | cases hshut
  have hhalting : s.Halting := ⟨hinv.stops hstops, hinv.hasShut hshut, .inr hshut,
    fun hidle => absurd hidle hbusy⟩
  refine ⟨s.work, fun evs s' htrace => ?_⟩
  obtain ⟨⟨hinv', hhalting'⟩, hle, hback⟩ := halting_of_trace hinv hhalting hbusy htrace
  refine ⟨(Nat.le_add_right _ _).trans hle, fun hstuck => ?_⟩
  have hidle := idle_of_stuck hinv' hstuck
  obtain ⟨hreceiver, hworkers⟩ := hinv'.unstarted (hhalting'.pipelineStarted hidle)
    (by rw [hidle]; rfl)
  exact ⟨hback hidle, hidle, hreceiver, hworkers⟩

theorem stop_joins_all_stoppedOnce :
    ∃ before s, exec (step fun _ _ => true) (fresh ⟨1, 0, 9⟩ {} : ReceivePipeline 1 2)
        (stoppedOnce.take 11) = some (before, s) ∧ s.handlers = [.holding Reception.dataPacket] ∧
      ∃ bound, ∀ (evs : List (PipelineEvent 1)) (s' : ReceivePipeline 1 2),
        Trace (StepsWhere Winding (step fun _ _ => true)) s evs s' → evs.length ≤ bound ∧
          ((∀ a, Joined a → s'.step (fun _ _ => true) a = none) →
            .stopped ∈ evs ∧ s'.caller = .idle ∧ s'.receiver = .absent ∧
              ∀ i, s'.workers i = .absent) := by
  have hend : (exec (step fun _ _ => true) (fresh ⟨1, 0, 9⟩ {} : ReceivePipeline 1 2)
      (stoppedOnce.take 11)).map (fun p => (p.2.caller.hasShut, p.2.handlers)) =
        some (true, [.holding Reception.dataPacket]) := by
    rfl
  obtain ⟨⟨before, s⟩, h, hp⟩ := Option.map_eq_some_iff.mp hend
  obtain ⟨hshut, hhandlers⟩ := Prod.mk.inj hp
  exact ⟨before, s, h, hhandlers,
    stop_joins_all (trace_of_exec (fun _ _ _ => trivial) h) hshut⟩

end ReceivePipeline

end Edriel
