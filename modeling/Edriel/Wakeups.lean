import Edriel.Lib.Monitor
import Edriel.Conservation

/-!
The ring under its mutex: the worker that blocks in `pop`, the receive handler that wakes it
only when the ring was empty, and whoever closes the ring.
-/

namespace Edriel

open BoundedQueue Interleaving Monitor

universe u

namespace SpscRing

variable {T : Type u} {capacity : Nat}

/-- What the other threads call. -/
inductive Call (T : Type u) where
  | publish (item : Option T)
  | tryPop
  | close

/-- `cv_.notify_one()`: the ring was empty, and the item is not turned away. -/
def publishNotifies (r : SpscRing T capacity) (item : Option T) : Bool :=
  !(r.closed || item.isNone) && decide (r.head = r.tail)

def ready (r : SpscRing T capacity) : Bool :=
  decide (r.head ≠ r.tail) || r.closed

def sections (T : Type u) (capacity : Nat) :
    Sections (SpscRing T capacity) (Call T) (Taken T) where
  ready := ready
  enter r
    | .publish item => (r.publishNotifies item, r.publish item)
    | .tryPop => (false, r.tryPop.2)
    | .close => (true, r.close)
  leave r := if r.head = r.tail then (.null, r) else r.take

theorem not_ready_iff (r : SpscRing T capacity) :
    r.ready = false ↔ r.head = r.tail ∧ r.closed = false := by
  simp [ready]

theorem alerts_sections (T : Type u) (capacity : Nat) : Alerts (sections T capacity) := by
  intro r call hnot hready
  change r.ready = false at hnot
  obtain ⟨hempty, hopen⟩ := (not_ready_iff r).mp hnot
  cases call with
  | publish item =>
      change r.publishNotifies item = true
      change (r.publish item).ready = true at hready
      cases item with
      | none =>
          have hsame : r.publish none = r := by
            rw [publish, Option.isNone_none, Bool.or_true, if_pos rfl]
          rw [hsame, hnot] at hready
          cases hready
      | some x => simp [publishNotifies, hopen, hempty]
  | tryPop =>
      change r.tryPop.2.ready = true at hready
      rw [tryPop, if_pos hempty] at hready
      exact absurd hready (Bool.eq_false_iff.mp hnot)
  | close => rfl

/-- The worker's last look at the predicate is where its `pop` takes effect. -/
theorem leave_eq_pop {r : SpscRing T capacity} (h : r.ready = true) :
    (sections T capacity).leave r = r.pop := by
  change (if r.head = r.tail then (.null, r) else r.take) = r.pop
  rw [pop]
  split_ifs with hempty hclosed
  · rfl
  · simp [ready, hempty, hclosed] at h
  · rfl

def op? : Event (Call T) (Taken T) → Option (Op T)
  | .entered (.publish item) => some (.publish item)
  | .entered .tryPop => some .tryPop
  | .entered .close => some .close
  | .waits => some .pop
  | .left _ => some .pop
  | .woke => none

theorem ring_concat (ops : List (Op T)) (op : Op T) :
    ring capacity (ops ++ [op]) = ((ring capacity ops).step op).2 :=
  after_append SpscRing.step ops [op] {}

theorem shared_of_check (r : SpscRing T capacity) :
    op? (check (sections T capacity) r).1 = some .pop ∧
      (check (sections T capacity) r).2.shared = (r.step .pop).2 := by
  rw [check]
  cases hready : r.ready with
  | true =>
      have hleaves : (sections T capacity).ready r = true := hready
      rw [if_pos hleaves, leave_eq_pop hready]
      exact ⟨rfl, rfl⟩
  | false =>
      obtain ⟨hempty, hopen⟩ := (not_ready_iff r).mp hready
      have hblocks : ¬ (sections T capacity).ready r = true := Bool.eq_false_iff.mp hready
      rw [if_neg hblocks]
      refine ⟨rfl, ?_⟩
      change r = r.pop.2
      rw [pop, if_pos hempty, hopen]

/-- What the threads do to the ring together is a sequence of its operations, to which
everything applies that is known of such sequences. -/
theorem shared_eq_ring {evs : List (Event (Call T) (Taken T))}
    {s : State (SpscRing T capacity)}
    (h : Trace (Steps (Monitor.step (sections T capacity))) { shared := {} } evs s) :
    s.shared = ring capacity (evs.filterMap op?) := by
  refine Trace.invariant (P := fun evs s => s.shared = ring capacity (evs.filterMap op?))
    rfl ?_ h
  rintro evs s e s' - hinv ⟨a, -, hstep⟩
  have hone : ∀ {op : Op T}, op? e = some op → s'.shared = (s.shared.step op).2 →
      s'.shared = ring capacity ((evs ++ [e]).filterMap op?) := by
    intro op hop hshared
    rw [List.filterMap_append, List.filterMap_cons_some hop, List.filterMap_nil, ring_concat,
      ← hinv]
    exact hshared
  have hpop : check (sections T capacity) s.shared = (e, s') →
      s'.shared = ring capacity ((evs ++ [e]).filterMap op?) := by
    intro hcheck
    have hshared := shared_of_check s.shared
    rw [hcheck] at hshared
    exact hone hshared.1 hshared.2
  cases a with
  | enter call =>
      obtain ⟨rfl, rfl⟩ := Prod.mk.inj (Option.some.inj hstep)
      cases call with
      | publish item => exact hone rfl rfl
      | tryPop => exact hone rfl rfl
      | close => exact hone rfl rfl
  | call =>
      rw [Monitor.step] at hstep
      split at hstep
      · exact hpop (Option.some.inj hstep)
      · cases hstep
  | spurious =>
      rw [Monitor.step] at hstep
      split at hstep
      · obtain ⟨rfl, rfl⟩ := Prod.mk.inj (Option.some.inj hstep)
        rw [List.filterMap_append]
        exact hinv.trans (congrArg _ (List.append_nil _).symm)
      · cases hstep
  | resume =>
      rw [Monitor.step] at hstep
      split at hstep
      · exact hpop (Option.some.inj hstep)
      · cases hstep

/-- In every interleaving of publishing, closing and popping, a worker that waits and has not
been notified waits at an empty ring that is not closed. -/
theorem no_lost_wakeup {evs : List (Event (Call T) (Taken T))}
    {s : State (SpscRing T capacity)}
    (h : Trace (Steps (Monitor.step (sections T capacity))) { shared := {} } evs s)
    (hwaiting : s.waiter = .waiting) :
    s.shared.head = s.shared.tail ∧ s.shared.closed = false :=
  (not_ready_iff s.shared).mp (not_ready_of_waiting (alerts_sections T capacity) h hwaiting)

/-- The worker takes a frame, waits, is woken for no reason and waits again. -/
def spuriousWakeup : List (Action (Call Nat)) :=
  [.enter (.publish (some 5)), .call, .call, .spurious, .resume]

theorem no_lost_wakeup_spurious :
    ∃ evs s, exec (Monitor.step (sections Nat 2)) { shared := {} } spuriousWakeup =
        some (evs, s) ∧
      s.waiter = .waiting ∧ s.shared.head = s.shared.tail ∧ s.shared.closed = false := by
  have hwaits : (exec (Monitor.step (sections Nat 2)) { shared := {} } spuriousWakeup).map
      (fun p => p.2.waiter) = some .waiting := rfl
  obtain ⟨⟨evs, s⟩, hrun, hwaiting⟩ := Option.map_eq_some_iff.mp hwaits
  have htrace := trace_of_exec (fun _ _ _ => trivial) hrun
  exact ⟨evs, s, hrun, hwaiting, no_lost_wakeup htrace hwaiting⟩

end SpscRing

end Edriel
