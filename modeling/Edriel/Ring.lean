import Edriel.Lib.BoundedQueue

namespace Edriel

open BoundedQueue

universe u

/-- A ring over `capacity` owning slots.  The counters are 64-bit and run on;
only their difference and their slot index are used. -/
structure SpscRing (T : Type u) (capacity : Nat) where
  slots : Vector (Option T) capacity := Vector.replicate capacity none
  head : UInt64 := 0
  tail : UInt64 := 0
  closed : Bool := false
  dropped : UInt64 := 0

namespace SpscRing

variable {T : Type u} {capacity : Nat}

def index (capacity : Nat) (position : UInt64) : Nat :=
  position.toNat % capacity

def slot (r : SpscRing T capacity) (position : UInt64) : Option T :=
  r.slots[index capacity position]?.join

def publish (r : SpscRing T capacity) (item : Option T) : SpscRing T capacity :=
  if r.closed || item.isNone then r
  else if (r.head - r.tail).toNat < capacity then
    { r with
      slots := r.slots.setIfInBounds (index capacity r.head) item
      head := r.head + 1 }
  else
    -- full: the slot at the read index is overwritten and stays the next one
    { r with
      slots := r.slots.setIfInBounds (index capacity r.tail) item
      dropped := r.dropped + 1 }

def take (r : SpscRing T capacity) : Taken T × SpscRing T capacity :=
  (match r.slot r.tail with
    | some x => .item x
    | none => .null,
    { r with
      slots := r.slots.setIfInBounds (index capacity r.tail) none
      tail := r.tail + 1 })

/-- The blocking form.  On an open empty ring it takes effect only later, so it
changes nothing here. -/
def pop (r : SpscRing T capacity) : Taken T × SpscRing T capacity :=
  if r.head = r.tail then (if r.closed then .null else .waits, r) else r.take

def tryPop (r : SpscRing T capacity) : Taken T × SpscRing T capacity :=
  if r.head = r.tail then (.null, r) else r.take

def close (r : SpscRing T capacity) : SpscRing T capacity :=
  { r with closed := true }

def size (r : SpscRing T capacity) : Nat :=
  (r.head - r.tail).toNat

def step (r : SpscRing T capacity) : Op T → List (Taken T) × SpscRing T capacity
  | .publish item => ([], r.publish item)
  | .pop => ([r.pop.1], r.pop.2)
  | .tryPop => ([r.tryPop.1], r.tryPop.2)
  | .close => ([], r.close)

/-- The operation is a publish that finds the ring full. -/
def overflows (r : SpscRing T capacity) : Op T → Bool
  | .publish (some _) => !r.closed && decide (capacity ≤ r.size)
  | _ => false

/-- The ring holds `items`, the oldest one at position `start`.  With `remaining`
operations to come, positions stay below `2 ^ 64` unless the slots divide it. -/
structure Holds (remaining start : Nat) (r : SpscRing T capacity) (items : List T)
    (closed : Bool) : Prop where
  tail : r.tail = UInt64.ofNat start
  head : r.head = UInt64.ofNat (start + items.length)
  closed : r.closed = closed
  length_le : items.length ≤ capacity
  range : capacity ∣ 2 ^ 64 ∨ start + items.length + remaining ≤ 2 ^ 64
  slots : ∀ i < items.length, r.slots[(start + i) % capacity]? = some items[i]?

theorem index_ofNat {p : Nat} (h : capacity ∣ 2 ^ 64 ∨ p < 2 ^ 64) :
    index capacity (UInt64.ofNat p) = p % capacity := by
  rw [index, UInt64.toNat_ofNat']
  rcases h with hdvd | hlt
  · exact Nat.mod_mod_of_dvd p hdvd
  · rw [Nat.mod_eq_of_lt hlt]

theorem index_ne (start : Nat) {i j : Nat} (hi : i < capacity) (hj : j < capacity)
    (hne : i ≠ j) : (start + i) % capacity ≠ (start + j) % capacity := by
  intro h
  have hmod : i ≡ j [MOD capacity] := Nat.ModEq.add_left_cancel' start h
  exact hne (hmod.eq_of_lt_of_lt hi hj)

namespace Holds

variable {remaining start : Nat} {r : SpscRing T capacity} {items : List T} {closed : Bool}

theorem size_eq (h : Holds remaining start r items closed) (hlt : capacity < 2 ^ 64) :
    r.size = items.length := by
  have hlen := h.length_le
  have hdiff : UInt64.ofNat (start + items.length) - UInt64.ofNat start =
      UInt64.ofNat items.length := by
    rw [UInt64.ofNat_add, add_comm, UInt64.add_sub_cancel]
  rw [size, h.head, h.tail, hdiff, UInt64.toNat_ofNat_of_lt' (by
    have : UInt64.size = 2 ^ 64 := rfl
    omega)]

theorem head_eq_tail_iff (h : Holds remaining start r items closed)
    (hlt : capacity < 2 ^ 64) : r.head = r.tail ↔ items = [] := by
  rw [← List.length_eq_zero_iff, ← h.size_eq hlt, size]
  constructor
  · intro heq
    simp [heq]
  · intro hzero
    have hdiff : r.head - r.tail = 0 := UInt64.toNat_inj.mp (by simpa using hzero)
    rw [← UInt64.sub_add_cancel r.head r.tail, hdiff, UInt64.zero_add]

theorem overflows_eq (h : Holds remaining start r items closed) (hlt : capacity < 2 ^ 64)
    (op : Op T) : r.overflows op = Queue.overflows capacity ⟨items, closed⟩ op := by
  cases op with
  | publish item => cases item <;> simp [overflows, Queue.overflows, h.size_eq hlt, h.closed]
  | pop => rfl
  | tryPop => rfl
  | close => rfl

theorem wait (h : Holds (remaining + 1) start r items closed) :
    Holds remaining start r items closed where
  tail := h.tail
  head := h.head
  closed := h.closed
  length_le := h.length_le
  range := h.range.imp_right (by omega)
  slots := h.slots

theorem index_tail (h : Holds (remaining + 1) start r items closed) :
    index capacity r.tail = start % capacity := by
  rw [h.tail]
  exact index_ofNat (h.range.imp_right (by omega))

theorem index_head (h : Holds (remaining + 1) start r items closed) :
    index capacity r.head = (start + items.length) % capacity := by
  rw [h.head]
  exact index_ofNat (h.range.imp_right (by omega))

theorem publish_free (h : Holds (remaining + 1) start r items false)
    (hlt : capacity < 2 ^ 64) (hfree : items.length < capacity) (x : T) :
    Holds remaining start (r.publish (some x)) (items ++ [x]) false := by
  have hclosed : r.closed = false := h.closed
  have hsize : (r.head - r.tail).toNat = items.length := h.size_eq hlt
  rw [publish, hclosed, hsize, if_neg (by simp), if_pos hfree, h.index_head]
  constructor
  case tail => exact h.tail
  case head =>
    change r.head + 1 = _
    rw [h.head, List.length_append, List.length_singleton, ← add_assoc,
      UInt64.ofNat_add _ 1]
    rfl
  case closed => rfl
  case length_le => simpa using hfree
  case range =>
    refine h.range.imp_right fun hle => ?_
    rw [List.length_append, List.length_singleton]
    omega
  case slots =>
    intro i hi
    rw [List.length_append, List.length_singleton] at hi
    change (r.slots.setIfInBounds _ _)[_]? = _
    rcases Nat.lt_succ_iff_lt_or_eq.mp hi with hold | rfl
    · have hne := index_ne start hfree (by omega : i < capacity) (by omega)
      rw [Vector.getElem?_setIfInBounds_ne hne, h.slots i hold,
        List.getElem?_append_left hold]
    · rw [Vector.getElem?_setIfInBounds_self_of_lt (Nat.mod_lt _ (by omega))]
      simp

theorem publish_full {y : T} {ys : List T}
    (h : Holds (remaining + 1) start r (y :: ys) false) (hlt : capacity < 2 ^ 64)
    (hfull : (y :: ys).length = capacity) (x : T) :
    Holds remaining start (r.publish (some x)) (x :: ys) false := by
  have hclosed : r.closed = false := h.closed
  have hsize : (r.head - r.tail).toNat = (y :: ys).length := h.size_eq hlt
  have hpos : 0 < capacity := hfull ▸ Nat.succ_pos _
  rw [publish, hclosed, hsize, if_neg (by simp), if_neg (by omega), h.index_tail]
  constructor
  case tail => exact h.tail
  case head => exact h.head
  case closed => rfl
  case length_le => exact h.length_le
  case range => exact h.wait.range
  case slots =>
    intro i hi
    have hi : i < (y :: ys).length := hi
    change (r.slots.setIfInBounds _ _)[_]? = _
    cases i with
    | zero =>
        rw [add_zero, Vector.getElem?_setIfInBounds_self_of_lt (Nat.mod_lt _ hpos)]
        rfl
    | succ i =>
        have hne := index_ne start hpos (by omega : i + 1 < capacity) (by omega)
        rw [add_zero] at hne
        rw [Vector.getElem?_setIfInBounds_ne hne, h.slots (i + 1) hi]
        rfl

theorem take_cons {y : T} {ys : List T}
    (h : Holds (remaining + 1) start r (y :: ys) closed) (hpos : 0 < capacity) :
    r.take.1 = .item y ∧ Holds remaining (start + 1) r.take.2 ys closed := by
  have hlen : ys.length + 1 ≤ capacity := h.length_le
  have hfirst : r.slots[start % capacity]? = some (some y) := h.slots 0 (by simp)
  have hread : r.slot r.tail = some y := by
    rw [slot, h.index_tail, hfirst]
    rfl
  refine ⟨by rw [take, hread], ?_⟩
  constructor
  case tail =>
    change r.tail + 1 = _
    rw [h.tail, UInt64.ofNat_add start 1]
    rfl
  case head =>
    change r.head = _
    rw [h.head, List.length_cons, add_right_comm, add_assoc start]
  case closed => exact h.closed
  case length_le => omega
  case range =>
    refine h.range.imp_right fun hle => ?_
    rw [List.length_cons] at hle
    omega
  case slots =>
    intro i hi
    have hne := index_ne start hpos (by omega : i + 1 < capacity) (by omega)
    rw [add_zero] at hne
    change (r.slots.setIfInBounds _ _)[_]? = _
    rw [h.index_tail, add_assoc, add_comm 1 i, Vector.getElem?_setIfInBounds_ne hne,
      h.slots (i + 1) (Nat.succ_lt_succ hi)]
    rfl

theorem publish_some (h : Holds (remaining + 1) start r items closed)
    (hpos : 0 < capacity) (hlt : capacity < 2 ^ 64) (x : T) :
    Holds remaining start (r.publish (some x))
      ((⟨items, closed⟩ : Queue T).publish capacity replaceOldest (some x)).items
      ((⟨items, closed⟩ : Queue T).publish capacity replaceOldest (some x)).closed := by
  cases closed with
  | true =>
      have hclosed : r.closed = true := h.closed
      rw [publish, hclosed, if_pos (by simp), Queue.publish_closed]
      exact h.wait
  | false =>
      rcases h.length_le.lt_or_eq with hfree | hfull
      · rw [Queue.publish_of_lt x hfree]
        exact h.publish_free hlt hfree x
      · rw [Queue.publish_of_full x hfull.ge]
        obtain ⟨y, ys, rfl⟩ := List.exists_cons_of_length_pos (hfull ▸ hpos)
        exact h.publish_full hlt hfull x

end Holds

/-- One operation: the ring answers like the queue that replaces its oldest
object in place, and goes on to hold the same objects. -/
theorem step_simulates (hpos : 0 < capacity) (hlt : capacity < 2 ^ 64) (remaining : Nat)
    (r : SpscRing T capacity) (q : Queue T) (op : Op T)
    (hsim : ∃ start, Holds (remaining + 1) start r q.items q.closed) :
    (r.step op).1 = (Queue.step capacity replaceOldest q op).1 ∧
      r.overflows op = Queue.overflows capacity q op ∧
        ∃ start, Holds remaining start (r.step op).2
          (Queue.step capacity replaceOldest q op).2.items
          (Queue.step capacity replaceOldest q op).2.closed := by
  obtain ⟨items, closed⟩ := q
  obtain ⟨start, h⟩ := hsim
  have hover := h.overflows_eq hlt op
  have hclosed : r.closed = closed := h.closed
  cases op with
  | publish item =>
      refine ⟨rfl, hover, start, ?_⟩
      cases item with
      | none =>
          have hnone : r.publish none = r := by simp [publish]
          rw [step, hnone]
          exact h.wait
      | some x => exact h.publish_some hpos hlt x
  | pop =>
      cases items with
      | nil =>
          have hempty : r.head = r.tail := (h.head_eq_tail_iff hlt).mpr rfl
          rw [step, pop, if_pos hempty, hclosed]
          exact ⟨rfl, hover, start, h.wait⟩
      | cons y ys =>
          have hsome : r.head ≠ r.tail := by simp [h.head_eq_tail_iff hlt]
          obtain ⟨hanswer, hnext⟩ := h.take_cons hpos
          rw [step, pop, if_neg hsome, hanswer]
          exact ⟨rfl, hover, start + 1, hnext⟩
  | tryPop =>
      cases items with
      | nil =>
          have hempty : r.head = r.tail := (h.head_eq_tail_iff hlt).mpr rfl
          rw [step, tryPop, if_pos hempty]
          exact ⟨rfl, hover, start, h.wait⟩
      | cons y ys =>
          have hsome : r.head ≠ r.tail := by simp [h.head_eq_tail_iff hlt]
          obtain ⟨hanswer, hnext⟩ := h.take_cons hpos
          rw [step, tryPop, if_neg hsome, hanswer]
          exact ⟨rfl, hover, start + 1, hnext⟩
  | close =>
      have hkeep := h.wait
      exact ⟨rfl, hover, start, hkeep.tail, hkeep.head, rfl, hkeep.length_le, hkeep.range,
        hkeep.slots⟩

/-- The ring is a bounded queue whose overflow replaces the object that leaves
next. -/
theorem taken_eq_queue (hpos : 0 < capacity) (hlt : capacity < 2 ^ 64)
    (ops : List (Op T)) (hrange : capacity ∣ 2 ^ 64 ∨ ops.length ≤ 2 ^ 64) :
    taken step ({} : SpscRing T capacity) ops =
        taken (Queue.step capacity replaceOldest) {} ops ∧
      (TakenBeforeOverflow overflows step ({} : SpscRing T capacity) ops ↔
        TakenBeforeOverflow (Queue.overflows capacity)
          (Queue.step capacity replaceOldest) {} ops) := by
  refine taken_of_simulation (fun n r q => ∃ start, Holds n start r q.items q.closed)
    (fun n r q op => step_simulates hpos hlt n r q op) ops _ _ ?_
  exact ⟨0, rfl, rfl, rfl, Nat.zero_le _, by simpa using hrange, by simp⟩

/-- The objects that pops return are those of a bounded queue that drops its
oldest object exactly when the ring has a single slot or nothing is popped after
an overflow.  Every publication hands over an object of its own. -/
theorem taken_eq_dropOldest_iff (hpos : 0 < capacity) (hlt : capacity < 2 ^ 64)
    (ops : List (Op T)) (hrange : capacity ∣ 2 ^ 64 ∨ ops.length ≤ 2 ^ 64) :
    taken step ({} : SpscRing (Nat × T) capacity) (number 0 ops) =
        taken (Queue.step capacity dropOldest) {} (number 0 ops) ↔
      capacity = 1 ∨
        TakenBeforeOverflow overflows step ({} : SpscRing (Nat × T) capacity)
          (number 0 ops) := by
  have hlen := length_number ops 0
  obtain ⟨htaken, hbefore⟩ := taken_eq_queue (T := Nat × T) hpos hlt (number 0 ops)
    (hrange.imp_right (by omega))
  rw [htaken, hbefore]
  exact taken_replaceOldest_eq_iff hpos (Nat.zero_le _)
    (by simpa using nodup_published_number ops 0)

/-- Two slots and three publications: the newest object leaves first. -/
theorem taken_dropOldest_two_slots_fails :
    taken step ({} : SpscRing (Nat × Unit) 2)
        (number 0 [.publish (some ()), .publish (some ()), .publish (some ()), .pop]) ≠
      taken (Queue.step 2 dropOldest) {}
        (number 0 [.publish (some ()), .publish (some ()), .publish (some ()), .pop]) := by
  decide

/-- Two publications, one of them taken, and two more: the last one overflows. -/
def overflowsLast : List (Op Unit) :=
  [.publish (some ()), .publish (some ()), .pop, .publish (some ()), .publish (some ())]

theorem taken_eq_dropOldest_iff_two_slots :
    (after step ({} : SpscRing (Nat × Unit) 2) (number 0 overflowsLast)).dropped = 1 ∧
    (taken step ({} : SpscRing (Nat × Unit) 2) (number 0 overflowsLast) =
        taken (Queue.step 2 dropOldest) {} (number 0 overflowsLast) ↔
      2 = 1 ∨ TakenBeforeOverflow overflows step ({} : SpscRing (Nat × Unit) 2)
        (number 0 overflowsLast)) :=
  ⟨by decide, taken_eq_dropOldest_iff (by decide) (by decide) _ (.inl (by decide))⟩

end SpscRing

end Edriel
