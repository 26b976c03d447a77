import Edriel.Ring

namespace Edriel

open BoundedQueue

universe u

namespace SpscRing

variable {T : Type u} {capacity : Nat}

def accepts (r : SpscRing T capacity) : Op T → Option T
  | .publish item => if r.closed then none else item
  | _ => none

/-- The object that a publish to a full ring destroys. -/
def overwrites (r : SpscRing T capacity) (op : Op T) : Option T :=
  if r.overflows op then r.slot r.tail else none

def ring (capacity : Nat) (ops : List (Op T)) : SpscRing T capacity :=
  after step {} ops

def accepted (capacity : Nat) (ops : List (Op T)) : List T :=
  gather accepts step ({} : SpscRing T capacity) ops

def overwritten (capacity : Nat) (ops : List (Op T)) : List T :=
  gather overwrites step ({} : SpscRing T capacity) ops

/-- What can have become of an object: the answer of some `pop` or `tryPop`, the
content of some position, or the loss of some overflow. -/
inductive Site where
  | returned (k : Nat)
  | held (position : UInt64)
  | overwritten (k : Nat)

def At (capacity : Nat) (ops : List (Op T)) (x : T) : Site → Prop
  | .returned k => (taken step ({} : SpscRing T capacity) ops)[k]? = some (.item x)
  | .held position =>
      (ring capacity ops).tail ≤ position ∧ position < (ring capacity ops).head ∧
        (ring capacity ops).slot position = some x
  | .overwritten k => (overwritten capacity ops)[k]? = some x

/-- The worker's loop pops until a pop answers null. -/
def workerLoopBreaks : SpscRing T capacity → List (Op T) → Bool
  | _, [] => false
  | r, .pop :: ops =>
      match r.pop.1 with
      | .null => true
      | _ => workerLoopBreaks r.pop.2 ops
  | r, op :: ops => workerLoopBreaks (r.step op).2 ops

structure Conserved (capacity : Nat) (ops : List (Op T)) : Prop where
  site : ∀ x ∈ accepted capacity ops, ∃! site, At capacity ops x site
  dropped : (overwritten capacity ops).length = (ring capacity ops).dropped.toNat
  size_le : (ring capacity ops).size ≤ capacity
  isSome : ∀ position, (ring capacity ops).tail ≤ position →
    position < (ring capacity ops).head → ((ring capacity ops).slot position).isSome
  null : (ring capacity ops).pop.1 = .null →
    (ring capacity ops).closed = true ∧ (ring capacity ops).head = (ring capacity ops).tail
  workerLoop : workerLoopBreaks ({} : SpscRing T capacity) ops = true →
    (ring capacity ops).closed = true ∧ (ring capacity ops).head = (ring capacity ops).tail

/-- Positions do not wrap while operations are fewer than `2 ^ 64`. -/
theorem order_of_step {r : SpscRing T capacity} (op : Op T) (hle : r.tail ≤ r.head)
    (hlt : r.head.toNat + 1 < 2 ^ 64) :
    (r.step op).2.tail ≤ (r.step op).2.head ∧
      (r.step op).2.head.toNat ≤ r.head.toNat + 1 := by
  have hhead : (r.head + 1).toNat = r.head.toNat + 1 := by
    rw [UInt64.toNat_add, UInt64.toNat_one, Nat.mod_eq_of_lt hlt]
  have htake : r.head ≠ r.tail → r.tail + 1 ≤ r.head := by
    intro hne
    rw [UInt64.le_iff_toNat_le] at hle ⊢
    have hne' : r.head.toNat ≠ r.tail.toNat := fun h => hne (UInt64.toNat_inj.mp h)
    rw [UInt64.toNat_add, UInt64.toNat_one, Nat.mod_eq_of_lt (by omega)]
    omega
  cases op with
  | publish item =>
      change (r.publish item).tail ≤ (r.publish item).head ∧ _
      rw [step, publish]
      split
      · exact ⟨hle, Nat.le_succ _⟩
      · split
        · refine ⟨?_, hhead.le⟩
          rw [UInt64.le_iff_toNat_le] at hle ⊢
          change r.tail.toNat ≤ (r.head + 1).toNat
          omega
        · exact ⟨hle, Nat.le_succ _⟩
  | pop =>
      rw [step, pop]
      split
      · exact ⟨hle, Nat.le_succ _⟩
      · next hne => exact ⟨htake hne, Nat.le_succ _⟩
  | tryPop =>
      rw [step, tryPop]
      split
      · exact ⟨hle, Nat.le_succ _⟩
      · next hne => exact ⟨htake hne, Nat.le_succ _⟩
  | close => exact ⟨hle, Nat.le_succ _⟩

theorem order_of_run (ops : List (Op T)) : ∀ r : SpscRing T capacity, r.tail ≤ r.head →
    r.head.toNat + ops.length < 2 ^ 64 → (after step r ops).tail ≤ (after step r ops).head := by
  induction ops with
  | nil => intro r hle _; exact hle
  | cons op ops ih =>
      intro r hle hlt
      rw [List.length_cons] at hlt
      obtain ⟨hnext, hhead⟩ := order_of_step op hle (by omega)
      exact ih _ hnext (by omega)

theorem pos_of_overflows {items : List T} {closed : Bool} {op : Op T} (hpos : 0 < capacity)
    (hover : Queue.overflows capacity ⟨items, closed⟩ op = true) : 0 < items.length := by
  cases op with
  | publish item =>
      rcases item with _ | x
      · simp [Queue.overflows] at hover
      · have hfull : closed = false ∧ capacity ≤ items.length := by
          simpa [Queue.overflows] using hover
        exact hpos.trans_le hfull.2
  | _ => simp [Queue.overflows] at hover

theorem live_of_lt {r : SpscRing T capacity} (hle : r.tail ≤ r.head) {i : Nat}
    (hi : i < r.size) :
    r.tail ≤ r.tail + UInt64.ofNat i ∧ r.tail + UInt64.ofNat i < r.head := by
  rw [size, UInt64.toNat_sub_of_le _ _ hle] at hi
  have hhead := r.head.toNat_lt
  have hposition : (r.tail + UInt64.ofNat i).toNat = r.tail.toNat + i := by
    rw [UInt64.toNat_add, UInt64.toNat_ofNat', Nat.add_mod_mod, Nat.mod_eq_of_lt (by omega)]
  rw [UInt64.le_iff_toNat_le, UInt64.lt_iff_toNat_lt, hposition]
  omega

namespace Holds

variable {remaining start : Nat} {r : SpscRing T capacity} {items : List T} {closed : Bool}

theorem slot_eq (h : Holds remaining start r items closed) {i : Nat} (hi : i < items.length) :
    r.slot (r.tail + UInt64.ofNat i) = items[i]? := by
  rw [slot, h.tail, ← UInt64.ofNat_add, index_ofNat (h.range.imp_right (by omega)),
    h.slots i hi]
  rfl

theorem slot_of_live (h : Holds remaining start r items closed) (hlt : capacity < 2 ^ 64)
    {position : UInt64} (hle : r.tail ≤ position) (hhead : position < r.head) :
    (position - r.tail).toNat < items.length ∧
      r.slot position = items[(position - r.tail).toNat]? := by
  have hsize := h.size_eq hlt
  have hoffset : (position - r.tail).toNat < items.length := by
    rw [← hsize, size]
    rw [UInt64.le_iff_toNat_le] at hle
    rw [UInt64.lt_iff_toNat_lt] at hhead
    rw [UInt64.toNat_sub_of_le _ _ (UInt64.le_iff_toNat_le.mpr hle),
      UInt64.toNat_sub_of_le _ _ (UInt64.le_iff_toNat_le.mpr (by omega))]
    omega
  refine ⟨hoffset, ?_⟩
  rw [← h.slot_eq hoffset, UInt64.ofNat_toNat, add_comm, UInt64.sub_add_cancel]

theorem overwrites_eq (h : Holds remaining start r items closed) (hpos : 0 < capacity)
    (hlt : capacity < 2 ^ 64) (op : Op T) :
    r.overwrites op = Queue.loses capacity ⟨items, closed⟩ op := by
  rw [overwrites, Queue.loses, h.overflows_eq hlt]
  cases hover : Queue.overflows capacity ⟨items, closed⟩ op with
  | false => rfl
  | true =>
      have hslot := h.slot_eq (pos_of_overflows hpos hover)
      rw [if_pos rfl, if_pos rfl, List.head?_eq_getElem?, ← hslot]
      simp

theorem isSome_overwrites (h : Holds remaining start r items closed) (hpos : 0 < capacity)
    (hlt : capacity < 2 ^ 64) (op : Op T) : (r.overwrites op).isSome = r.overflows op := by
  rw [h.overwrites_eq hpos hlt, h.overflows_eq hlt, Queue.loses]
  cases hover : Queue.overflows capacity ⟨items, closed⟩ op with
  | false => rfl
  | true =>
      have hitems := pos_of_overflows hpos hover
      rw [if_pos rfl, List.isSome_head?]
      simpa using List.length_pos_iff.mp hitems

/-- A null answer comes from the end of the ring, never from a slot. -/
theorem drained_of_null (h : Holds remaining start r items closed) (hlt : capacity < 2 ^ 64)
    (hnull : r.pop.1 = .null) : r.closed = true ∧ r.head = r.tail := by
  by_cases hempty : r.head = r.tail
  · refine ⟨?_, hempty⟩
    rw [pop, if_pos hempty] at hnull
    by_contra hopen
    rw [if_neg hopen] at hnull
    cases hnull
  · have hitems : 0 < items.length :=
      List.length_pos_iff.mpr fun hnil => hempty ((h.head_eq_tail_iff hlt).mpr hnil)
    have hslot : r.slot r.tail = some items[0] := by
      simpa [List.getElem?_eq_getElem hitems] using h.slot_eq hitems
    rw [pop, if_neg hempty, take, hslot] at hnull
    cases hnull

end Holds

theorem step_of_drained {r : SpscRing T capacity} (hclosed : r.closed = true)
    (hempty : r.head = r.tail) (op : Op T) : (r.step op).2 = r := by
  cases op with
  | publish item => rw [step, publish, hclosed, Bool.true_or, if_pos rfl]
  | pop => rw [step, pop, if_pos hempty]
  | tryPop => rw [step, tryPop, if_pos hempty]
  | close => rw [step, close, ← hclosed]

theorem after_of_drained {r : SpscRing T capacity} (hclosed : r.closed = true)
    (hempty : r.head = r.tail) (ops : List (Op T)) : after step r ops = r := by
  induction ops with
  | nil => rfl
  | cons op ops ih => rw [after, step_of_drained hclosed hempty, ih]

theorem holds_empty {remaining : Nat} (h : capacity ∣ 2 ^ 64 ∨ remaining ≤ 2 ^ 64) :
    Holds remaining 0 ({} : SpscRing T capacity) [] false :=
  ⟨rfl, rfl, rfl, Nat.zero_le _, by simpa using h, by simp⟩

theorem gather_eq_queue (hpos : 0 < capacity) (hlt : capacity < 2 ^ 64)
    {mark : SpscRing T capacity → Op T → Option T} {markQueue : Queue T → Op T → Option T}
    (hmark : ∀ remaining start r items closed op, Holds remaining start r items closed →
      mark r op = markQueue ⟨items, closed⟩ op)
    (ops : List (Op T)) (hrange : capacity ∣ 2 ^ 64 ∨ ops.length ≤ 2 ^ 64) :
    gather mark step ({} : SpscRing T capacity) ops =
        gather markQueue (Queue.step capacity replaceOldest) {} ops ∧
      ∃ start, Holds 0 start (ring capacity ops)
        (after (Queue.step capacity replaceOldest) {} ops).items
        (after (Queue.step capacity replaceOldest) {} ops).closed := by
  refine gather_of_simulation
    (fun n r (q : Queue T) => ∃ start, Holds n start r q.items q.closed)
    (fun n r q op hsim => ?_) ops _ _ ⟨0, holds_empty hrange⟩
  refine ⟨?_, (step_simulates hpos hlt n r q op hsim).2.2⟩
  obtain ⟨start, h⟩ := hsim
  exact hmark _ _ _ _ _ op h

theorem Holds.accepts_eq {remaining start : Nat} {r : SpscRing T capacity} {items : List T}
    {closed : Bool} (h : Holds remaining start r items closed) (op : Op T) :
    r.accepts op = Queue.accepts ⟨items, closed⟩ op := by
  cases op <;> simp [accepts, Queue.accepts, h.closed]

/-- The objects a ring accepted are those it returned, those it holds and those
it overwrote. -/
theorem account (hpos : 0 < capacity) (hlt : capacity < 2 ^ 64) (ops : List (Op T))
    (hrange : capacity ∣ 2 ^ 64 ∨ ops.length ≤ 2 ^ 64) :
    ∃ start items, Holds 0 start (ring capacity ops) items (ring capacity ops).closed ∧
      (accepted capacity ops).Perm
        (returned step ({} : SpscRing T capacity) ops ++
          (items ++ overwritten capacity ops)) ∧
      (accepted capacity ops).Sublist (published ops) := by
  let queue := Queue.step (T := T) capacity replaceOldest
  obtain ⟨haccepted, start, hholds⟩ :=
    gather_eq_queue (T := T) hpos hlt (fun _ _ _ _ _ op h => h.accepts_eq op) ops hrange
  obtain ⟨hoverwritten, -⟩ :=
    gather_eq_queue (T := T) hpos hlt (fun _ _ _ _ _ op h => h.overwrites_eq hpos hlt op) ops
      hrange
  have hreturned : returned step ({} : SpscRing T capacity) ops = returned queue {} ops := by
    rw [returned, (taken_eq_queue hpos hlt ops hrange).1, returned]
  have hevict : ∀ (x y : T) (ys : List T), (replaceOldest x (y :: ys)).Perm (x :: ys) :=
    fun x _ ys => List.Perm.refl (x :: ys)
  have hrun := Queue.items_of_run hpos hevict ops {}
  have hclosed : (ring capacity ops).closed = (after queue {} ops).closed := hholds.closed
  refine ⟨start, (after queue {} ops).items, hclosed ▸ hholds, ?_, ?_⟩
  · rw [accepted, haccepted, hreturned, overwritten, hoverwritten]
    exact hrun
  · rw [accepted, haccepted]
    exact Queue.accepted_sublist ops {}

/-- Objects that differ by their publication have one site each. -/
theorem existsUnique_site (hpos : 0 < capacity) (hlt : capacity < 2 ^ 64) (ops : List (Op T))
    (hlen : ops.length < 2 ^ 64) (hnodup : (published ops).Nodup) :
    ∀ x ∈ accepted capacity ops, ∃! site, At capacity ops x site := by
  obtain ⟨start, items, hholds, hperm, hsub⟩ := account hpos hlt ops (.inr hlen.le)
  obtain ⟨hreturned, hrest, hapart⟩ :=
    List.nodup_append'.mp (hperm.nodup_iff.mp (hnodup.sublist hsub))
  obtain ⟨hitems, hlost, hapart'⟩ := List.nodup_append'.mp hrest
  have horder : (ring capacity ops).tail ≤ (ring capacity ops).head :=
    order_of_run ops {} (UInt64.le_refl _) (by simpa using hlen)
  have hheld : ∀ {x position}, At capacity ops x (.held position) →
      items[(position - (ring capacity ops).tail).toNat]? = some x := by
    rintro x position ⟨hle, hhead, hslot⟩
    rw [← (hholds.slot_of_live hlt hle hhead).2, hslot]
  -- the three places of an object exclude each other
  have hret : ∀ {x k}, At capacity ops x (.returned k) →
      x ∉ items ∧ x ∉ overwritten capacity ops := by
    intro x k hk
    have hmem := mem_returned.mpr ⟨k, hk⟩
    exact ⟨fun h => hapart hmem (List.mem_append_left _ h),
      fun h => hapart hmem (List.mem_append_right _ h)⟩
  intro x hx
  refine existsUnique_of_exists_of_unique ?_ ?_
  · rcases List.mem_append.mp (hperm.mem_iff.mp hx) with hmem | hmem
    · obtain ⟨k, hk⟩ := mem_returned.mp hmem
      exact ⟨.returned k, hk⟩
    rcases List.mem_append.mp hmem with hmem | hmem
    · obtain ⟨i, hi⟩ := List.mem_iff_getElem?.mp hmem
      have hlength := (List.getElem?_eq_some_iff.mp hi).1
      obtain ⟨hle, hhead⟩ := live_of_lt horder (by rwa [hholds.size_eq hlt])
      exact ⟨.held _, hle, hhead, (hholds.slot_eq hlength).trans hi⟩
    · obtain ⟨k, hk⟩ := List.mem_iff_getElem?.mp hmem
      exact ⟨.overwritten k, hk⟩
  · intro a b ha hb
    cases a with
    | returned k =>
        cases b with
        | returned l => rw [answer_unique hreturned ha hb]
        | held position => exact absurd (List.mem_of_getElem? (hheld hb)) (hret ha).1
        | overwritten l => exact absurd (List.mem_of_getElem? hb) (hret ha).2
    | held position =>
        cases b with
        | returned l => exact absurd (List.mem_of_getElem? (hheld ha)) (hret hb).1
        | held position' =>
            have hoffset := (List.getElem?_inj
              (List.getElem?_eq_some_iff.mp (hheld ha)).1 hitems).mp
                ((hheld ha).trans (hheld hb).symm)
            rw [UInt64.toNat_inj, UInt64.sub_left_inj] at hoffset
            rw [hoffset]
        | overwritten l =>
            exact absurd (List.mem_of_getElem? hb)
              (hapart' (List.mem_of_getElem? (hheld ha)))
    | overwritten k =>
        cases b with
        | returned l => exact absurd (List.mem_of_getElem? ha) (hret hb).2
        | held position =>
            exact absurd (List.mem_of_getElem? ha)
              (hapart' (List.mem_of_getElem? (hheld hb)))
        | overwritten l =>
            rw [(List.getElem?_inj (List.getElem?_eq_some_iff.mp ha).1 hlost).mp
              (ha.trans hb.symm)]

theorem dropped_of_step (r : SpscRing T capacity) (op : Op T) :
    (r.step op).2.dropped = r.dropped + UInt64.ofNat (r.overflows op).toNat := by
  cases op with
  | publish item =>
      rcases item with _ | x
      · simp [step, publish, overflows]
      · rw [step, publish, overflows]
        cases r.closed with
        | true => simp
        | false =>
            by_cases hfree : (r.head - r.tail).toNat < capacity
            · simp [size, hfree, Nat.not_le.mpr hfree]
            · simp [size, hfree, Nat.le_of_not_lt hfree]
  | pop =>
      rw [step, pop]
      split <;> simp [take, overflows]
  | tryPop =>
      rw [step, tryPop]
      split <;> simp [take, overflows]
  | close => simp [step, close, overflows]

theorem counts_of_run (hpos : 0 < capacity) (hlt : capacity < 2 ^ 64) (ops : List (Op T)) :
    ∀ (r : SpscRing T capacity) (q : Queue T),
      (∃ start, Holds ops.length start r q.items q.closed) →
      (after step r ops).dropped =
          r.dropped + UInt64.ofNat (gather overwrites step r ops).length ∧
        (workerLoopBreaks r ops = true →
          (after step r ops).closed = true ∧ (after step r ops).head = (after step r ops).tail) := by
  induction ops with
  | nil => intro r q _; exact ⟨by simp [after, gather], nofun⟩
  | cons op ops ih =>
      intro r q hsim
      obtain ⟨hanswer, -, hnext⟩ := step_simulates hpos hlt ops.length r q op hsim
      obtain ⟨hdropped, hbreaks⟩ := ih _ _ hnext
      obtain ⟨start, h⟩ := hsim
      refine ⟨?_, ?_⟩
      · have hsome := h.isSome_overwrites hpos hlt op
        rw [after, hdropped, dropped_of_step, gather, List.length_append, UInt64.ofNat_add,
          ← hsome, ← add_assoc]
        cases r.overwrites op <;> rfl
      · cases op with
        | pop =>
            rw [workerLoopBreaks]
            split
            next hnull =>
              intro _
              obtain ⟨hclosed, hempty⟩ := h.drained_of_null hlt hnull
              rw [after_of_drained hclosed hempty]
              exact ⟨hclosed, hempty⟩
            next => exact hbreaks
        | _ => exact hbreaks

/-- Frames are conserved: whatever the operations, every accepted object has one
site, and only a closed and drained ring answers null. -/
theorem conserved (hpos : 0 < capacity) (hlt : capacity < 2 ^ 64) (ops : List (Op T))
    (hlen : ops.length < 2 ^ 64) : Conserved capacity (number 0 ops) := by
  have hnumber : (number 0 ops).length < 2 ^ 64 := by rwa [length_number]
  obtain ⟨start, items, hholds, -, -⟩ := account hpos hlt (number 0 ops) (.inr hnumber.le)
  obtain ⟨hdropped, hbreaks⟩ := counts_of_run hpos hlt (number 0 ops) {} {}
    ⟨0, holds_empty (.inr hnumber.le)⟩
  constructor
  case site =>
    exact existsUnique_site hpos hlt _ hnumber (nodup_published_number ops 0)
  case dropped =>
    have hcount := (length_gather_le overwrites step (number 0 ops)
      ({} : SpscRing (Nat × T) capacity)).trans_lt hnumber
    rw [ring, hdropped, overwritten, UInt64.zero_add, UInt64.toNat_ofNat_of_lt' hcount]
  case size_le => exact (hholds.size_eq hlt).trans_le hholds.length_le
  case isSome =>
    intro position hle hhead
    obtain ⟨hoffset, hslot⟩ := hholds.slot_of_live hlt hle hhead
    rw [hslot, List.getElem?_eq_getElem hoffset]
    rfl
  case null => exact hholds.drained_of_null hlt
  case workerLoop => exact hbreaks

theorem conserved_two_slots : Conserved 2
    (number 0 [.publish (some ()), .publish (some ()), .publish (some ()), .pop, .close]) :=
  conserved (by decide) (by decide) _ (by decide)

end SpscRing

end Edriel
