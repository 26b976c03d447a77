import Mathlib

namespace BoundedQueue

universe u v w

variable {T : Type u} {σ : Type v} {τ : Type w}

/-- The operations of the two ends of a queue.  A `publish` hands over an owned
object, or none. -/
inductive Op (T : Type u) where
  | publish (item : Option T)
  | pop
  | tryPop
  | close

/-- What taking from a queue answers: an object, nothing, or (for the blocking
form on an open empty queue) that it waits. -/
inductive Taken (T : Type u) where
  | item (x : T)
  | null
  | waits
deriving DecidableEq

def Op.takes : Op T → Bool
  | .publish _ => false
  | .pop => true
  | .tryPop => true
  | .close => false

def taken (step : σ → Op T → List (Taken T) × σ) : σ → List (Op T) → List (Taken T)
  | _, [] => []
  | s, op :: ops => (step s op).1 ++ taken step (step s op).2 ops

/-- Nothing is taken once an operation has overflowed the queue. -/
def TakenBeforeOverflow (overflows : σ → Op T → Bool)
    (step : σ → Op T → List (Taken T) × σ) : σ → List (Op T) → Prop
  | _, [] => True
  | s, op :: ops =>
      (overflows s op = true → ∀ op' ∈ ops, op'.takes = false) ∧
        TakenBeforeOverflow overflows step (step s op).2 ops

/-- Two queues in a relation that every operation keeps, with the same answers
and the same overflows, cannot be told apart.  The relation may depend on how
many operations are still to come. -/
theorem taken_of_simulation {step₁ : σ → Op T → List (Taken T) × σ}
    {step₂ : τ → Op T → List (Taken T) × τ} {over₁ : σ → Op T → Bool}
    {over₂ : τ → Op T → Bool} (Sim : Nat → σ → τ → Prop)
    (hstep : ∀ n s t op, Sim (n + 1) s t →
      (step₁ s op).1 = (step₂ t op).1 ∧ over₁ s op = over₂ t op ∧
        Sim n (step₁ s op).2 (step₂ t op).2) :
    ∀ (ops : List (Op T)) (s : σ) (t : τ), Sim ops.length s t →
      taken step₁ s ops = taken step₂ t ops ∧
        (TakenBeforeOverflow over₁ step₁ s ops ↔
          TakenBeforeOverflow over₂ step₂ t ops) := by
  intro ops
  induction ops with
  | nil => intro s t _; exact ⟨rfl, Iff.rfl⟩
  | cons op ops ih =>
      intro s t hsim
      obtain ⟨hanswer, hover, hnext⟩ := hstep ops.length s t op hsim
      obtain ⟨htaken, hbefore⟩ := ih _ _ hnext
      refine ⟨?_, ?_⟩
      · rw [taken, taken, hanswer, htaken]
      · rw [TakenBeforeOverflow, TakenBeforeOverflow, hover, hbefore]

def after (step : σ → Op T → List (Taken T) × σ) : σ → List (Op T) → σ
  | s, [] => s
  | s, op :: ops => after step (step s op).2 ops

/-- The objects that `mark` singles out along a sequence of operations. -/
def gather (mark : σ → Op T → Option T) (step : σ → Op T → List (Taken T) × σ) :
    σ → List (Op T) → List T
  | _, [] => []
  | s, op :: ops => (mark s op).toList ++ gather mark step (step s op).2 ops

def Taken.object? : Taken T → Option T
  | .item x => some x
  | .null => none
  | .waits => none

/-- The objects that a sequence of operations is given. -/
def returned (step : σ → Op T → List (Taken T) × σ) (s : σ) (ops : List (Op T)) : List T :=
  (taken step s ops).filterMap Taken.object?

theorem mem_returned {step : σ → Op T → List (Taken T) × σ} {s : σ} {ops : List (Op T)}
    {x : T} : x ∈ returned step s ops ↔ ∃ k : Nat, (taken step s ops)[k]? = some (.item x) := by
  rw [returned, List.mem_filterMap]
  constructor
  · rintro ⟨answer, hmem, hobject⟩
    cases answer with
    | item y =>
        obtain rfl : y = x := Option.some.inj hobject
        exact List.mem_iff_getElem?.mp hmem
    | null => cases hobject
    | waits => cases hobject
  · rintro ⟨k, hk⟩
    exact ⟨.item x, List.mem_of_getElem? hk, rfl⟩

theorem answer_unique {answers : List (Taken T)}
    (hnodup : (answers.filterMap Taken.object?).Nodup) {x : T} {k l : Nat}
    (hk : answers[k]? = some (.item x)) (hl : answers[l]? = some (.item x)) : k = l := by
  have hpair := List.pairwise_iff_getElem.mp (List.pairwise_filterMap.mp hnodup)
  obtain ⟨hklt, hkx⟩ := List.getElem?_eq_some_iff.mp hk
  obtain ⟨hllt, hlx⟩ := List.getElem?_eq_some_iff.mp hl
  rcases Nat.lt_trichotomy k l with hlt | heq | hlt
  · exact absurd rfl (hpair k l hklt hllt hlt x (by rw [hkx]; rfl) x (by rw [hlx]; rfl))
  · exact heq
  · exact absurd rfl (hpair l k hllt hklt hlt x (by rw [hlx]; rfl) x (by rw [hkx]; rfl))

theorem after_append (step : σ → Op T → List (Taken T) × σ) (ops₁ ops₂ : List (Op T)) :
    ∀ s, after step s (ops₁ ++ ops₂) = after step (after step s ops₁) ops₂ := by
  induction ops₁ with
  | nil => intro s; rfl
  | cons op ops ih => intro s; exact ih _

theorem gather_append (mark : σ → Op T → Option T) (step : σ → Op T → List (Taken T) × σ)
    (ops₁ ops₂ : List (Op T)) : ∀ s, gather mark step s (ops₁ ++ ops₂) =
      gather mark step s ops₁ ++ gather mark step (after step s ops₁) ops₂ := by
  induction ops₁ with
  | nil => intro s; rfl
  | cons op ops ih =>
      intro s
      rw [List.cons_append, gather, gather, ih, List.append_assoc, after]

theorem returned_append (step : σ → Op T → List (Taken T) × σ) (ops₁ ops₂ : List (Op T)) :
    ∀ s, returned step s (ops₁ ++ ops₂) =
      returned step s ops₁ ++ returned step (after step s ops₁) ops₂ := by
  induction ops₁ with
  | nil => intro s; rfl
  | cons op ops ih =>
      intro s
      have hrest := ih (step s op).2
      rw [returned, returned, List.cons_append, taken, taken, List.filterMap_append,
        List.filterMap_append, List.append_assoc]
      exact congrArg _ hrest

theorem length_gather_le (mark : σ → Op T → Option T)
    (step : σ → Op T → List (Taken T) × σ) (ops : List (Op T)) :
    ∀ s, (gather mark step s ops).length ≤ ops.length := by
  induction ops with
  | nil => intro s; exact le_rfl
  | cons op ops ih =>
      intro s
      have hrest := ih (step s op).2
      have hmark : (mark s op).toList.length ≤ 1 := by cases mark s op <;> simp
      rw [gather, List.length_append, List.length_cons]
      omega

/-- Two queues in a relation that every operation keeps single out the same
objects and stay in it. -/
theorem gather_of_simulation {step₁ : σ → Op T → List (Taken T) × σ}
    {step₂ : τ → Op T → List (Taken T) × τ} {mark₁ : σ → Op T → Option T}
    {mark₂ : τ → Op T → Option T} (Sim : Nat → σ → τ → Prop)
    (hstep : ∀ n s t op, Sim (n + 1) s t →
      mark₁ s op = mark₂ t op ∧ Sim n (step₁ s op).2 (step₂ t op).2) :
    ∀ (ops : List (Op T)) (s : σ) (t : τ), Sim ops.length s t →
      gather mark₁ step₁ s ops = gather mark₂ step₂ t ops ∧
        Sim 0 (after step₁ s ops) (after step₂ t ops) := by
  intro ops
  induction ops with
  | nil => intro s t hsim; exact ⟨rfl, hsim⟩
  | cons op ops ih =>
      intro s t hsim
      obtain ⟨hmark, hnext⟩ := hstep ops.length s t op hsim
      obtain ⟨hgather, hafter⟩ := ih _ _ hnext
      exact ⟨by rw [gather, gather, hmark, hgather], hafter⟩

/-- The objects of a queue, the next one to leave first. -/
structure Queue (T : Type u) where
  items : List T := []
  closed : Bool := false

namespace Queue

/-- `evict` says what a full queue becomes when one more object is published. -/
def publish (capacity : Nat) (evict : T → List T → List T) (q : Queue T) :
    Option T → Queue T
  | none => q
  | some x =>
      if q.closed then q
      else if q.items.length < capacity then { q with items := q.items ++ [x] }
      else { q with items := evict x q.items }

def pop (q : Queue T) : Taken T × Queue T :=
  match q.items with
  | [] => (if q.closed then .null else .waits, q)
  | x :: xs => (.item x, { q with items := xs })

def tryPop (q : Queue T) : Taken T × Queue T :=
  match q.items with
  | [] => (.null, q)
  | x :: xs => (.item x, { q with items := xs })

def step (capacity : Nat) (evict : T → List T → List T) (q : Queue T) :
    Op T → List (Taken T) × Queue T
  | .publish item => ([], q.publish capacity evict item)
  | .pop => ([q.pop.1], q.pop.2)
  | .tryPop => ([q.tryPop.1], q.tryPop.2)
  | .close => ([], { q with closed := true })

def overflows (capacity : Nat) (q : Queue T) : Op T → Bool
  | .publish (some _) => !q.closed && decide (capacity ≤ q.items.length)
  | _ => false

variable {capacity : Nat} {evict : T → List T → List T}

@[simp] theorem publish_none (q : Queue T) : q.publish capacity evict none = q :=
  rfl

@[simp] theorem publish_closed (items : List T) (item : Option T) :
    (⟨items, true⟩ : Queue T).publish capacity evict item = ⟨items, true⟩ := by
  cases item <;> rfl

theorem publish_of_lt {items : List T} (x : T) (h : items.length < capacity) :
    (⟨items, false⟩ : Queue T).publish capacity evict (some x) =
      ⟨items ++ [x], false⟩ := by
  simp [publish, h]

theorem publish_of_full {items : List T} (x : T) (h : capacity ≤ items.length) :
    (⟨items, false⟩ : Queue T).publish capacity evict (some x) =
      ⟨evict x items, false⟩ := by
  simp [publish, Nat.not_lt.mpr h]

end Queue

/-- Append, then discard the front: the latest objects stay, in order. -/
def dropOldest (x : T) (xs : List T) : List T :=
  (xs ++ [x]).tail

/-- Put the new object in the place of the front one: it leaves next. -/
def replaceOldest (x : T) (xs : List T) : List T :=
  x :: xs.tail

namespace Queue

variable {capacity : Nat} {evict : T → List T → List T}

def accepts (q : Queue T) : Op T → Option T
  | .publish item => if q.closed then none else item
  | _ => none

/-- The object that an overflow evicts. -/
def loses (capacity : Nat) (q : Queue T) (op : Op T) : Option T :=
  if overflows capacity q op then q.items.head? else none

theorem items_of_step (hpos : 0 < capacity)
    (hevict : ∀ x y ys, (evict x (y :: ys)).Perm (x :: ys)) (q : Queue T) (op : Op T) :
    (q.items ++ (q.accepts op).toList).Perm
      ((step capacity evict q op).1.filterMap Taken.object? ++
        ((step capacity evict q op).2.items ++ (loses capacity q op).toList)) := by
  obtain ⟨items, closed⟩ := q
  cases op with
  | publish item =>
      rcases item with _ | x
      · simp [accepts, step, loses, overflows]
      · cases closed with
        | true => simp [accepts, step, loses, overflows]
        | false =>
            by_cases hfree : items.length < capacity
            · simp [accepts, step, publish_of_lt x hfree, loses, overflows,
                Nat.not_le.mpr hfree]
            · obtain ⟨y, ys, rfl⟩ := List.exists_cons_of_length_pos (by omega : 0 < items.length)
              have hfull : capacity ≤ (y :: ys).length := Nat.le_of_not_lt hfree
              have hloses : loses capacity ⟨y :: ys, false⟩ (.publish (some x)) = some y := by
                rw [loses, overflows, decide_eq_true hfull]
                rfl
              rw [hloses, step, publish_of_full x hfull]
              calc (y :: ys ++ [x]).Perm (x :: y :: ys) := List.perm_append_singleton x _
                List.Perm _ (y :: x :: ys) := List.Perm.swap y x ys
                List.Perm _ (y :: evict x (y :: ys)) := ((hevict x y ys).symm.cons y)
                List.Perm _ (evict x (y :: ys) ++ [y]) := (List.perm_append_singleton y _).symm
  | pop =>
      cases items with
      | nil => cases closed <;> simp [accepts, step, pop, loses, overflows, Taken.object?]
      | cons y ys => simp [accepts, step, pop, loses, overflows, Taken.object?]
  | tryPop =>
      cases items with
      | nil => simp [accepts, step, tryPop, loses, overflows, Taken.object?]
      | cons y ys => simp [accepts, step, tryPop, loses, overflows, Taken.object?]
  | close => simp [accepts, step, loses, overflows]

/-- A run keeps every accepted object in one place: returned, in the queue, or
evicted. -/
theorem items_of_run (hpos : 0 < capacity)
    (hevict : ∀ x y ys, (evict x (y :: ys)).Perm (x :: ys)) (ops : List (Op T)) :
    ∀ q : Queue T, (q.items ++ gather accepts (step capacity evict) q ops).Perm
      (returned (step capacity evict) q ops ++
        ((after (step capacity evict) q ops).items ++
          gather (loses capacity) (step capacity evict) q ops)) := by
  induction ops with
  | nil => intro q; simp [gather, returned, taken, after]
  | cons op ops ih =>
      intro q
      have hstep := items_of_step hpos hevict q op
      have hrest := ih (step capacity evict q op).2
      rw [returned] at hrest ⊢
      rw [gather, gather, taken, after, List.filterMap_append]
      simp only [← Multiset.coe_eq_coe, ← Multiset.coe_add] at hstep hrest ⊢
      rw [← add_assoc, hstep, add_assoc, add_right_comm, hrest]
      ac_rfl

end Queue

def published : List (Op T) → List T
  | [] => []
  | .publish (some x) :: ops => x :: published ops
  | _ :: ops => published ops

theorem published_append (ops₁ ops₂ : List (Op T)) :
    published (ops₁ ++ ops₂) = published ops₁ ++ published ops₂ := by
  induction ops₁ with
  | nil => rfl
  | cons op ops ih =>
      cases op with
      | publish item =>
          rcases item with _ | x
          · exact ih
          · exact congrArg (x :: ·) ih
      | _ => exact ih

theorem Queue.accepted_sublist {capacity : Nat} {evict : T → List T → List T}
    (ops : List (Op T)) : ∀ q : Queue T,
      (gather Queue.accepts (Queue.step capacity evict) q ops).Sublist (published ops) := by
  induction ops with
  | nil => intro q; exact List.Sublist.refl _
  | cons op ops ih =>
      intro q
      have hrest := ih (Queue.step capacity evict q op).2
      cases op with
      | publish item =>
          rcases item with _ | x
          · simpa [gather, accepts, published] using hrest
          · cases hclosed : q.closed with
            | true => simpa [gather, accepts, published, hclosed] using hrest.cons x
            | false => simpa [gather, accepts, published, hclosed] using hrest
      | pop => exact hrest
      | tryPop => exact hrest
      | close => exact hrest

/-- Tells objects apart by the publication that hands them over. -/
def number : Nat → List (Op T) → List (Op (Nat × T))
  | _, [] => []
  | n, .publish item :: ops => .publish (item.map (n, ·)) :: number (n + 1) ops
  | n, .pop :: ops => .pop :: number n ops
  | n, .tryPop :: ops => .tryPop :: number n ops
  | n, .close :: ops => .close :: number n ops

theorem length_number (ops : List (Op T)) : ∀ n, (number n ops).length = ops.length := by
  induction ops with
  | nil => intro n; rfl
  | cons op ops ih => intro n; cases op <;> simp [number, ih]

theorem le_of_mem_published_number (ops : List (Op T)) :
    ∀ n, ∀ p ∈ published (number n ops), n ≤ p.1 := by
  induction ops with
  | nil => intro n p hp; simp [number, published] at hp
  | cons op ops ih =>
      intro n p hp
      cases op with
      | publish item =>
          cases item with
          | none =>
              have := ih (n + 1) p (by simpa [number, published] using hp)
              omega
          | some x =>
              rcases List.mem_cons.mp (by simpa [number, published] using hp) with rfl | hp
              · exact le_rfl
              · have := ih (n + 1) p hp
                omega
      | pop => exact ih n p (by simpa [number, published] using hp)
      | tryPop => exact ih n p (by simpa [number, published] using hp)
      | close => exact ih n p (by simpa [number, published] using hp)

theorem nodup_published_number (ops : List (Op T)) :
    ∀ n, (published (number n ops)).Nodup := by
  induction ops with
  | nil => intro n; exact List.nodup_nil
  | cons op ops ih =>
      intro n
      cases op with
      | publish item =>
          cases item with
          | none => simpa [number, published] using ih (n + 1)
          | some x =>
              simp only [number, published, Option.map_some, List.nodup_cons]
              refine ⟨fun hmem => ?_, ih (n + 1)⟩
              have := le_of_mem_published_number ops (n + 1) _ hmem
              simp at this
      | pop => simpa [number, published] using ih n
      | tryPop => simpa [number, published] using ih n
      | close => simpa [number, published] using ih n

theorem taken_eq_nil {capacity : Nat} {evict : T → List T → List T} {ops : List (Op T)}
    (hops : ∀ op ∈ ops, op.takes = false) :
    ∀ q : Queue T, taken (Queue.step capacity evict) q ops = [] := by
  induction ops with
  | nil => intro q; rfl
  | cons op ops ih =>
      intro q
      have hop := hops op (by simp)
      have hrest := ih (fun op' h => hops op' (by simp [h]))
      cases op with
      | publish item => simp [taken, Queue.step, hrest]
      | pop => simp [Op.takes] at hop
      | tryPop => simp [Op.takes] at hop
      | close => simp [taken, Queue.step, hrest]

/-- A full queue whose newest object stands in front and one where it stands at
the back: they answer differently as soon as anything is taken. -/
theorem taken_ne_of_displaced {capacity : Nat} {ops : List (Op T)} :
    ∀ (z : T) (rest ys : List T) (closed : Bool), ys ≠ [] →
      rest.length = ys.length → capacity = ys.length + 1 →
      (ys ++ z :: published ops).Nodup → (∃ op ∈ ops, op.takes = true) →
        taken (Queue.step capacity replaceOldest) ⟨z :: rest, closed⟩ ops ≠
          taken (Queue.step capacity dropOldest) ⟨ys ++ [z], closed⟩ ops := by
  induction ops with
  | nil => intro z rest ys closed _ _ _ _ htakes; simp at htakes
  | cons op ops ih =>
      intro z rest ys closed hne hlen hcap hnodup htakes
      obtain ⟨y, ys, rfl⟩ := List.exists_cons_of_ne_nil hne
      have hzy : z ≠ y := by
        rintro rfl
        simp at hnodup
      have hrest : ∀ item, op = .publish item → ∃ op ∈ ops, op.takes = true := by
        rintro item rfl
        simpa [Op.takes] using htakes
      cases op with
      | publish item =>
          cases item with
          | none => exact ih z rest (y :: ys) closed hne hlen hcap hnodup (hrest none rfl)
          | some x =>
              cases closed with
              | true =>
                  refine ih z rest (y :: ys) true hne hlen hcap ?_ (hrest _ rfl)
                  exact hnodup.sublist (by simp [published])
              | false =>
                  have hfull : capacity ≤ (z :: rest).length := by
                    rw [hcap, ← hlen, List.length_cons]
                  have hfull' : capacity ≤ (y :: ys ++ [z]).length := by
                    rw [hcap, List.length_append, List.length_singleton]
                  have hshift := ih x rest (ys ++ [z]) false (by simp)
                    (by simpa using hlen) (by simpa using hcap)
                    ((List.nodup_cons.mp (by simpa [published] using hnodup)).2)
                    (hrest _ rfl)
                  rw [taken, taken, Queue.step, Queue.step, Queue.publish_of_full x hfull,
                    Queue.publish_of_full x hfull']
                  exact hshift
      | pop => simp [taken, Queue.step, Queue.pop, hzy]
      | tryPop => simp [taken, Queue.step, Queue.tryPop, hzy]
      | close =>
          refine ih z rest (y :: ys) true hne hlen hcap hnodup ?_
          simpa [Op.takes] using htakes

theorem takenBeforeOverflow_of_not_takes {overflows : σ → Op T → Bool}
    {step : σ → Op T → List (Taken T) × σ} {ops : List (Op T)}
    (hops : ∀ op ∈ ops, op.takes = false) :
    ∀ s, TakenBeforeOverflow overflows step s ops := by
  induction ops with
  | nil => intro s; trivial
  | cons op ops ih =>
      intro s
      have hrest : ∀ op' ∈ ops, op'.takes = false := fun op' h => hops op' (by simp [h])
      exact ⟨fun _ => hrest, ih hrest _⟩

/-- At an overflow of a queue of at least two, the two rules answer alike from
here on exactly when nothing is taken any more. -/
theorem taken_overflow_iff {capacity : Nat} (hcap : capacity ≠ 1) {items : List T} {x : T}
    {ops : List (Op T)} (hpos : 0 < capacity) (hlen : items.length = capacity)
    (hnodup : (items ++ x :: published ops).Nodup) :
    taken (Queue.step capacity replaceOldest) ⟨replaceOldest x items, false⟩ ops =
        taken (Queue.step capacity dropOldest) ⟨dropOldest x items, false⟩ ops ↔
      ∀ op ∈ ops, op.takes = false := by
  constructor
  · intro heq
    by_contra hsome
    push Not at hsome
    obtain ⟨op, hop, htakes⟩ := hsome
    obtain ⟨y, ys, rfl⟩ := List.exists_cons_of_length_pos (hlen ▸ hpos)
    have hys : ys ≠ [] := by
      rintro rfl
      exact hcap hlen.symm
    refine taken_ne_of_displaced x ys ys false hys rfl hlen.symm
      (List.nodup_cons.mp hnodup).2 ⟨op, hop, by simpa using htakes⟩ heq
  · intro hops
    rw [taken_eq_nil hops, taken_eq_nil hops]

/-- Replacing the oldest object in place answers like dropping it exactly when
the capacity is one or nothing is taken after an overflow. -/
theorem taken_replaceOldest_eq_iff {capacity : Nat} (hpos : 0 < capacity)
    {ops : List (Op T)} : ∀ {q : Queue T}, q.items.length ≤ capacity →
      (q.items ++ published ops).Nodup →
        (taken (Queue.step capacity replaceOldest) q ops =
            taken (Queue.step capacity dropOldest) q ops ↔
          capacity = 1 ∨ TakenBeforeOverflow (Queue.overflows capacity)
            (Queue.step capacity replaceOldest) q ops) := by
  induction ops with
  | nil => intro q _ _; simp [taken, TakenBeforeOverflow]
  | cons op ops ih =>
      rintro ⟨items, closed⟩ hlen hnodup
      -- where the two rules leave the same queue, the rest of the run decides
      have hsame : ∀ q' : Queue T, ∀ answer,
          Queue.step capacity replaceOldest ⟨items, closed⟩ op = (answer, q') →
          Queue.step capacity dropOldest ⟨items, closed⟩ op = (answer, q') →
          (capacity = 1 ∨ Queue.overflows capacity ⟨items, closed⟩ op = false) →
          q'.items.length ≤ capacity → (q'.items ++ published ops).Nodup →
          (taken (Queue.step capacity replaceOldest) ⟨items, closed⟩ (op :: ops) =
              taken (Queue.step capacity dropOldest) ⟨items, closed⟩ (op :: ops) ↔
            capacity = 1 ∨ TakenBeforeOverflow (Queue.overflows capacity)
              (Queue.step capacity replaceOldest) ⟨items, closed⟩ (op :: ops)) := by
        intro q' answer h₁ h₂ hover hlen' hnodup'
        have hrest := ih hlen' hnodup'
        rw [taken, taken, TakenBeforeOverflow, h₁, h₂, List.append_cancel_left_eq, hrest]
        rcases hover with hone | hover
        · simp [hone]
        · simp [hover]
      cases op with
      | publish item =>
          cases item with
          | none => exact hsame _ [] rfl rfl (.inr rfl) hlen hnodup
          | some x =>
              cases closed with
              | true =>
                  exact hsame _ [] rfl rfl (.inr rfl) hlen
                    (hnodup.sublist (by simp [published]))
              | false =>
                  have hnodup : (items ++ x :: published ops).Nodup := hnodup
                  rcases hlen.lt_or_eq with hlt | hfull
                  · have hstep : ∀ evict, Queue.step capacity evict ⟨items, false⟩
                        (.publish (some x)) = ([], ⟨items ++ [x], false⟩) := by
                      intro evict
                      rw [Queue.step, Queue.publish_of_lt x hlt]
                    exact hsame _ [] (hstep _) (hstep _)
                      (.inr (by simpa [Queue.overflows] using hlt)) (by simpa using hlt)
                      (by simpa using hnodup)
                  · have hstep : ∀ evict, Queue.step capacity evict ⟨items, false⟩
                        (.publish (some x)) = ([], ⟨evict x items, false⟩) := by
                      intro evict
                      rw [Queue.step, Queue.publish_of_full x hfull.ge]
                    by_cases hone : capacity = 1
                    · obtain ⟨y, rfl⟩ := List.length_eq_one_iff.mp (hfull.trans hone)
                      exact hsame ⟨[x], false⟩ [] (hstep _) (hstep _) (.inl hone)
                        (by simpa using hone.ge) (List.nodup_cons.mp hnodup).2
                    · have hover : Queue.overflows capacity ⟨items, false⟩
                          (.publish (some x)) = true := by
                        simp [Queue.overflows, hfull]
                      rw [taken, taken, TakenBeforeOverflow, hstep, hstep, hover,
                        List.append_cancel_left_eq,
                        taken_overflow_iff hone hpos hfull hnodup]
                      constructor
                      · intro hops
                        exact .inr ⟨fun _ => hops, takenBeforeOverflow_of_not_takes hops _⟩
                      · rintro (h | ⟨h, -⟩)
                        · exact absurd h hone
                        · exact h rfl
      | pop =>
          cases items with
          | nil => exact hsame _ _ rfl rfl (.inr rfl) hlen hnodup
          | cons y ys =>
              exact hsame ⟨ys, closed⟩ [.item y] rfl rfl (.inr rfl) (Nat.le_of_succ_le hlen)
                (List.nodup_cons.mp hnodup).2
      | tryPop =>
          cases items with
          | nil => exact hsame _ _ rfl rfl (.inr rfl) hlen hnodup
          | cons y ys =>
              exact hsame ⟨ys, closed⟩ [.item y] rfl rfl (.inr rfl) (Nat.le_of_succ_le hlen)
                (List.nodup_cons.mp hnodup).2
      | close => exact hsame ⟨items, true⟩ [] rfl rfl (.inr rfl) hlen hnodup

end BoundedQueue
