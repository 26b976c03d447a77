import Edriel.Lib.Interleaving

/-!
A mutex and a condition variable with one waiting thread.  What runs under the mutex is one
step; a wait gives the mutex up in the same step in which it blocks, and only a notification
or a spurious wakeup ends it.
-/

namespace Monitor

open Interleaving

universe u v w

/-- Where the thread is that waits on the condition variable: outside its call, blocked, or
on its way back to the mutex. -/
inductive Waiter where
  | away
  | waiting
  | woken
deriving DecidableEq

/-- The sections under the mutex. -/
structure Sections (S : Type u) (A : Type v) (B : Type w) where
  /-- What the waiter waits for. -/
  ready : S → Bool
  /-- A section of another thread, and whether it notifies. -/
  enter : S → A → Bool × S
  /-- What the waiter does when it need not wait any longer. -/
  leave : S → B × S

structure State (S : Type u) where
  shared : S
  waiter : Waiter := .away
deriving DecidableEq

inductive Action (A : Type v) where
  | enter (a : A)
  | call
  | spurious
  | resume

inductive Event (A : Type v) (B : Type w) where
  | entered (a : A)
  | waits
  | left (b : B)
  | woke

variable {S : Type u} {A : Type v} {B : Type w}

def Waiter.notified : Waiter → Waiter
  | .waiting => .woken
  | w => w

/-- The waiter's section: it tests the predicate, and leaves or blocks. -/
def check (m : Sections S A B) (s : S) : Event A B × State S :=
  if m.ready s then (.left (m.leave s).1, { shared := (m.leave s).2 })
  else (.waits, { shared := s, waiter := .waiting })

def step (m : Sections S A B) (s : State S) : Action A → Option (Event A B × State S)
  | .enter a =>
      some (.entered a,
        { shared := (m.enter s.shared a).2
          waiter := if (m.enter s.shared a).1 then s.waiter.notified else s.waiter })
  | .call => if s.waiter = .away then some (check m s.shared) else none
  | .spurious => if s.waiter = .waiting then some (.woke, { s with waiter := .woken }) else none
  | .resume => if s.waiter = .woken then some (check m s.shared) else none

/-- Every section that fulfils the predicate notifies. -/
def Alerts (m : Sections S A B) : Prop :=
  ∀ s a, m.ready s = false → m.ready (m.enter s a).2 = true → (m.enter s a).1 = true

theorem not_ready_of_check {m : Sections S A B} {s : S}
    (h : (check m s).2.waiter = .waiting) : m.ready (check m s).2.shared = false := by
  rw [check] at h ⊢
  split at h
  · cases h
  · rename_i hready
    rw [if_neg hready]
    exact Bool.eq_false_iff.mpr hready

theorem not_ready_of_step {m : Sections S A B} (halerts : Alerts m) {s s' : State S}
    {a : Action A} {e : Event A B} (hstep : step m s a = some (e, s'))
    (hinv : s.waiter = .waiting → m.ready s.shared = false)
    (hwaiting : s'.waiter = .waiting) : m.ready s'.shared = false := by
  cases a with
  | enter a =>
      obtain ⟨-, rfl⟩ := Prod.mk.inj (Option.some.inj hstep)
      cases hnotifies : (m.enter s.shared a).1 with
      | true =>
          -- whoever was waiting is not any more
          simp only [hnotifies, if_true] at hwaiting
          revert hwaiting
          cases s.waiter with
          | away => exact nofun
          | waiting => exact nofun
          | woken => exact nofun
      | false =>
          simp only [hnotifies, Bool.false_eq_true, if_false] at hwaiting
          apply Bool.eq_false_iff.mpr
          intro hready
          rw [halerts s.shared a (hinv hwaiting) hready] at hnotifies
          cases hnotifies
  | call =>
      rw [step] at hstep
      split at hstep
      · obtain rfl : (check m s.shared).2 = s' := congrArg Prod.snd (Option.some.inj hstep)
        exact not_ready_of_check hwaiting
      · cases hstep
  | spurious =>
      rw [step] at hstep
      split at hstep
      · obtain ⟨-, rfl⟩ := Prod.mk.inj (Option.some.inj hstep)
        cases hwaiting
      · cases hstep
  | resume =>
      rw [step] at hstep
      split at hstep
      · obtain rfl : (check m s.shared).2 = s' := congrArg Prod.snd (Option.some.inj hstep)
        exact not_ready_of_check hwaiting
      · cases hstep

/-- No wakeup is lost: a thread that waits without having been notified waits rightly. -/
theorem not_ready_of_waiting {m : Sections S A B} (halerts : Alerts m) {s₀ : S}
    {evs : List (Event A B)} {s : State S}
    (h : Trace (Steps (step m)) { shared := s₀ } evs s) (hwaiting : s.waiter = .waiting) :
    m.ready s.shared = false := by
  have hstart : ({ shared := s₀ } : State S).waiter = .waiting → m.ready s₀ = false :=
    fun hnever => by cases hnever
  refine Trace.invariant (P := fun _ s => s.waiter = .waiting → m.ready s.shared = false)
    hstart ?_ h hwaiting
  rintro evs s e s' - hinv ⟨a, -, hstep⟩
  exact not_ready_of_step halerts hstep hinv

end Monitor
