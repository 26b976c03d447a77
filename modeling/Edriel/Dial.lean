import Edriel.SubscriberTable
import Edriel.Finish

namespace Edriel

open Interleaving

universe u

variable {F : Type u}

def Task.closes : Task F → Bool
  | .teardownStatus => true
  | .finish _ => true
  | .issueFinish _ => true
  | .unregister => true
  | _ => false

def Task.evicts : Task F → Bool
  | .unregister => true
  | _ => false

/-- An event of a stream that carries nothing and reads nothing. -/
def RpcEvent.Mute : RpcEvent F → Prop
  | .unregister _ => True
  | .finish _ => True
  | .superseded => True
  | .internal => True
  | _ => False

namespace Rpc

structure Quiet (s : Rpc F) : Prop where
  outbox : s.reactor.outbox = []
  writing : s.reactor.writing = false
  writes : s.pendingWrites = 0

theorem Quiet.keep {s s' : Rpc F} (h : s.Quiet)
    (houtbox : s'.reactor.outbox = s.reactor.outbox)
    (hwriting : s'.reactor.writing = s.reactor.writing)
    (hwrites : s'.pendingWrites = s.pendingWrites) : s'.Quiet :=
  ⟨houtbox.trans h.outbox, hwriting.trans h.writing, hwrites.trans h.writes⟩

structure Waiting (s : Rpc F) : Prop where
  quiet : s.Quiet
  unnamed : s.reactor.initialised = false
  unfinished : s.reactor.finished = false
  reads : s.pendingReads = 1
  tasks : s.tasks = []

/-- The thread of the first heartbeat stands at `t`, on its way into the table. -/
structure Joining (t : Task F) (s : Rpc F) : Prop where
  quiet : s.Quiet
  named : s.reactor.initialised = true
  reads : s.pendingReads = 0
  unfinished : s.reactor.finished = false
  one : s.tasks.countP Task.registers = 1
  tasks : ∀ x ∈ s.tasks, x = t ∨ x = .unregister

structure Served (s : Rpc F) : Prop where
  named : s.reactor.initialised = true
  tasks : ∀ x ∈ s.tasks, x.registers = false

/-- All that is left of the stream is its end. -/
structure Silent (s : Rpc F) : Prop where
  quiet : s.Quiet
  reads : s.pendingReads = 0
  tasks : ∀ x ∈ s.tasks, x.closes = true

inductive Stage (s : Rpc F) : Prop
  | waiting (h : s.Waiting)
  | gated (h : s.Joining .gate)
  | joining (h : s.Joining .register)
  | served (h : s.Served)
  | silent (h : s.Silent)

/-- Only a stream that has left the gate behind is pushed to or superseded. -/
def Admitted (s : Rpc F) : RpcAction F → Prop
  | .enqueue _ => s.Served
  | .supersede => s.Served
  | _ => True

theorem mem_more {s s' : Rpc F} {P : Task F → Prop} (ts : List (Task F))
    (htasks : s'.tasks = ts ++ s.tasks) (hts : ∀ t ∈ ts, P t) (h : ∀ t ∈ s.tasks, P t) :
    ∀ t ∈ s'.tasks, P t := by
  intro t ht
  rw [htasks] at ht
  rcases List.mem_append.mp ht with ht | ht
  · exact hts t ht
  · exact h t ht

theorem silent_runTask {s : Rpc F} {i : Nat} {t : Task F} {rest : List (Task F)}
    {answer : Answer F} (h : s.Silent) (hpick : pick i s.tasks = some (t, rest)) :
    (s.runTask rest answer t).2.Silent ∧ (s.runTask rest answer t).1.Mute := by
  have hmine : t.closes = true := h.tasks t ((mem_of_pick hpick).mpr (.inl rfl))
  have hrest : ∀ x ∈ rest, x.closes = true := fun x hx =>
    h.tasks x ((mem_of_pick hpick).mpr (.inr hx))
  have hcons : ∀ y : Task F, y.closes = true → ∀ x ∈ y :: rest, x.closes = true := by
    intro y hy x hx
    rcases List.mem_cons.mp hx with rfl | hx
    · exact hy
    · exact hrest x hx
  cases t with
  | teardownStatus => exact ⟨⟨h.quiet.keep rfl rfl rfl, h.reads, hcons _ rfl⟩, trivial⟩
  | finish status =>
      rw [runTask]
      split
      · exact ⟨⟨h.quiet.keep rfl rfl rfl, h.reads, hrest⟩, trivial⟩
      · exact ⟨⟨h.quiet.keep rfl rfl rfl, h.reads, hcons _ rfl⟩, trivial⟩
  | issueFinish status => exact ⟨⟨h.quiet.keep rfl rfl rfl, h.reads, hrest⟩, trivial⟩
  | unregister => exact ⟨⟨h.quiet.keep rfl rfl rfl, h.reads, hrest⟩, trivial⟩
  | _ => cases hmine

theorem silent_of_step {s s' : Rpc F} {a : RpcAction F} {e : RpcEvent F}
    (h : s.step a = some (e, s')) (hs : s.Silent) (hpush : ∀ f, a ≠ .enqueue f) :
    s'.Silent ∧ e.Mute := by
  cases stepped_of_step h with
  | enqueue f => exact absurd rfl (hpush f)
  | onWriteDone ok hwrites => exact absurd hs.quiet.writes hwrites
  | onReadFailed hreads => exact absurd hs.reads hreads
  | onHeartbeat key hreads => exact absurd hs.reads hreads
  | onCancel =>
      refine ⟨?_, trivial⟩
      rw [onCancel]
      split
      · exact hs
      · refine ⟨hs.quiet.keep rfl rfl rfl, hs.reads, mem_more _ rfl ?_ hs.tasks⟩
        split <;> simp [Task.closes]
  | onDone hfinishes hreads =>
      refine ⟨⟨hs.quiet.keep rfl rfl rfl, hs.reads, mem_more _ rfl ?_ hs.tasks⟩, trivial⟩
      split <;> simp [Task.closes]
  | supersede => exact ⟨⟨hs.quiet.keep rfl rfl rfl, hs.reads, hs.tasks⟩, trivial⟩
  | @run i t rest answer hpick => exact silent_runTask hs hpick

theorem waiting_of_step {s s' : Rpc F} {a : RpcAction F} {e : RpcEvent F}
    (h : s.step a = some (e, s')) (hs : s.Waiting) (hadmitted : s.Admitted a) :
    (s'.Waiting ∨ s'.Joining .gate ∨ s'.Silent) ∧ e.Mute := by
  obtain ⟨hquiet, hunnamed, hunfinished, hreads, htasks⟩ := hs
  have hunserved : ¬ s.Served := fun hserved => by
    rw [hserved.named] at hunnamed
    cases hunnamed
  have hread : s.pendingReads - 1 = 0 := by omega
  cases stepped_of_step h with
  | enqueue f => exact absurd hadmitted hunserved
  | supersede => exact absurd hadmitted hunserved
  | onWriteDone ok hwrites => exact absurd hquiet.writes hwrites
  | onReadFailed _ =>
      refine ⟨.inr (.inr ?_), trivial⟩
      simp only [onReadFailed, hunfinished, hquiet.writing, hquiet.outbox, List.isEmpty_nil,
        Bool.false_eq_true, if_false, if_true, htasks]
      exact ⟨hquiet.keep rfl rfl rfl, hread, by simp [Task.closes]⟩
  | onHeartbeat key _ =>
      refine ⟨.inr (.inl ?_), trivial⟩
      simp only [onHeartbeat, hunnamed, Bool.false_eq_true, if_false, htasks]
      exact ⟨hquiet.keep rfl rfl rfl, rfl, hread, hunfinished, rfl, by simp⟩
  | onCancel =>
      refine ⟨.inl ?_, trivial⟩
      rw [onCancel, if_neg (by simp [hunfinished])]
      refine ⟨hquiet.keep rfl rfl rfl, hunnamed, hunfinished, hreads, ?_⟩
      simp [hunnamed, htasks]
  | onDone _ hnone =>
      rw [hreads] at hnone
      cases hnone
  | @run i t rest answer hpick =>
      have hmem := (mem_of_pick hpick).mpr (.inl rfl)
      rw [htasks] at hmem
      cases hmem

theorem Joining.not_served {s : Rpc F} {t : Task F} (hs : s.Joining t) : ¬ s.Served := by
  intro hserved
  have hnone : s.tasks.countP Task.registers = 0 :=
    List.countP_eq_zero.mpr fun x hx => by simp [hserved.tasks x hx]
  rw [hs.one] at hnone
  cases hnone

theorem Joining.rest {s : Rpc F} {t : Task F} {i : Nat} {rest : List (Task F)}
    (hs : s.Joining t) (ht : t.registers = true) (hpick : pick i s.tasks = some (t, rest)) :
    ∀ x ∈ rest, x = .unregister := by
  have hcount := countP_of_pick hpick Task.registers
  rw [hs.one, ht, if_pos rfl] at hcount
  have hnone : rest.countP Task.registers = 0 := by omega
  intro x hx
  refine (hs.tasks x ((mem_of_pick hpick).mpr (.inr hx))).resolve_left ?_
  rintro rfl
  exact List.countP_eq_zero.mp hnone x hx ht

theorem joining_of_step {s s' : Rpc F} {a : RpcAction F} {e : RpcEvent F} {t : Task F}
    (ht : t.registers = true) (h : s.step a = some (e, s')) (hs : s.Joining t)
    (hadmitted : s.Admitted a) :
    (s'.Joining t ∧ e.Mute) ∨
      ∃ i rest answer, a = .run i answer ∧ pick i s.tasks = some (t, rest) ∧
        (∀ x ∈ rest, x = .unregister) ∧ s.runTask rest answer t = (e, s') := by
  have hmore : ∀ s'' : Rpc F, s''.reactor.outbox = s.reactor.outbox →
      s''.reactor.writing = s.reactor.writing → s''.pendingWrites = s.pendingWrites →
      s''.reactor.initialised = s.reactor.initialised →
      s''.pendingReads = s.pendingReads → s''.reactor.finished = s.reactor.finished →
      s''.tasks = .unregister :: s.tasks → s''.Joining t := by
    intro s'' houtbox hwriting hwrites hnamed hreads hfinished htasks
    refine ⟨hs.quiet.keep houtbox hwriting hwrites, hnamed.trans hs.named,
      hreads.trans hs.reads, hfinished.trans hs.unfinished, ?_, ?_⟩
    · rw [htasks, List.countP_cons_of_neg (by simp [Task.registers])]
      exact hs.one
    · rw [htasks]
      intro x hx
      rcases List.mem_cons.mp hx with rfl | hx
      · exact .inr rfl
      · exact hs.tasks x hx
  cases stepped_of_step h with
  | enqueue f => exact absurd hadmitted hs.not_served
  | supersede => exact absurd hadmitted hs.not_served
  | onWriteDone ok hwrites => exact absurd hs.quiet.writes hwrites
  | onReadFailed hreads => exact absurd hs.reads hreads
  | onHeartbeat key hreads => exact absurd hs.reads hreads
  | onCancel =>
      rw [onCancel, if_neg (by simp [hs.unfinished])]
      refine .inl ⟨hmore _ rfl rfl rfl rfl rfl rfl ?_, trivial⟩
      simp only [hs.named, if_true]
      rfl
  | onDone hfinishes hreads =>
      refine .inl ⟨hmore _ rfl rfl rfl rfl rfl rfl ?_, trivial⟩
      simp only [onDone, hs.named, if_true]
      rfl
  | @run i x rest answer hpick =>
      rcases hs.tasks x ((mem_of_pick hpick).mpr (.inl rfl)) with rfl | rfl
      · exact .inr ⟨i, rest, answer, rfl, hpick, hs.rest ht hpick, rfl⟩
      · have hcount := countP_of_pick hpick Task.registers
        rw [hs.one] at hcount
        exact .inl ⟨⟨hs.quiet.keep rfl rfl rfl, hs.named, hs.reads, hs.unfinished,
          hcount.symm, fun y hy => hs.tasks y ((mem_of_pick hpick).mpr (.inr hy))⟩, trivial⟩

theorem served_of_step {s s' : Rpc F} {a : RpcAction F} {e : RpcEvent F}
    (h : s.step a = some (e, s')) (hs : s.Served) : s'.Served := by
  cases stepped_of_step h with
  | enqueue f =>
      refine ⟨(reactor_enqueue_identity s.reactor f).1.trans hs.named,
        mem_more _ rfl ?_ hs.tasks⟩
      rw [afterEnqueue]
      split <;> simp [Task.registers, After.tasks]
  | onWriteDone ok hwrites =>
      refine ⟨hs.named, mem_more _ rfl ?_ hs.tasks⟩
      split_ifs <;> simp [Task.registers]
  | onReadFailed hreads =>
      rw [onReadFailed]
      split_ifs
      · exact ⟨hs.named, hs.tasks⟩
      · exact ⟨hs.named, hs.tasks⟩
      · exact ⟨hs.named, mem_more [_] rfl (by simp [Task.registers]) hs.tasks⟩
      · exact ⟨hs.named, mem_more [_] rfl (by simp [Task.registers]) hs.tasks⟩
  | onHeartbeat key hreads =>
      rw [onHeartbeat, if_pos hs.named]
      exact ⟨hs.named, mem_more [_] rfl (by simp [Task.registers]) hs.tasks⟩
  | onCancel =>
      rw [onCancel]
      split
      · exact hs
      · refine ⟨hs.named, mem_more _ rfl ?_ hs.tasks⟩
        split <;> simp [Task.registers]
  | onDone hfinishes hreads =>
      refine ⟨hs.named, mem_more _ rfl ?_ hs.tasks⟩
      split <;> simp [Task.registers]
  | supersede => exact ⟨hs.named, hs.tasks⟩
  | @run i t rest answer hpick =>
      obtain ⟨hinit, -, htasks⟩ := identity_runTask s rest answer t
      refine ⟨hinit.trans hs.named, fun x hx => ?_⟩
      by_contra hreg
      rcases htasks x hx (by simpa using hreg) with ht | hrest
      · have := hs.tasks t ((mem_of_pick hpick).mpr (.inl rfl))
        rw [ht] at this
        cases this
      · exact hreg (hs.tasks x ((mem_of_pick hpick).mpr (.inr hrest)))

/-- A dial goes from one stage to the next. -/
theorem stage_of_step {s s' : Rpc F} {a : RpcAction F} {e : RpcEvent F}
    (h : s.step a = some (e, s')) (hs : s.Stage) (hadmitted : s.Admitted a) : s'.Stage := by
  have hcons : ∀ {rest : List (Task F)} {x : Task F}, (∀ y ∈ rest, y = .unregister) →
      x.registers = true → (x :: rest).countP Task.registers = 1 ∧
        ∀ y ∈ x :: rest, y = x ∨ y = .unregister := by
    intro rest x hrest hx
    constructor
    · rw [List.countP_cons_of_pos hx, Nat.add_eq_right, List.countP_eq_zero]
      intro y hy
      rw [hrest y hy]
      exact Bool.false_ne_true
    · intro y hy
      exact (List.mem_cons.mp hy).imp_right (hrest y)
  rcases hs with hs | hs | hs | hs | hs
  · rcases (waiting_of_step h hs hadmitted).1 with h | h | h
    · exact .waiting h
    · exact .gated h
    · exact .silent h
  · rcases joining_of_step rfl h hs hadmitted with ⟨h, -⟩ | ⟨i, rest, answer, rfl, -, hrest, hrun⟩
    · exact .gated h
    · obtain rfl : (s.runTask rest answer .gate).2 = s' := congrArg Prod.snd hrun
      rw [runTask]
      dsimp only
      split
      · obtain ⟨hone, htasks⟩ := hcons (x := .register) hrest rfl
        exact .joining ⟨hs.quiet.keep rfl rfl rfl, hs.named, hs.reads, hs.unfinished, hone, htasks⟩
      · refine .silent ⟨hs.quiet.keep rfl rfl rfl, hs.reads, fun x hx => ?_⟩
        rcases List.mem_cons.mp hx with rfl | hx
        · rfl
        · rw [hrest x hx]
          rfl
  · rcases joining_of_step rfl h hs hadmitted with ⟨h, -⟩ | ⟨i, rest, answer, rfl, -, hrest, hrun⟩
    · exact .joining h
    · obtain rfl : (s.runTask rest answer .register).2 = s' := congrArg Prod.snd hrun
      refine .served ⟨hs.named, fun x hx => ?_⟩
      rcases List.mem_cons.mp hx with rfl | hx
      · rfl
      · rw [hrest x hx]
        rfl
  · exact .served (served_of_step h hs)
  · by_cases hserved : s.Served
    · exact .served (served_of_step h hserved)
    · refine .silent (silent_of_step h hs ?_).1
      rintro f rfl
      exact hserved hadmitted

theorem register_of_step {s s' : Rpc F} {a : RpcAction F} {sk : SubscriberKey}
    (h : s.step a = some (.register sk, s')) :
    ∃ i answer rest, a = .run i answer ∧ pick i s.tasks = some (.register, rest) ∧
      sk = s.reactor.key ∧ s' = { s with tasks := .snapshot :: rest } := by
  generalize he : RpcEvent.register sk = e at h
  cases stepped_of_step h with
  | @run i t rest answer hpick =>
      obtain ⟨hreg, hsk⟩ := registers_of_register s rest answer he.symm
      cases t with
      | register => exact ⟨i, answer, rest, rfl, hpick, hsk, rfl⟩
      | gate => cases he
      | _ => cases hreg
  | _ => cases he

/-- Only a stream that has passed the gate enters the table. -/
theorem joining_of_register {s s' : Rpc F} {a : RpcAction F} {sk : SubscriberKey}
    (hs : s.Stage) (h : s.step a = some (.register sk, s')) :
    s.Joining .register ∧ s'.Served := by
  obtain ⟨i, answer, rest, -, hpick, -, rfl⟩ := register_of_step h
  have hmem : .register ∈ s.tasks := (mem_of_pick hpick).mpr (.inl rfl)
  rcases hs with hs | hs | hs | hs | hs
  · rw [hs.tasks] at hmem
    cases hmem
  · rcases hs.tasks _ hmem with h | h <;> cases h
  · refine ⟨hs, hs.named, fun x hx => ?_⟩
    rcases List.mem_cons.mp hx with rfl | hx
    · rfl
    · rw [hs.rest rfl hpick x hx]
      rfl
  · cases hs.tasks _ hmem
  · cases hs.tasks _ hmem

/-- What a step can do to the end of a stream. -/
structure Lifecycle (s s' : Rpc F) (a : RpcAction F) : Prop where
  cancelled : s'.reactor.cancelled = true →
    s.reactor.cancelled = true ∨ a = .onCancel ∨ a = .supersede
  done : s.done = true → s'.done = true
  evicts : ∀ t ∈ s'.tasks, t.evicts = true → t ∈ s.tasks ∨
    a = .onCancel ∧ s'.reactor.cancelled = true ∨ a = .onDone ∧ s'.done = true

theorem Lifecycle.quiet {s s' : Rpc F} {a : RpcAction F} (ts : List (Task F))
    (htasks : s'.tasks = ts ++ s.tasks) (hts : ∀ t ∈ ts, t.evicts = false)
    (hcancelled : s'.reactor.cancelled = s.reactor.cancelled) (hdone : s'.done = s.done) :
    Lifecycle s s' a := by
  refine ⟨fun h => .inl (hcancelled ▸ h), fun h => hdone.trans h, fun t ht hevicts => ?_⟩
  rw [htasks] at ht
  rcases List.mem_append.mp ht with ht | ht
  · rw [hts t ht] at hevicts
    cases hevicts
  · exact .inl ht

theorem evicts_after {after : After F} {t : Task F} (ht : t ∈ after.tasks) :
    t.evicts = false := by
  cases after with
  | done => cases ht
  | resume => rw [List.mem_singleton.mp ht]; rfl
  | presence fs => rw [List.mem_singleton.mp ht]; rfl

theorem evicts_afterEnqueue {r : SubscriberReactor F} {status : OutboxStatus}
    {after : After F} {t : Task F} (ht : t ∈ afterEnqueue r status after) :
    t.evicts = false := by
  rw [afterEnqueue] at ht
  split at ht
  · rw [List.mem_singleton.mp ht]
    rfl
  · exact evicts_after ht

theorem lifecycle_runTask (s : Rpc F) (rest : List (Task F)) (answer : Answer F) (t : Task F) :
    (s.runTask rest answer t).2.reactor.cancelled = s.reactor.cancelled ∧
      (s.runTask rest answer t).2.done = s.done ∧
      ∀ x ∈ (s.runTask rest answer t).2.tasks, x.evicts = true → x ∈ rest := by
  have hmore : ∀ ts : List (Task F), (∀ x ∈ ts, x.evicts = false) →
      ∀ x ∈ ts ++ rest, x.evicts = true → x ∈ rest := by
    intro ts hts x hx hevicts
    refine (List.mem_append.mp hx).resolve_left fun hx => ?_
    rw [hts x hx] at hevicts
    cases hevicts
  have hone : ∀ y : Task F, y.evicts = false → ∀ x ∈ y :: rest, x.evicts = true → x ∈ rest :=
    fun y hy => hmore [y] (by simp [hy])
  cases t with
  | startWrite after =>
      cases hw : s.reactor.startWrite with
      | none =>
          simp only [runTask, hw]
          exact ⟨trivial, trivial, hmore _ fun _ => evicts_after⟩
      | some p =>
          obtain ⟨f, r⟩ := p
          obtain ⟨-, -, fs, -, rfl⟩ := startWrite_eq_some hw
          simp only [runTask, hw]
          exact ⟨trivial, trivial, hone _ rfl⟩
  | issueWrite after => exact ⟨rfl, rfl, hmore _ fun _ => evicts_after⟩
  | resume =>
      rw [runTask, SubscriberReactor.resume_eq]
      refine ⟨rfl, rfl, ?_⟩
      dsimp only
      split
      · exact hone _ rfl
      · exact hmore [] (List.forall_mem_nil _)
  | gate =>
      refine ⟨rfl, rfl, ?_⟩
      rw [runTask]
      dsimp only
      split <;> exact hone _ rfl
  | register => exact ⟨rfl, rfl, hone _ rfl⟩
  | snapshot => exact ⟨rfl, rfl, hone _ rfl⟩
  | presence frames =>
      cases frames with
      | nil => exact ⟨rfl, rfl, hmore [] (List.forall_mem_nil _)⟩
      | cons f fs =>
          refine ⟨?_, rfl, hmore _ fun _ => evicts_afterEnqueue⟩
          rw [runTask, enqueue_frame]
  | teardownStatus => exact ⟨rfl, rfl, hone _ rfl⟩
  | finish status =>
      rw [runTask]
      split
      · exact ⟨rfl, rfl, hmore [] (List.forall_mem_nil _)⟩
      · exact ⟨rfl, rfl, hone _ rfl⟩
  | issueFinish status => exact ⟨rfl, rfl, hmore [] (List.forall_mem_nil _)⟩
  | unregister => exact ⟨rfl, rfl, hmore [] (List.forall_mem_nil _)⟩

theorem lifecycle_of_step {s s' : Rpc F} {a : RpcAction F} {e : RpcEvent F}
    (h : s.step a = some (e, s')) : Lifecycle s s' a := by
  cases stepped_of_step h with
  | enqueue f =>
      refine .quiet _ rfl (fun _ => evicts_afterEnqueue) ?_ rfl
      rw [enqueue, enqueue_frame]
  | onWriteDone ok hwrites =>
      refine .quiet _ rfl ?_ rfl rfl
      split_ifs <;> simp [Task.evicts]
  | onReadFailed hreads =>
      rw [onReadFailed]
      split_ifs
      · exact .quiet [] rfl (List.forall_mem_nil _) rfl rfl
      · exact .quiet [] rfl (List.forall_mem_nil _) rfl rfl
      · exact .quiet [.teardownStatus] rfl (by simp [Task.evicts]) rfl rfl
      · exact .quiet [.startWrite .done] rfl (by simp [Task.evicts]) rfl rfl
  | onHeartbeat key hreads =>
      rw [onHeartbeat]
      split
      · exact .quiet [.presence []] rfl (by simp [Task.evicts]) rfl rfl
      · exact .quiet [.gate] rfl (by simp [Task.evicts]) rfl rfl
  | onCancel =>
      rw [onCancel]
      split
      · exact .quiet [] rfl (List.forall_mem_nil _) rfl rfl
      · refine ⟨fun _ => .inr (.inl rfl), id, fun t ht _ => ?_⟩
        exact (List.mem_append.mp ht).symm.imp_right fun _ => .inl ⟨rfl, rfl⟩
  | onDone hfinishes hreads =>
      refine ⟨.inl, fun _ => rfl, fun t ht _ => ?_⟩
      exact (List.mem_append.mp ht).symm.imp_right fun _ => .inr ⟨rfl, rfl⟩
  | supersede => exact ⟨fun _ => .inr (.inr rfl), id, fun t ht _ => .inl ht⟩
  | @run i t rest answer hpick =>
      obtain ⟨hcancelled, hdone, htasks⟩ := lifecycle_runTask s rest answer t
      exact ⟨fun h => .inl (hcancelled ▸ h), fun h => hdone.trans h, fun x hx hevicts =>
        .inl ((mem_of_pick hpick).mpr (.inr (htasks x hx hevicts)))⟩

theorem isLive_eq_true_iff (r : SubscriberReactor F) :
    r.isLive = true ↔ r.finished = false ∧ r.cancelled = false := by
  simp [SubscriberReactor.isLive]

theorem live_of_step {s s' : Rpc F} {a : RpcAction F} {e : RpcEvent F}
    (h : s.step a = some (e, s')) (hlive : s'.reactor.isLive = true) :
    s.reactor.isLive = true := by
  have hkeeps := keeps_of_step h
  rw [isLive_eq_true_iff] at hlive ⊢
  constructor
  · by_contra hfinished
    cases hlive.1.symm.trans (hkeeps.finished (by simpa using hfinished))
  · by_contra hcancelled
    cases hlive.2.symm.trans (hkeeps.cancelled (by simpa using hcancelled))

theorem not_live_of_done {maxFrames hwm lwm : Nat} {evs : List (RpcEvent F)} {s : Rpc F}
    (h : Trace (Steps step) (init maxFrames hwm lwm) evs s) (hdone : s.done = true) :
    s.reactor.isLive = false := by
  have hfinished := finished_of_done h ((finishInv_of_trace h).done hdone)
  rw [SubscriberReactor.isLive, hfinished]
  rfl

theorem not_live_of_evicts {maxFrames hwm lwm : Nat} {evs : List (RpcEvent F)} {s : Rpc F}
    (h : Trace (Steps step) (init maxFrames hwm lwm) evs s) :
    (∃ t ∈ s.tasks, t.evicts = true) → s.reactor.isLive = false := by
  refine Trace.invariant (P := fun _ s =>
    (∃ t ∈ s.tasks, t.evicts = true) → s.reactor.isLive = false) ?_ ?_ h
  · rintro ⟨t, ht, -⟩
    cases ht
  · rintro evs s e s' hprev hold ⟨a, ha, hstep⟩ ⟨t, ht, hevicts⟩
    rcases (lifecycle_of_step hstep).evicts t ht hevicts with ht | ⟨-, hcancelled⟩ | ⟨-, hdone⟩
    · by_contra hlive
      have hlive := live_of_step hstep (by simpa using hlive)
      cases hlive.symm.trans (hold ⟨t, ht, hevicts⟩)
    · rw [SubscriberReactor.isLive, hcancelled, Bool.not_true, Bool.and_false]
    · exact not_live_of_done (hprev.snoc ⟨a, ha, hstep⟩) hdone

end Rpc

end Edriel
