import Edriel.Finish

namespace Edriel

open Interleaving

universe u

variable {F : Type u}

def Task.decided : Task F → Bool
  | .teardownStatus => true
  | .finish _ => true
  | _ => false

namespace Rpc

/-- The stream is never cancelled or superseded, its writes succeed and its dialer
is known. -/
def Orderly : RpcAction F → Prop
  | .onCancel => False
  | .supersede => False
  | .onWriteDone ok => ok = true
  | .run _ answer => answer.known = true
  | _ => True

/-- The step is the lock section of an `enqueue`. -/
def enqueues (s : Rpc F) : RpcAction F → Bool
  | .enqueue _ => true
  | .run i _ =>
      match pick i s.tasks with
      | some (.presence (_ :: _), _) => true
      | _ => false
  | _ => false

/-- No `enqueue` meets a sendable reactor between a decision to finish it and the
finish. -/
def Undisturbed (s : Rpc F) (a : RpcAction F) : Prop :=
  Orderly a ∧ (s.enqueues a = true → s.reactor.isSendable = true →
    ∀ t ∈ s.tasks, t.decided = false)

/-- From the decision on nothing is queued or in flight. -/
def Settled (s : Rpc F) : Prop :=
  s.reactor.finished = true ∨ (∃ t ∈ s.tasks, t.decided = true) →
    s.reactor.outbox = [] ∧ s.reactor.writing = false

theorem Settled.quiet {s s' : Rpc F} (h : s.Settled)
    (hfinished : s'.reactor.finished = true → s.reactor.finished = true)
    (htasks : ∀ t ∈ s'.tasks, t.decided = true → ∃ t' ∈ s.tasks, t'.decided = true)
    (houtbox : s'.reactor.outbox = s.reactor.outbox)
    (hwriting : s'.reactor.writing = true → s.reactor.writing = true) : s'.Settled := by
  intro hclosing
  have hold : s.reactor.finished = true ∨ ∃ t ∈ s.tasks, t.decided = true := by
    rcases hclosing with hf | ⟨t, ht, hdecided⟩
    · exact .inl (hfinished hf)
    · exact .inr (htasks t ht hdecided)
  obtain ⟨hempty, hidle⟩ := h hold
  refine ⟨houtbox.trans hempty, ?_⟩
  by_contra hbusy
  rw [hwriting (by simpa using hbusy)] at hidle
  cases hidle

theorem not_decided_after {after : After F} {t : Task F} (ht : t ∈ after.tasks) :
    t.decided = false := by
  cases after with
  | done => cases ht
  | resume => rw [List.mem_singleton.mp ht]; rfl
  | presence fs => rw [List.mem_singleton.mp ht]; rfl

theorem not_decided_afterEnqueue {r : SubscriberReactor F} {status : OutboxStatus}
    {after : After F} {t : Task F} (ht : t ∈ afterEnqueue r status after) :
    t.decided = false := by
  rw [afterEnqueue] at ht
  split at ht
  · rw [List.mem_singleton.mp ht]
    rfl
  · exact not_decided_after ht

theorem settled_enqueue {s s' : Rpc F} {f : F} (after : After F) {rest : List (Task F)}
    (h : s.Settled) (hrest : ∀ t ∈ rest, t ∈ s.tasks)
    (hcond : s.reactor.isSendable = true → ∀ t ∈ s.tasks, t.decided = false)
    (hreactor : s'.reactor = (s.reactor.enqueue f).2)
    (htasks : s'.tasks = afterEnqueue s.reactor (s.reactor.enqueue f).1 after ++ rest) :
    s'.Settled := by
  have hdecided : ∀ t ∈ s'.tasks, t.decided = true → ∃ t' ∈ s.tasks, t'.decided = true := by
    intro t ht hdec
    rw [htasks] at ht
    rcases List.mem_append.mp ht with ht | ht
    · rw [not_decided_afterEnqueue ht] at hdec
      cases hdec
    · exact ⟨t, hrest t ht, hdec⟩
  by_cases hok : (s.reactor.enqueue f).1 = .accepted
  · -- an accepting reactor is neither finished nor about to be
    have hsend := (enqueue_eq_accepted_iff s.reactor f).mp hok
    have hfinished : s.reactor.finished = false := by
      simp only [SubscriberReactor.isSendable, Bool.and_eq_true, Bool.not_eq_true'] at hsend
      exact hsend.1.1.1
    rintro (hclosing | ⟨t, ht, hdec⟩)
    · rw [hreactor, finished_enqueue, hfinished] at hclosing
      cases hclosing
    · obtain ⟨t', ht', hdec'⟩ := hdecided t ht hdec
      rw [hcond hsend t' ht'] at hdec'
      cases hdec'
  · refine h.quiet ?_ hdecided ?_ ?_
    · rw [hreactor, finished_enqueue]
      exact id
    · rw [hreactor, enqueue_of_not_accepted hok]
    · rw [hreactor, enqueue_frame]
      exact id

theorem settled_runTask {s : Rpc F} {i : Nat} {t : Task F} {rest : List (Task F)}
    {answer : Answer F} (h : s.Settled) (hpick : pick i s.tasks = some (t, rest))
    (hok : Undisturbed s (.run i answer)) : (s.runTask rest answer t).2.Settled := by
  obtain ⟨hknown, hcond⟩ := hok
  have hrest : ∀ t' ∈ rest, t' ∈ s.tasks := fun t' ht' => (mem_of_pick hpick).mpr (.inr ht')
  have hmine : t ∈ s.tasks := (mem_of_pick hpick).mpr (.inl rfl)
  have hmoved : ∀ ts : List (Task F), (∀ t' ∈ ts, t'.decided = true → t.decided = true) →
      ∀ t' ∈ ts ++ rest, t'.decided = true → ∃ x ∈ s.tasks, x.decided = true := by
    intro ts hts t' ht' hdec
    rcases List.mem_append.mp ht' with ht' | ht'
    · exact ⟨t, hmine, hts t' ht' hdec⟩
    · exact ⟨t', hrest t' ht', hdec⟩
  have hafter : ∀ after : After F, ∀ t' ∈ after.tasks, t'.decided = true → t.decided = true := by
    intro after t' ht' hdec
    rw [not_decided_after ht'] at hdec
    cases hdec
  cases t with
  | startWrite after =>
      cases hw : s.reactor.startWrite with
      | none =>
          simp only [runTask, hw]
          exact h.quiet id (hmoved after.tasks (hafter after)) rfl id
      | some p =>
          obtain ⟨f, r⟩ := p
          obtain ⟨hopen, -, fs, hout, rfl⟩ := startWrite_eq_some hw
          simp only [runTask, hw]
          -- a queued frame means that nobody has decided yet
          rintro (hclosing | ⟨t', ht', hdec⟩)
          · exact absurd (hopen.symm.trans hclosing) Bool.noConfusion
          · obtain ⟨x, hx, hdecided⟩ :=
              hmoved [.issueWrite after] (by simp [Task.decided]) t' ht' hdec
            obtain ⟨hempty, -⟩ := h (.inr ⟨x, hx, hdecided⟩)
            rw [hout] at hempty
            cases hempty
  | issueWrite after => exact h.quiet id (hmoved after.tasks (hafter after)) rfl id
  | resume =>
      rw [runTask, SubscriberReactor.resume_eq]
      cases hnow : s.reactor.finishNow with
      | true =>
          intro _
          simp only [SubscriberReactor.finishNow, Bool.and_eq_true, Bool.not_eq_true',
            List.isEmpty_iff] at hnow
          exact ⟨hnow.2, hnow.1.2⟩
      | false => exact h.quiet id (hmoved [] (List.forall_mem_nil _)) rfl id
  | gate =>
      have hknown : answer.known = true := hknown
      simp only [runTask, hknown, if_true]
      exact h.quiet id (hmoved [.register] (by simp [Task.decided])) rfl id
  | register => exact h.quiet id (hmoved [.snapshot] (by simp [Task.decided])) rfl id
  | snapshot =>
      exact h.quiet id (hmoved [.presence answer.presence] (by simp [Task.decided])) rfl id
  | presence frames =>
      cases frames with
      | nil => exact h.quiet id (hmoved [] (List.forall_mem_nil _)) rfl id
      | cons f fs =>
          refine settled_enqueue (.presence fs) h hrest (hcond ?_) rfl rfl
          rw [enqueues, hpick]
  | teardownStatus =>
      exact h.quiet id (hmoved [.finish s.reactor.teardownStatus] (fun _ _ _ => rfl)) rfl id
  | finish status =>
      rw [runTask]
      split
      · exact h.quiet id (hmoved [] (List.forall_mem_nil _)) rfl id
      · exact fun _ => h (.inr ⟨_, hmine, rfl⟩)
  | issueFinish status => exact h.quiet id (hmoved [] (List.forall_mem_nil _)) rfl id
  | unregister => exact h.quiet id (hmoved [] (List.forall_mem_nil _)) rfl id

theorem settled_step {s s' : Rpc F} {a : RpcAction F} {e : RpcEvent F}
    (h : s.step a = some (e, s')) (hsettled : s.Settled) (hok : Undisturbed s a) :
    s'.Settled := by
  have hmore : ∀ ts : List (Task F), (∀ t ∈ ts, t.decided = false) →
      ∀ t ∈ ts ++ s.tasks, t.decided = true → ∃ x ∈ s.tasks, x.decided = true := by
    intro ts hts t ht hdec
    rcases List.mem_append.mp ht with ht | ht
    · rw [hts t ht] at hdec
      cases hdec
    · exact ⟨t, ht, hdec⟩
  cases stepped_of_step h with
  | enqueue f => exact settled_enqueue .done hsettled (fun _ => id) (hok.2 rfl) rfl rfl
  | onWriteDone ok hwrites =>
      obtain rfl : ok = true := hok.1
      exact hsettled.quiet id (hmore [.startWrite .resume] (by simp [Task.decided])) rfl
        (fun hwriting => by cases hwriting)
  | onReadFailed hreads =>
      rw [onReadFailed]
      split
      · exact hsettled.quiet id (hmore [] (List.forall_mem_nil _)) rfl id
      · split
        · exact hsettled.quiet id (hmore [] (List.forall_mem_nil _)) rfl id
        · split
          · rename_i hidle hempty
            exact fun _ => ⟨List.isEmpty_iff.mp hempty, by simpa using hidle⟩
          · exact hsettled.quiet id (hmore [.startWrite .done] (by simp [Task.decided]))
              rfl id
  | onHeartbeat key hreads =>
      rw [onHeartbeat]
      split
      · exact hsettled.quiet id (hmore [.presence []] (by simp [Task.decided])) rfl id
      · exact hsettled.quiet id (hmore [.gate] (by simp [Task.decided])) rfl id
  | onCancel => exact hok.1.elim
  | onDone hfinishes hreads =>
      refine hsettled.quiet id (hmore _ ?_) rfl id
      split <;> simp [Task.decided]
  | supersede => exact hok.1.elim
  | @run i t rest answer hpick => exact settled_runTask hsettled hpick hok

theorem settled_of_trace {maxFrames hwm lwm : Nat} {evs : List (RpcEvent F)} {s : Rpc F}
    (h : Trace (StepsWhere Undisturbed step) (init maxFrames hwm lwm) evs s) : s.Settled := by
  refine Trace.invariant (P := fun _ s => s.Settled) (fun _ => ⟨rfl, rfl⟩) ?_ h
  rintro evs s e s' - hsettled ⟨a, hok, hstep⟩
  exact settled_step hstep hsettled hok

theorem silent_of_trace {s s' : Rpc F} {evs : List (RpcEvent F)}
    (h : Trace (Steps step) s evs s') (hfinished : s.reactor.finished = true)
    (houtbox : s.reactor.outbox = []) (hissues : s.issues = 0) :
    accepted evs = [] ∧ started evs = [] := by
  have hall : (s'.reactor.finished = true ∧ s'.writeSide.outbox = [] ∧
      s'.writeSide.issues = 0) ∧ accepted evs = [] ∧ started evs = [] := by
    refine Trace.invariant (P := fun evs s => (s.reactor.finished = true ∧
      s.writeSide.outbox = [] ∧ s.writeSide.issues = 0) ∧ accepted evs = [] ∧ started evs = [])
      ⟨⟨hfinished, houtbox, hissues⟩, rfl, rfl⟩ ?_ h
    rintro evs s e s' - ⟨⟨hfinished, houtbox, hissues⟩, haccepted, hstarted⟩ ⟨a, -, hstep⟩
    have hkeep := (keeps_of_step hstep).finished hfinished
    have heffect := effect_of_step hstep
    rw [accepted_concat, started_concat, haccepted, hstarted]
    cases e with
    | enqueued f status =>
        obtain ⟨rfl, hs'⟩ := heffect
        have hrefused : s.reactor.enqueue f = (.notConnected, s.reactor) := by
          rw [SubscriberReactor.enqueue, hfinished]
          rfl
        rw [hs', hrefused]
        exact ⟨⟨hkeep, houtbox, hissues⟩, rfl, rfl⟩
    | moved f =>
        obtain ⟨-, fs, hout, -⟩ := heffect
        cases houtbox.symm.trans hout
    | startWrite frame =>
        obtain ⟨-, k, hk, -⟩ := heffect
        cases hissues.symm.trans hk
    | writeDone ok =>
        obtain ⟨k, -, hs'⟩ := heffect
        rw [hs']
        exact ⟨⟨hkeep, houtbox, hissues⟩, rfl, rfl⟩
    | observed depth =>
        rw [heffect.2]
        exact ⟨⟨hkeep, houtbox, hissues⟩, rfl, rfl⟩
    | _ =>
        have hs' : s'.writeSide = s.writeSide := heffect
        rw [hs']
        exact ⟨⟨hkeep, houtbox, hissues⟩, rfl, rfl⟩
  exact hall.2

/-- A half-close cuts no accepted frame short while no `enqueue` comes between the
decision to finish and the finish: at the `Finish` every frame that is ever
accepted has been handed to `StartWrite`, and none is handed over after it. -/
theorem half_close_complete {maxFrames hwm lwm : Nat}
    {before after : List (RpcEvent F)} {status : Status} {s : Rpc F}
    (h : Trace (StepsWhere Undisturbed step) (init maxFrames hwm lwm)
      (before ++ .finish status :: after) s) :
    started before = (accepted (before ++ .finish status :: after)).map some ∧
      started after = [] := by
  have hcut : before ++ .finish status :: after = before ++ [.finish status] ++ after := by simp
  rw [hcut] at h ⊢
  obtain ⟨m, hm, hafter⟩ := h.split
  have hrun := hm.unrestricted
  have hfinished : m.reactor.finished = true := by
    have honce := (finishInv_of_trace hrun).once
    rw [finishCalls_concat, List.length_append] at honce
    by_contra hopen
    rw [if_neg hopen] at honce
    have hone : (finishedBy (.finish status : RpcEvent F)).toList.length = 1 := rfl
    omega
  obtain ⟨houtbox, hidle⟩ := settled_of_trace hm (.inl hfinished)
  obtain ⟨houtstanding, hcarried, hhanded⟩ := streamInv_of_trace hrun
  have hissues : m.issues = 0 := by
    have houtstanding : m.issues + m.pendingWrites = if m.reactor.writing then 1 else 0 :=
      houtstanding
    rw [hidle] at houtstanding
    simp only [Bool.false_eq_true, if_false] at houtstanding
    omega
  have hmoved : moved (before ++ [.finish status]) = accepted (before ++ [.finish status]) := by
    have hcarried : moved (before ++ [.finish status]) ++ m.reactor.outbox =
      accepted (before ++ [.finish status]) := hcarried
    rwa [houtbox, List.append_nil] at hcarried
  have hstarted : started (before ++ [.finish status]) =
      (moved (before ++ [.finish status])).map some := by
    have hhanded : started (before ++ [.finish status]) ++ m.claimed =
      (moved (before ++ [.finish status])).map some := hhanded
    rwa [claimed, if_pos hissues, List.append_nil] at hhanded
  obtain ⟨haccepted, hsilent⟩ := silent_of_trace hafter.unrestricted hfinished houtbox hissues
  refine ⟨?_, hsilent⟩
  have hnone : started (before ++ [.finish status]) = started before :=
    started_concat_none before rfl
  have hsplit : accepted (before ++ [.finish status] ++ after) =
      accepted (before ++ [.finish status]) := by
    rw [accepted, List.filterMap_append]
    exact (congrArg _ haccepted).trans (List.append_nil _)
  rw [← hnone, hstarted, hmoved, hsplit]

/-- One frame is written while the dialer closes its half. -/
theorem half_close_complete_in_flight :
    ∃ before after s, Trace (StepsWhere Undisturbed step) (init 4 3 1)
        (before ++ .finish ⟨.ok, ""⟩ :: after) s ∧
      started before = [some 5] ∧
      started before = (accepted (before ++ .finish ⟨.ok, ""⟩ :: after)).map some ∧
      started after = [] := by
  have h : Trace (StepsWhere Undisturbed step) (init 4 3 1) _ _ :=
    ((((((((((Trace.nil.snoc ⟨.enqueue 5, ⟨trivial, fun _ _ => nofun⟩, rfl⟩).snoc
      ⟨.run 0 {}, ⟨rfl, nofun⟩, rfl⟩).snoc ⟨.run 0 {}, ⟨rfl, nofun⟩, rfl⟩).snoc
      ⟨.onReadDone none, ⟨trivial, nofun⟩, rfl⟩).snoc
      ⟨.onWriteDone true, ⟨rfl, nofun⟩, rfl⟩).snoc
      ⟨.run 0 {}, ⟨rfl, nofun⟩, rfl⟩).snoc ⟨.run 0 {}, ⟨rfl, nofun⟩, rfl⟩).snoc
      ⟨.run 0 {}, ⟨rfl, nofun⟩, rfl⟩).snoc ⟨.run 0 {}, ⟨rfl, nofun⟩, rfl⟩).snoc
      ⟨.run 0 {}, ⟨rfl, nofun⟩, rfl⟩)
  exact ⟨_, [], _, h, rfl, half_close_complete h⟩

/-- A frame is accepted after the dialer's half-close has found the outbox empty. -/
def enqueuedTooLate : List (RpcAction Nat) :=
  [.onReadDone none, .enqueue 5, .run 0 {}, .run 1 {}, .run 0 {}, .run 0 {}, .run 0 {}]

theorem isSome_exec_enqueuedTooLate :
    (exec step (init 4 3 1) enqueuedTooLate).isSome = true :=
  rfl

theorem half_close_cuts_frame :
    ∃ before after s, Trace (StepsWhere (fun _ a => Orderly a) step) (init 4 3 1)
        (before ++ .finish ⟨.ok, ""⟩ :: after) s ∧
      accepted before = [5] ∧ started before = [] ∧ started after = [some 5] := by
  obtain ⟨⟨evs, s⟩, h⟩ := Option.isSome_iff_exists.mp isSome_exec_enqueuedTooLate
  refine ⟨[.internal, .enqueued 5 .accepted, .moved 5, .internal, .internal],
    [.startWrite (some 5)], s, ?_, rfl, rfl, rfl⟩
  have hevs : (exec step (init 4 3 1) enqueuedTooLate).map Prod.fst =
      some [.internal, .enqueued 5 .accepted, .moved 5, .internal, .internal,
        .finish ⟨.ok, ""⟩, .startWrite (some 5)] := rfl
  rw [h] at hevs
  obtain rfl := Option.some.inj hevs
  refine trace_of_exec ?_ h
  simp [enqueuedTooLate, Orderly]

end Rpc

end Edriel
