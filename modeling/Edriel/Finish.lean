import Edriel.Attended

namespace Edriel

open Interleaving

universe u

variable {F : Type u}

def Task.isIssueFinish : Task F → Bool
  | .issueFinish _ => true
  | _ => false

namespace Rpc

def finishedBy : RpcEvent F → Option Status
  | .finish status => some status
  | _ => none

def finishCalls (evs : List (RpcEvent F)) : List Status :=
  evs.filterMap finishedBy

theorem finishCalls_concat (evs : List (RpcEvent F)) (e : RpcEvent F) :
    finishCalls (evs ++ [e]) = finishCalls evs ++ (finishedBy e).toList := by
  rw [finishCalls, List.filterMap_append, finishCalls]
  cases h : finishedBy e <;> simp [h]

def finishing (s : Rpc F) : Nat :=
  s.tasks.countP Task.isIssueFinish

/-- What an event says about finishing. -/
def FinishEffect (s s' : Rpc F) : RpcEvent F → Prop
  | .finish _ =>
      s.finishing = s'.finishing + 1 ∧ s'.reactor.finished = s.reactor.finished ∧
        s'.finishes = s.finishes + 1 ∧ s'.done = s.done
  | _ =>
      s'.finishes = s.finishes ∧ (s'.done = true → s.done = true ∨ 0 < s.finishes) ∧
        (s'.finishing = s.finishing ∧ s'.reactor.finished = s.reactor.finished ∨
          s'.finishing = s.finishing + 1 ∧ s.reactor.finished = false ∧
            s'.reactor.finished = true)

theorem finishEffect_quiet {s s' : Rpc F} {e : RpcEvent F} (he : finishedBy e = none)
    (hcount : s'.finishing = s.finishing) (hfinished : s'.reactor.finished = s.reactor.finished)
    (hfinishes : s'.finishes = s.finishes)
    (hdone : s'.done = true → s.done = true ∨ 0 < s.finishes) : FinishEffect s s' e := by
  cases e with
  | finish status => cases he
  | _ => exact ⟨hfinishes, hdone, .inl ⟨hcount, hfinished⟩⟩

theorem finishing_after (after : After F) (rest : List (Task F)) :
    (after.tasks ++ rest).countP Task.isIssueFinish = rest.countP Task.isIssueFinish := by
  cases after <;> simp [After.tasks, Task.isIssueFinish]

theorem finishing_afterEnqueue (r : SubscriberReactor F) (status : OutboxStatus)
    (after : After F) (rest : List (Task F)) :
    (afterEnqueue r status after ++ rest).countP Task.isIssueFinish =
      rest.countP Task.isIssueFinish := by
  rw [afterEnqueue]
  split
  · simp [Task.isIssueFinish]
  · exact finishing_after after rest

theorem finished_enqueue (r : SubscriberReactor F) (f : F) :
    (r.enqueue f).2.finished = r.finished := by
  rw [enqueue_frame]

theorem finishEffect_runTask (s : Rpc F) {t : Task F} {rest : List (Task F)}
    (hcount : s.finishing = rest.countP Task.isIssueFinish + if t.isIssueFinish then 1 else 0)
    (answer : Answer F) :
    FinishEffect s (s.runTask rest answer t).2 (s.runTask rest answer t).1 := by
  -- the sections that leave the reactor alone
  have hquiet : ∀ {s' : Rpc F} {e : RpcEvent F} (ts : List (Task F)),
      t.isIssueFinish = false → finishedBy e = none → s'.tasks = ts ++ rest →
        ts.countP Task.isIssueFinish = 0 → s'.reactor.finished = s.reactor.finished →
          s'.finishes = s.finishes → s'.done = s.done → FinishEffect s s' e := by
    intro s' e ts ht he htasks hts hfinished hfinishes hdone
    refine finishEffect_quiet he ?_ hfinished hfinishes (fun h => .inl (hdone ▸ h))
    rw [hcount, ht, finishing, htasks, List.countP_append, hts, zero_add]
    rfl
  have hafter : ∀ after : After F, after.tasks.countP Task.isIssueFinish = 0 := by
    intro after
    cases after <;> rfl
  cases t with
  | startWrite after =>
      cases hw : s.reactor.startWrite with
      | none =>
          simp only [runTask, hw]
          exact hquiet after.tasks rfl rfl rfl (hafter after) rfl rfl rfl
      | some p =>
          obtain ⟨f, r⟩ := p
          obtain ⟨-, -, fs, -, rfl⟩ := startWrite_eq_some hw
          simp only [runTask, hw]
          exact hquiet [.issueWrite after] rfl rfl rfl rfl rfl rfl rfl
  | issueWrite after => exact hquiet after.tasks rfl rfl rfl (hafter after) rfl rfl rfl
  | resume =>
      refine hquiet (if s.reactor.finishNow then [.teardownStatus] else []) rfl rfl ?_ ?_ ?_
        rfl rfl
      · rw [runTask]
        split <;> rfl
      · split <;> rfl
      · rw [runTask, SubscriberReactor.resume]
        dsimp only
        split <;> rfl
  | gate =>
      refine hquiet [if answer.known then .register else
        .finish ⟨.permissionDenied, "unknown dialer: not a known participant"⟩] rfl rfl ?_ ?_
        rfl rfl rfl
      · rw [runTask]
        split <;> rfl
      · split <;> rfl
  | register => exact hquiet [.snapshot] rfl rfl rfl rfl rfl rfl rfl
  | snapshot => exact hquiet [.presence answer.presence] rfl rfl rfl rfl rfl rfl rfl
  | presence frames =>
      cases frames with
      | nil => exact hquiet [] rfl rfl rfl rfl rfl rfl rfl
      | cons f fs =>
          refine hquiet (afterEnqueue s.reactor (s.reactor.enqueue f).1 (.presence fs)) rfl rfl
            rfl ?_ (finished_enqueue _ f) rfl rfl
          simpa using finishing_afterEnqueue s.reactor (s.reactor.enqueue f).1 (.presence fs) []
  | teardownStatus => exact hquiet [.finish s.reactor.teardownStatus] rfl rfl rfl rfl rfl rfl rfl
  | finish status =>
      have hrest : s.finishing = rest.countP Task.isIssueFinish := hcount
      cases hfinished : s.reactor.finished with
      | true =>
          simp only [runTask, hfinished, if_true]
          exact hquiet [] rfl rfl rfl rfl rfl rfl rfl
      | false =>
          simp only [runTask, hfinished]
          refine ⟨rfl, .inl, .inr ⟨?_, hfinished, rfl⟩⟩
          rw [hrest]
          exact List.countP_cons_of_pos rfl
  | issueFinish status => exact ⟨hcount, rfl, rfl, rfl⟩
  | unregister => exact hquiet [] rfl rfl rfl rfl rfl rfl rfl

theorem finishEffect_of_step {s s' : Rpc F} {a : RpcAction F} {e : RpcEvent F}
    (h : s.step a = some (e, s')) : FinishEffect s s' e := by
  -- calls from outside put no `Finish` into the pool
  have hquiet : ∀ {s' : Rpc F} {e : RpcEvent F} (ts : List (Task F)), finishedBy e = none →
      s'.tasks = ts ++ s.tasks → ts.countP Task.isIssueFinish = 0 →
        s'.reactor.finished = s.reactor.finished → s'.finishes = s.finishes →
          (s'.done = true → s.done = true ∨ 0 < s.finishes) → FinishEffect s s' e := by
    intro s' e ts he htasks hts hfinished hfinishes hdone
    refine finishEffect_quiet he ?_ hfinished hfinishes hdone
    rw [finishing, finishing, htasks, List.countP_append, hts, zero_add]
  cases stepped_of_step h with
  | enqueue f =>
      refine hquiet _ rfl rfl ?_ (finished_enqueue _ f) rfl .inl
      simpa using finishing_afterEnqueue s.reactor (s.reactor.enqueue f).1 .done []
  | onWriteDone ok hwrites =>
      refine hquiet _ rfl rfl ?_ rfl rfl .inl
      split_ifs <;> rfl
  | onReadFailed hreads =>
      rw [onReadFailed]
      split_ifs
      · exact hquiet [] rfl rfl rfl rfl rfl .inl
      · exact hquiet [] rfl rfl rfl rfl rfl .inl
      · exact hquiet [.teardownStatus] rfl rfl rfl rfl rfl .inl
      · exact hquiet [.startWrite .done] rfl rfl rfl rfl rfl .inl
  | onHeartbeat key hreads =>
      rw [onHeartbeat]
      split_ifs
      · exact hquiet [.presence []] rfl rfl rfl rfl rfl .inl
      · exact hquiet [.gate] rfl rfl rfl rfl rfl .inl
  | onCancel =>
      rw [onCancel]
      split
      · exact hquiet [] rfl rfl rfl rfl rfl .inl
      · refine hquiet _ rfl rfl ?_ rfl rfl .inl
        split <;> rfl
  | onDone hfinishes hreads =>
      refine hquiet _ rfl rfl ?_ rfl rfl (fun _ => .inr (Nat.pos_of_ne_zero hfinishes))
      split <;> rfl
  | supersede => exact hquiet [] rfl rfl rfl rfl rfl .inl
  | @run i t rest answer hpick =>
      exact finishEffect_runTask s (countP_of_pick hpick Task.isIssueFinish) answer

/-- The first thread to mark the reactor finished, and no other, calls `Finish`. -/
structure FinishInv (evs : List (RpcEvent F)) (s : Rpc F) : Prop where
  once : (finishCalls evs).length + s.finishing = if s.reactor.finished then 1 else 0
  counted : s.finishes = (finishCalls evs).length
  done : s.done = true → 0 < s.finishes

theorem finishInv_step {evs : List (RpcEvent F)} {s s' : Rpc F} {e : RpcEvent F}
    (hinv : FinishInv evs s) (heffect : FinishEffect s s' e) : FinishInv (evs ++ [e]) s' := by
  obtain ⟨honce, hcounted, hdone⟩ := hinv
  cases e with
  | finish status =>
      obtain ⟨hfinishing, hfinished, hfinishes, hsame⟩ := heffect
      have hlength : (finishCalls (evs ++ [.finish status])).length =
          (finishCalls evs).length + 1 := by
        rw [finishCalls_concat, List.length_append]
        rfl
      constructor
      case once =>
        rw [hlength, hfinished, ← honce, hfinishing]
        omega
      case counted => rw [hlength, hfinishes, hcounted]
      case done => omega
  | _ =>
      obtain ⟨hfinishes, hdone', hmarked⟩ := heffect
      constructor
      case once =>
        simp only [finishCalls_concat, finishedBy, Option.toList_none, List.append_nil]
        rcases hmarked with ⟨hcount, hfinished⟩ | ⟨hcount, hopen, hfinished⟩
        · rw [hcount, hfinished]
          exact honce
        · rw [hopen, if_neg Bool.false_ne_true] at honce
          rw [hcount, hfinished, if_pos rfl]
          omega
      case counted =>
        simp only [finishCalls_concat, finishedBy, Option.toList_none, List.append_nil]
        exact hfinishes.trans hcounted
      case done =>
        intro h
        rw [hfinishes]
        exact (hdone' h).elim hdone id

theorem finishInv_of_trace {maxFrames hwm lwm : Nat} {evs : List (RpcEvent F)} {s : Rpc F}
    (h : Trace (Steps step) (init maxFrames hwm lwm) evs s) : FinishInv evs s := by
  refine Trace.invariant (P := FinishInv)
    ⟨rfl, rfl, fun h => nomatch (h : false = true)⟩ ?_ h
  rintro evs s e s' - hinv ⟨a, -, hstep⟩
  exact finishInv_step hinv (finishEffect_of_step hstep)

theorem finished_of_done {maxFrames hwm lwm : Nat} {evs : List (RpcEvent F)} {s : Rpc F}
    (h : Trace (Steps step) (init maxFrames hwm lwm) evs s) (hdone : 0 < s.finishes) :
    s.reactor.finished = true := by
  obtain ⟨honce, hcounted, -⟩ := finishInv_of_trace h
  by_contra hopen
  rw [if_neg hopen] at honce
  omega

theorem length_finishCalls_le_one {maxFrames hwm lwm : Nat} {evs : List (RpcEvent F)}
    {s : Rpc F} (h : Trace (Steps step) (init maxFrames hwm lwm) evs s) :
    (finishCalls evs).length ≤ 1 := by
  have honce := (finishInv_of_trace h).once
  split at honce <;> omega

/-- A stream with nothing outstanding and no thread in progress has been finished. -/
theorem length_finishCalls_of_idle {maxFrames hwm lwm : Nat} {evs : List (RpcEvent F)}
    {s : Rpc F} (h : Trace (Steps step) (init maxFrames hwm lwm) evs s)
    (hreads : s.pendingReads = 0) (hwrites : s.pendingWrites = 0) (htasks : s.tasks = []) :
    (finishCalls evs).length = 1 := by
  have honce := (finishInv_of_trace h).once
  have hidle : ∀ d, ¬ s.Attends d := by
    rintro d ⟨t, ht, -⟩
    rw [htasks] at ht
    cases ht
  have hquiet : s.reactor.writing = false := by
    have houtstanding : s.issues + s.pendingWrites = if s.reactor.writing then 1 else 0 :=
      (streamInv_of_trace h).outstanding
    rw [hwrites, issues, htasks] at houtstanding
    by_contra hbusy
    rw [if_pos (by simpa using hbusy)] at houtstanding
    cases houtstanding
  have hfinished : s.reactor.finished = true := by
    by_contra hopen
    have hattended := attended_of_trace h (by simpa using hopen)
    rcases hattended.unread hreads with hpending | hread
    · rcases hattended.deferred hpending with hbusy | hne | hresume
      · rw [hquiet] at hbusy
        cases hbusy
      · rcases hattended.stranded hne with hbusy | hwrite
        · rw [hquiet] at hbusy
          cases hbusy
        · exact hidle _ hwrite
      · exact hidle _ hresume
    · exact hidle _ hread
  rw [hfinished, if_pos rfl, finishing, htasks] at honce
  exact honce

/-- `Finish` is called at most once, and it has been called whenever no read and no
write is outstanding and no thread is in progress. -/
theorem finish_once {maxFrames hwm lwm : Nat} {evs : List (RpcEvent F)} {s : Rpc F}
    (h : Trace (Steps step) (init maxFrames hwm lwm) evs s) :
    (finishCalls evs).length ≤ 1 ∧
      (s.pendingReads = 0 → s.pendingWrites = 0 → s.tasks = [] →
        (finishCalls evs).length = 1) :=
  ⟨length_finishCalls_le_one h, length_finishCalls_of_idle h⟩

def halfClosedAtOnce : List (RpcAction Nat) :=
  [.onReadDone none, .run 0 {}, .run 0 {}, .run 0 {}]

theorem isSome_exec_halfClosedAtOnce :
    (exec step (init 4 3 1) halfClosedAtOnce).isSome = true :=
  rfl

theorem finish_once_half_closed :
    ∃ evs s, exec step (init 4 3 1) halfClosedAtOnce = some (evs, s) ∧
      (finishCalls evs).length ≤ 1 ∧
      (s.pendingReads = 0 → s.pendingWrites = 0 → s.tasks = [] →
        (finishCalls evs).length = 1) := by
  obtain ⟨⟨evs, s⟩, h⟩ := Option.isSome_iff_exists.mp isSome_exec_halfClosedAtOnce
  exact ⟨evs, s, h, finish_once (trace_of_exec (fun _ _ _ => trivial) h)⟩

end Rpc

end Edriel
