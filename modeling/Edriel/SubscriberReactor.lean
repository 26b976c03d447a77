import Edriel.Lib.Interleaving
import Edriel.Identity

/-!
One subscriber's stream on the publisher's server.  Every method of the reactor
runs as a thread of lock sections; threads interleave between sections in any
order, and the calls into gRPC stand outside the lock.
-/

namespace Edriel

open Interleaving

universe u

inductive OutboxStatus where
  | accepted
  | backpressured
  | notConnected
deriving DecidableEq

inductive StatusCode where
  | ok
  | cancelled
  | permissionDenied
deriving DecidableEq

structure Status where
  code : StatusCode
  message : String
deriving DecidableEq

/-- The reactor's members behind `m_`.  `writeBuffer` is empty until the first
write. -/
structure SubscriberReactor (F : Type u) where
  outboxMaxFrames : Nat
  hwmFrames : Nat
  lwmFrames : Nat
  initialised : Bool := false
  key : SubscriberKey := ⟨0, 0, 0⟩
  finished : Bool := false
  cancelled : Bool := false
  outbox : List F := []
  writeBuffer : Option F := none
  writing : Bool := false
  finishPending : Bool := false
  backpressured : Bool := false

namespace SubscriberReactor

variable {F : Type u}

/-- The high-water mark is at least one frame and inside the bound. -/
def clampHwm (maxFrames hwm : Nat) : Nat :=
  if maxFrames ≤ max hwm 1 then (maxFrames + (2 ^ 64 - 1)) % 2 ^ 64 else max hwm 1

/-- The low-water mark is below the high-water mark. -/
def clampLwm (hwm lwm : Nat) : Nat :=
  if hwm ≤ lwm then hwm / 2 else lwm

/-- The constructor; `hwm` and `lwm` are the products of the configured fractions
with the bound, rounded toward zero. -/
def new (maxFrames hwm lwm : Nat) : SubscriberReactor F :=
  { outboxMaxFrames := maxFrames
    hwmFrames := clampHwm maxFrames hwm
    lwmFrames := clampLwm (clampHwm maxFrames hwm) lwm }

def enqueue (r : SubscriberReactor F) (frame : F) : OutboxStatus × SubscriberReactor F :=
  if r.finished || r.cancelled then (.notConnected, r)
  else if r.backpressured || decide (r.hwmFrames ≤ r.outbox.length) then
    (.backpressured, { r with backpressured := true })
  else (.accepted, { r with outbox := r.outbox ++ [frame] })

def isSendable (r : SubscriberReactor F) : Bool :=
  !r.finished && !r.cancelled && !r.backpressured &&
    decide (r.outbox.length < r.hwmFrames)

def isLive (r : SubscriberReactor F) : Bool :=
  !r.finished && !r.cancelled

def outboxDepth (r : SubscriberReactor F) : Nat :=
  r.outbox.length

def startWrite (r : SubscriberReactor F) : Option (F × SubscriberReactor F) :=
  if r.finished || r.writing then none
  else
    match r.outbox with
    | [] => none
    | f :: fs => some (f, { r with writeBuffer := some f, outbox := fs, writing := true })

/-- The second lock section of `OnWriteDone`: the latch is cleared at the
low-water mark. -/
def resume (r : SubscriberReactor F) : SubscriberReactor F :=
  if r.backpressured && decide (r.outbox.length ≤ r.lwmFrames) then
    { r with backpressured := false }
  else r

/-- Whether the drain is over and a half-closed stream can be finished. -/
def finishNow (r : SubscriberReactor F) : Bool :=
  r.finishPending && !r.writing && r.outbox.isEmpty

def teardownStatus (r : SubscriberReactor F) : Status :=
  if r.cancelled then ⟨.cancelled, "client tore down"⟩ else ⟨.ok, ""⟩

end SubscriberReactor

inductive After (F : Type u) where
  | done
  | resume
  | presence (rest : List F)

/-- The program points of the reactor's threads, each in front of a lock section
or of a call out of the reactor. -/
inductive Task (F : Type u) where
  | startWrite (after : After F)
  | issueWrite (after : After F)
  | resume
  | gate
  | register
  | snapshot
  | presence (frames : List F)
  | teardownStatus
  | finish (status : Status)
  | issueFinish (status : Status)
  | unregister

def After.tasks {F : Type u} : After F → List (Task F)
  | .done => []
  | .resume => [.resume]
  | .presence rest => [.presence rest]

def Task.isIssueWrite {F : Type u} : Task F → Bool
  | .issueWrite _ => true
  | _ => false

def After.frames {F : Type u} : After F → List F
  | .presence rest => rest
  | _ => []

def Task.frames {F : Type u} : Task F → List F
  | .startWrite after => after.frames
  | .issueWrite after => after.frames
  | .presence fs => fs
  | _ => []

inductive RpcEvent (F : Type u) where
  | enqueued (frame : F) (status : OutboxStatus)
  | moved (frame : F)
  | startWrite (frame : Option F)
  | writeDone (ok : Bool)
  | observed (depth : Nat)
  | startRead
  | register (key : SubscriberKey)
  | unregister (key : SubscriberKey)
  | finish (status : Status)
  | superseded
  | internal

/-- What the rest of the node answers a thread: whether the dialer is a known
participant, and the presence frames of the registry. -/
structure Answer (F : Type u) where
  known : Bool := true
  presence : List F := []

/-- A call of the reactor from outside, or the next section of its thread `i`. -/
inductive RpcAction (F : Type u) where
  | enqueue (frame : F)
  | onWriteDone (ok : Bool)
  | onReadDone (heartbeat : Option SubscriberKey)
  | onCancel
  | onDone
  | supersede
  | run (i : Nat) (answer : Answer F)

/-- A reactor with its threads and what gRPC still owes it: an `OnWriteDone` for
each `StartWrite`, an `OnReadDone` for each `StartRead`, and one `OnDone` after
`Finish`. -/
structure Rpc (F : Type u) where
  reactor : SubscriberReactor F
  tasks : List (Task F) := []
  pendingWrites : Nat := 0
  pendingReads : Nat := 1
  finishes : Nat := 0
  done : Bool := false

namespace Rpc

variable {F : Type u}

/-- The constructor ends with `StartRead`. -/
def init (maxFrames hwm lwm : Nat) : Rpc F :=
  { reactor := .new maxFrames hwm lwm }

/-- After an accepted frame the caller starts a write unless one is in flight. -/
def afterEnqueue (r : SubscriberReactor F) (status : OutboxStatus) (after : After F) :
    List (Task F) :=
  if status = .accepted ∧ r.writing = false then [.startWrite after] else after.tasks

/-- A section of a thread that has left the pool `rest`. -/
def runTask (s : Rpc F) (rest : List (Task F)) (answer : Answer F) :
    Task F → RpcEvent F × Rpc F
  | .startWrite after =>
      match s.reactor.startWrite with
      | none => (.internal, { s with tasks := after.tasks ++ rest })
      | some (f, r) => (.moved f, { s with reactor := r, tasks := .issueWrite after :: rest })
  | .issueWrite after =>
      (.startWrite s.reactor.writeBuffer,
        { s with pendingWrites := s.pendingWrites + 1, tasks := after.tasks ++ rest })
  | .resume =>
      (.observed s.reactor.outbox.length,
        { s with
          reactor := s.reactor.resume
          tasks := if s.reactor.finishNow then .teardownStatus :: rest else rest })
  | .gate =>
      (.internal,
        { s with
          tasks :=
            if answer.known then .register :: rest
            else .finish ⟨.permissionDenied, "unknown dialer: not a known participant"⟩ ::
              rest })
  | .register => (.register s.reactor.key, { s with tasks := .snapshot :: rest })
  | .snapshot => (.internal, { s with tasks := .presence answer.presence :: rest })
  | .presence [] =>
      (.startRead, { s with pendingReads := s.pendingReads + 1, tasks := rest })
  | .presence (f :: fs) =>
      (.enqueued f (s.reactor.enqueue f).1,
        { s with
          reactor := (s.reactor.enqueue f).2
          tasks := afterEnqueue s.reactor (s.reactor.enqueue f).1 (.presence fs) ++ rest })
  | .teardownStatus =>
      (.internal, { s with tasks := .finish s.reactor.teardownStatus :: rest })
  | .finish status =>
      if s.reactor.finished then (.internal, { s with tasks := rest })
      else (.internal,
        { s with
          reactor := { s.reactor with finished := true }
          tasks := .issueFinish status :: rest })
  | .issueFinish status =>
      (.finish status, { s with finishes := s.finishes + 1, tasks := rest })
  | .unregister => (.unregister s.reactor.key, { s with tasks := rest })

/-- `OnWriteDone` up to the end of its first lock section. -/
def onWriteDone (s : Rpc F) (ok : Bool) : Rpc F :=
  { s with
    reactor := { s.reactor with writing := false }
    pendingWrites := s.pendingWrites - 1
    tasks :=
      (if ok then [.startWrite .resume]
        else if s.reactor.finished then []
        else [.finish ⟨.cancelled, "stream broken"⟩]) ++ s.tasks }

/-- `OnReadDone(false)` up to the end of its lock section: finish at once, or
drain what is queued first. -/
def onReadFailed (s : Rpc F) : Rpc F :=
  if s.reactor.finished then { s with pendingReads := s.pendingReads - 1 }
  else if s.reactor.writing then
    { s with
      reactor := { s.reactor with finishPending := true }
      pendingReads := s.pendingReads - 1 }
  else if s.reactor.outbox.isEmpty then
    { s with pendingReads := s.pendingReads - 1, tasks := .teardownStatus :: s.tasks }
  else
    { s with
      reactor := { s.reactor with finishPending := true }
      pendingReads := s.pendingReads - 1
      tasks := .startWrite .done :: s.tasks }

/-- `OnReadDone(true)`: the first heartbeat names the dialer. -/
def onHeartbeat (s : Rpc F) (key : SubscriberKey) : Rpc F :=
  if s.reactor.initialised then
    { s with pendingReads := s.pendingReads - 1, tasks := .presence [] :: s.tasks }
  else
    { s with
      reactor := { s.reactor with initialised := true, key }
      pendingReads := s.pendingReads - 1
      tasks := .gate :: s.tasks }

def onCancel (s : Rpc F) : Rpc F :=
  if s.reactor.finished then s
  else
    { s with
      reactor := { s.reactor with cancelled := true }
      tasks := (if s.reactor.initialised then [.unregister] else []) ++ s.tasks }

def onDone (s : Rpc F) : Rpc F :=
  { s with
    done := true
    tasks := (if s.reactor.initialised then [.unregister] else []) ++ s.tasks }

def enqueue (s : Rpc F) (f : F) : Rpc F :=
  { s with
    reactor := (s.reactor.enqueue f).2
    tasks := afterEnqueue s.reactor (s.reactor.enqueue f).1 .done ++ s.tasks }

def supersede (s : Rpc F) : Rpc F :=
  { s with reactor := { s.reactor with cancelled := true } }

def step (s : Rpc F) : RpcAction F → Option (RpcEvent F × Rpc F)
  | .enqueue f => some (.enqueued f (s.reactor.enqueue f).1, s.enqueue f)
  | .onWriteDone ok =>
      if s.pendingWrites = 0 then none else some (.writeDone ok, s.onWriteDone ok)
  | .onReadDone none =>
      if s.pendingReads = 0 then none else some (.internal, s.onReadFailed)
  | .onReadDone (some key) =>
      if s.pendingReads = 0 then none else some (.internal, s.onHeartbeat key)
  | .onCancel => some (.internal, s.onCancel)
  | .onDone =>
      if s.finishes = 0 || s.done || s.pendingWrites != 0 || s.pendingReads != 0 then none
      else some (.internal, s.onDone)
  | .supersede => some (.superseded, s.supersede)
  | .run i answer => (pick i s.tasks).map fun p => s.runTask p.2 answer p.1

inductive Stepped (s : Rpc F) : RpcAction F → RpcEvent F → Rpc F → Prop
  | enqueue (f : F) :
      Stepped s (.enqueue f) (.enqueued f (s.reactor.enqueue f).1) (s.enqueue f)
  | onWriteDone (ok : Bool) (hwrites : s.pendingWrites ≠ 0) :
      Stepped s (.onWriteDone ok) (.writeDone ok) (s.onWriteDone ok)
  | onReadFailed (hreads : s.pendingReads ≠ 0) :
      Stepped s (.onReadDone none) .internal s.onReadFailed
  | onHeartbeat (key : SubscriberKey) (hreads : s.pendingReads ≠ 0) :
      Stepped s (.onReadDone (some key)) .internal (s.onHeartbeat key)
  | onCancel : Stepped s .onCancel .internal s.onCancel
  | onDone (hfinishes : s.finishes ≠ 0) (hreads : s.pendingReads = 0) :
      Stepped s .onDone .internal s.onDone
  | supersede : Stepped s .supersede .superseded s.supersede
  | run {i : Nat} {t : Task F} {rest : List (Task F)} (answer : Answer F)
      (hpick : pick i s.tasks = some (t, rest)) :
      Stepped s (.run i answer) (s.runTask rest answer t).1 (s.runTask rest answer t).2

theorem stepped_of_step {s s' : Rpc F} {a : RpcAction F} {e : RpcEvent F}
    (h : s.step a = some (e, s')) : Stepped s a e s' := by
  cases a with
  | enqueue f =>
      obtain ⟨rfl, rfl⟩ := Prod.mk.inj (Option.some.inj h)
      exact .enqueue f
  | onWriteDone ok =>
      rw [step] at h
      split at h
      · cases h
      · obtain ⟨rfl, rfl⟩ := Prod.mk.inj (Option.some.inj h)
        exact .onWriteDone ok ‹_›
  | onReadDone heartbeat =>
      cases heartbeat with
      | none =>
          rw [step] at h
          split at h
          · cases h
          · obtain ⟨rfl, rfl⟩ := Prod.mk.inj (Option.some.inj h)
            exact .onReadFailed ‹_›
      | some key =>
          rw [step] at h
          split at h
          · cases h
          · obtain ⟨rfl, rfl⟩ := Prod.mk.inj (Option.some.inj h)
            exact .onHeartbeat key ‹_›
  | onCancel =>
      obtain ⟨rfl, rfl⟩ := Prod.mk.inj (Option.some.inj h)
      exact .onCancel
  | onDone =>
      rw [step] at h
      split at h
      · cases h
      · rename_i hallowed
        obtain ⟨rfl, rfl⟩ := Prod.mk.inj (Option.some.inj h)
        simp only [Bool.or_eq_true, decide_eq_true_eq, bne_iff_ne, not_or, not_not] at hallowed
        exact .onDone hallowed.1.1.1 hallowed.2
  | supersede =>
      obtain ⟨rfl, rfl⟩ := Prod.mk.inj (Option.some.inj h)
      exact .supersede
  | run i answer =>
      obtain ⟨⟨t, rest⟩, hpick, hrun⟩ := Option.map_eq_some_iff.mp h
      obtain rfl : (s.runTask rest answer t).1 = e := congrArg Prod.fst hrun
      obtain rfl : (s.runTask rest answer t).2 = s' := congrArg Prod.snd hrun
      exact .run answer hpick

def issues (s : Rpc F) : Nat :=
  s.tasks.countP Task.isIssueWrite

/-- The write side of a reactor: all that the invariants of the stream read. -/
structure WriteSide (F : Type u) where
  outbox : List F
  writeBuffer : Option F
  writing : Bool
  backpressured : Bool
  issues : Nat
  pendingWrites : Nat
  hwmFrames : Nat
  lwmFrames : Nat

def writeSide (s : Rpc F) : WriteSide F :=
  { outbox := s.reactor.outbox
    writeBuffer := s.reactor.writeBuffer
    writing := s.reactor.writing
    backpressured := s.reactor.backpressured
    issues := s.issues
    pendingWrites := s.pendingWrites
    hwmFrames := s.reactor.hwmFrames
    lwmFrames := s.reactor.lwmFrames }

def Effect (s s' : Rpc F) : RpcEvent F → Prop
  | .enqueued f status =>
      status = (s.reactor.enqueue f).1 ∧
        s'.writeSide = { s.writeSide with
          outbox := (s.reactor.enqueue f).2.outbox
          backpressured := (s.reactor.enqueue f).2.backpressured }
  | .moved f =>
      s.reactor.writing = false ∧ ∃ fs, s.reactor.outbox = f :: fs ∧
        s'.writeSide = { s.writeSide with
          outbox := fs, writeBuffer := some f, writing := true, issues := s.issues + 1 }
  | .startWrite frame =>
      frame = s.reactor.writeBuffer ∧ ∃ k, s.issues = k + 1 ∧
        s'.writeSide = { s.writeSide with
          issues := k, pendingWrites := s.pendingWrites + 1 }
  | .writeDone _ =>
      ∃ k, s.pendingWrites = k + 1 ∧
        s'.writeSide = { s.writeSide with writing := false, pendingWrites := k }
  | .observed depth =>
      depth = s.reactor.outbox.length ∧
        s'.writeSide = { s.writeSide with
          backpressured := s.reactor.backpressured && decide (s.reactor.lwmFrames < depth) }
  | _ => s'.writeSide = s.writeSide

theorem enqueue_frame (r : SubscriberReactor F) (f : F) :
    (r.enqueue f).2 = { r with
      outbox := (r.enqueue f).2.outbox
      backpressured := (r.enqueue f).2.backpressured } := by
  rw [SubscriberReactor.enqueue]
  split
  · rfl
  · split <;> rfl

theorem startWrite_eq_some {r r' : SubscriberReactor F} {f : F}
    (h : r.startWrite = some (f, r')) :
    r.finished = false ∧ r.writing = false ∧ ∃ fs, r.outbox = f :: fs ∧
      r' = { r with writeBuffer := some f, outbox := fs, writing := true } := by
  rw [SubscriberReactor.startWrite] at h
  split at h
  · cases h
  · rename_i hidle
    split at h
    · cases h
    · rename_i g fs hout
      obtain ⟨rfl, rfl⟩ : g = f ∧ _ = r' := by simpa using h
      simp only [Bool.or_eq_true, not_or, Bool.not_eq_true] at hidle
      exact ⟨hidle.1, hidle.2, fs, hout, rfl⟩

theorem countP_after (after : After F) (rest : List (Task F)) :
    (after.tasks ++ rest).countP Task.isIssueWrite = rest.countP Task.isIssueWrite := by
  cases after <;> simp [After.tasks, Task.isIssueWrite]

theorem countP_afterEnqueue (r : SubscriberReactor F) (status : OutboxStatus)
    (after : After F) (rest : List (Task F)) :
    (afterEnqueue r status after ++ rest).countP Task.isIssueWrite =
      rest.countP Task.isIssueWrite := by
  rw [afterEnqueue]
  split
  · simp [Task.isIssueWrite]
  · exact countP_after after rest

theorem writeSide_enqueue (s : Rpc F) (f : F) (tasks : List (Task F))
    (hcount : tasks.countP Task.isIssueWrite = s.issues) :
    ({ s with reactor := (s.reactor.enqueue f).2, tasks } : Rpc F).writeSide =
      { s.writeSide with
        outbox := (s.reactor.enqueue f).2.outbox
        backpressured := (s.reactor.enqueue f).2.backpressured } := by
  rw [writeSide, issues, hcount, enqueue_frame]
  rfl

theorem countP_cons_other {t : Task F} (ht : t.isIssueWrite = false)
    (rest : List (Task F)) :
    (t :: rest).countP Task.isIssueWrite = rest.countP Task.isIssueWrite :=
  List.countP_cons_of_neg (by rw [ht]; exact Bool.false_ne_true)

theorem countP_cons_issueWrite (after : After F) (rest : List (Task F)) :
    (.issueWrite after :: rest).countP Task.isIssueWrite =
      rest.countP Task.isIssueWrite + 1 :=
  List.countP_cons_of_pos rfl

theorem writeSide_tasks (s : Rpc F) {tasks : List (Task F)}
    (htasks : tasks.countP Task.isIssueWrite = s.issues) :
    ({ s with tasks } : Rpc F).writeSide = s.writeSide := by
  rw [writeSide, issues, htasks]
  rfl

theorem effect_runTask (s : Rpc F) {t : Task F} {rest : List (Task F)}
    (hcount : s.issues = rest.countP Task.isIssueWrite + if t.isIssueWrite then 1 else 0)
    (answer : Answer F) : Effect s (s.runTask rest answer t).2 (s.runTask rest answer t).1 := by
  cases t with
  | startWrite after =>
      have hrest : rest.countP Task.isIssueWrite = s.issues := hcount.symm
      cases hw : s.reactor.startWrite with
      | none =>
          simp only [runTask, hw]
          exact writeSide_tasks s (by rw [countP_after, hrest])
      | some p =>
          obtain ⟨f, r⟩ := p
          obtain ⟨-, hidle, fs, hout, rfl⟩ := startWrite_eq_some hw
          simp only [runTask, hw]
          refine ⟨hidle, fs, hout, ?_⟩
          rw [writeSide, issues, countP_cons_issueWrite, hrest]
          rfl
  | issueWrite after =>
      have hrest : s.issues = rest.countP Task.isIssueWrite + 1 := hcount
      refine ⟨rfl, _, hrest, ?_⟩
      rw [runTask, writeSide, issues, countP_after]
      rfl
  | resume =>
      have hrest : rest.countP Task.isIssueWrite = s.issues := hcount.symm
      have htasks : (if s.reactor.finishNow then .teardownStatus :: rest else rest).countP
          Task.isIssueWrite = s.issues := by
        split
        · rw [countP_cons_other rfl, hrest]
        · exact hrest
      refine ⟨rfl, ?_⟩
      rw [runTask, writeSide, issues, htasks, SubscriberReactor.resume]
      split
      · rename_i hlow
        obtain ⟨-, hlow⟩ := Bool.and_eq_true_iff.mp hlow
        have hlow : ¬ s.reactor.lwmFrames < s.reactor.outbox.length :=
          Nat.not_lt.mpr (of_decide_eq_true hlow)
        simp [writeSide, hlow]
      · rename_i hhigh
        have hkeep : (s.reactor.backpressured &&
            decide (s.reactor.lwmFrames < s.reactor.outbox.length)) =
              s.reactor.backpressured := by
          cases hlatch : s.reactor.backpressured with
          | false => rfl
          | true => simpa [hlatch] using hhigh
        rw [hkeep]
        rfl
  | gate =>
      refine writeSide_tasks s ?_
      split
      · exact (countP_cons_other rfl rest).trans hcount.symm
      · exact (countP_cons_other rfl rest).trans hcount.symm
  | register => exact writeSide_tasks s ((countP_cons_other rfl rest).trans hcount.symm)
  | snapshot => exact writeSide_tasks s ((countP_cons_other rfl rest).trans hcount.symm)
  | presence frames =>
      have hrest : rest.countP Task.isIssueWrite = s.issues := hcount.symm
      cases frames with
      | nil => exact writeSide_tasks s hrest
      | cons f fs =>
          exact ⟨rfl, writeSide_enqueue s f _ (by rw [countP_afterEnqueue, hrest])⟩
  | teardownStatus =>
      exact writeSide_tasks s ((countP_cons_other rfl rest).trans hcount.symm)
  | finish status =>
      have hrest : rest.countP Task.isIssueWrite = s.issues := hcount.symm
      rw [runTask]
      split
      · exact writeSide_tasks s hrest
      · change WriteSide.mk _ _ _ _ _ _ _ _ = s.writeSide
        rw [issues, countP_cons_other rfl, hrest]
        rfl
  | issueFinish status => exact writeSide_tasks s hcount.symm
  | unregister => exact writeSide_tasks s hcount.symm

/-- A step does to the write side what its event says. -/
theorem effect_of_step {s s' : Rpc F} {a : RpcAction F} {e : RpcEvent F}
    (h : s.step a = some (e, s')) : Effect s s' e := by
  cases stepped_of_step h with
  | enqueue f => exact ⟨rfl, writeSide_enqueue s f _ (countP_afterEnqueue _ _ _ _)⟩
  | onWriteDone ok hwrites =>
      refine ⟨s.pendingWrites - 1, by omega, ?_⟩
      have htasks : (s.onWriteDone ok).tasks.countP Task.isIssueWrite = s.issues := by
        rw [onWriteDone, issues, List.countP_append]
        split_ifs <;> simp [Task.isIssueWrite]
      rw [writeSide, issues, htasks]
      rfl
  | onReadFailed hreads =>
      change s.onReadFailed.writeSide = s.writeSide
      rw [onReadFailed]
      split_ifs <;> simp [writeSide, issues, Task.isIssueWrite]
  | onHeartbeat key hreads =>
      change (s.onHeartbeat key).writeSide = s.writeSide
      rw [onHeartbeat]
      split_ifs <;> simp [writeSide, issues, Task.isIssueWrite]
  | onCancel =>
      change s.onCancel.writeSide = s.writeSide
      rw [onCancel]
      split
      · rfl
      · simp only [writeSide, issues, List.countP_append]
        split <;> simp [Task.isIssueWrite]
  | onDone hfinishes hreads =>
      change s.onDone.writeSide = s.writeSide
      simp only [writeSide, issues, onDone, List.countP_append]
      split <;> simp [Task.isIssueWrite]
  | supersede => rfl
  | @run i t rest answer hpick =>
      exact effect_runTask s (countP_of_pick hpick Task.isIssueWrite) answer

def pendingFrames (s : Rpc F) : List F :=
  s.tasks.flatMap Task.frames

theorem flatMap_frames_after (after : After F) (rest : List (Task F)) :
    (after.tasks ++ rest).flatMap Task.frames = after.frames ++ rest.flatMap Task.frames := by
  cases after <;> simp [After.tasks, After.frames, Task.frames]

theorem flatMap_frames_afterEnqueue (r : SubscriberReactor F) (status : OutboxStatus)
    (after : After F) (rest : List (Task F)) :
    (afterEnqueue r status after ++ rest).flatMap Task.frames =
      after.frames ++ rest.flatMap Task.frames := by
  rw [afterEnqueue]
  split
  · rfl
  · exact flatMap_frames_after after rest

theorem mem_pendingFrames_runTask (s : Rpc F) (rest : List (Task F)) (answer : Answer F)
    (t : Task F) {f : F} (hf : f ∈ (s.runTask rest answer t).2.pendingFrames) :
    f ∈ t.frames ++ rest.flatMap Task.frames ∨ f ∈ answer.presence := by
  cases t with
  | startWrite after =>
      rw [runTask] at hf
      split at hf
      · exact .inl (by rwa [pendingFrames, flatMap_frames_after] at hf)
      · exact .inl hf
  | issueWrite after => exact .inl (by rwa [pendingFrames, runTask, flatMap_frames_after] at hf)
  | snapshot =>
      have hf : f ∈ answer.presence ++ rest.flatMap Task.frames := hf
      rw [List.mem_append] at hf ⊢
      tauto
  | presence frames =>
      cases frames with
      | nil => exact .inl hf
      | cons g gs =>
          rw [pendingFrames, runTask, flatMap_frames_afterEnqueue] at hf
          exact .inl (List.mem_cons_of_mem g hf)
  | resume =>
      rw [runTask, pendingFrames] at hf
      dsimp only at hf
      split at hf <;> exact .inl hf
  | gate =>
      rw [runTask, pendingFrames] at hf
      dsimp only at hf
      split at hf <;> exact .inl hf
  | finish status =>
      rw [runTask] at hf
      split at hf <;> exact .inl hf
  | _ => exact .inl hf

theorem enqueued_runTask (s : Rpc F) (rest : List (Task F)) (answer : Answer F)
    (t : Task F) {f : F} {status : OutboxStatus}
    (h : (s.runTask rest answer t).1 = .enqueued f status) : f ∈ t.frames := by
  cases t with
  | presence frames =>
      cases frames with
      | nil => cases h
      | cons g gs =>
          obtain ⟨rfl, -⟩ := RpcEvent.enqueued.inj h
          exact List.mem_cons_self
  | startWrite after =>
      rw [runTask] at h
      split at h <;> cases h
  | finish status =>
      rw [runTask] at h
      split at h <;> cases h
  | _ => cases h

/-- What every pending frame satisfies stays so while the answers satisfy it, and
then every frame that is not enqueued from outside satisfies it. -/
theorem pendingFrames_of_step {P : F → Prop} {s s' : Rpc F} {a : RpcAction F}
    {e : RpcEvent F} (h : s.step a = some (e, s')) (hpending : ∀ f ∈ s.pendingFrames, P f)
    (hanswer : ∀ i answer, a = .run i answer → ∀ f ∈ answer.presence, P f) :
    (∀ f ∈ s'.pendingFrames, P f) ∧
      ∀ f status, e = .enqueued f status → a = .enqueue f ∨ P f := by
  -- a call from outside puts no frames into the pool
  have hquiet : ∀ tasks, (∀ t ∈ tasks, t.frames = []) →
      ∀ f ∈ (tasks ++ s.tasks).flatMap Task.frames, P f := by
    intro tasks hnone f hf
    rw [List.flatMap_append, List.flatMap_eq_nil_iff.mpr hnone] at hf
    exact hpending f hf
  cases stepped_of_step h with
  | enqueue g =>
      refine ⟨?_, fun f status he => .inl ?_⟩
      · intro f hf
        rw [pendingFrames, enqueue, flatMap_frames_afterEnqueue] at hf
        exact hpending f hf
      · rw [(RpcEvent.enqueued.inj he).1]
  | onWriteDone ok hwrites =>
      refine ⟨hquiet _ ?_, nofun⟩
      split_ifs <;> simp [Task.frames, After.frames]
  | onReadFailed hreads =>
      refine ⟨?_, nofun⟩
      rw [onReadFailed]
      split_ifs
      · exact hpending
      · exact hpending
      · exact hquiet [.teardownStatus] (by simp [Task.frames])
      · exact hquiet [.startWrite .done] (by simp [Task.frames, After.frames])
  | onHeartbeat key hreads =>
      refine ⟨?_, nofun⟩
      rw [onHeartbeat]
      split_ifs
      · exact hquiet [.presence []] (by simp [Task.frames])
      · exact hquiet [.gate] (by simp [Task.frames])
  | onCancel =>
      refine ⟨?_, nofun⟩
      rw [onCancel]
      split
      · exact hpending
      · refine hquiet _ ?_
        split <;> simp [Task.frames]
  | onDone hfinishes hreads =>
      refine ⟨hquiet _ ?_, nofun⟩
      split <;> simp [Task.frames]
  | supersede => exact ⟨hpending, nofun⟩
  | @run i t rest answer hpick =>
      have hall : ∀ f ∈ t.frames ++ rest.flatMap Task.frames, P f := by
        intro f hf
        refine hpending f ?_
        rw [pendingFrames, (perm_of_pick hpick).flatMap_right _ |>.mem_iff]
        exact hf
      refine ⟨fun f hf => ?_, fun f status he => .inr ?_⟩
      · rcases mem_pendingFrames_runTask s rest answer t hf with hf | hf
        · exact hall f hf
        · exact hanswer i answer rfl f hf
      · exact hall f (List.mem_append_left _ (enqueued_runTask s rest answer t he))

end Rpc

end Edriel
