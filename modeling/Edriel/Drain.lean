import Edriel.Finish

namespace Edriel

open Interleaving

universe u

variable {F : Type u}

def Task.completing : Task F → Bool
  | .startWrite .resume => true
  | .issueWrite .resume => true
  | .resume => true
  | _ => false

namespace Rpc

/-- Writes complete and threads run on; nothing new comes in. -/
def Completes (_ : Rpc F) : RpcAction F → Prop
  | .onWriteDone ok => ok = true
  | .run _ _ => True
  | _ => False

def isCompletion : RpcEvent F → Bool
  | .writeDone _ => true
  | _ => false

def completions (evs : List (RpcEvent F)) : Nat :=
  evs.countP isCompletion

theorem completions_concat (evs : List (RpcEvent F)) (e : RpcEvent F) :
    completions (evs ++ [e]) = completions evs + if isCompletion e then 1 else 0 := by
  rw [completions, List.countP_append, List.countP_singleton, completions]

/-- What holds on the way from `s₀` while only writes complete: a completion takes
one frame out of the outbox and the one in flight. -/
structure Draining (s₀ : Rpc F) (evs : List (RpcEvent F)) (s : Rpc F) : Prop where
  opened : s.reactor.finished = false ∧ s.reactor.cancelled = false ∧
    s.reactor.finishPending = false
  marks : s.reactor.hwmFrames = s₀.reactor.hwmFrames ∧
    s.reactor.lwmFrames = s₀.reactor.lwmFrames
  tasks : ∀ t ∈ s.tasks, t.completing = true
  balance : completions evs + s.reactor.outbox.length + (if s.reactor.writing then 1 else 0) =
    s₀.reactor.outbox.length + if s₀.reactor.writing then 1 else 0

theorem draining_runTask {s₀ s : Rpc F} {evs : List (RpcEvent F)} {i : Nat} {t : Task F}
    {rest : List (Task F)} (answer : Answer F) (h : Draining s₀ evs s)
    (hpick : pick i s.tasks = some (t, rest)) :
    Draining s₀ (evs ++ [(s.runTask rest answer t).1]) (s.runTask rest answer t).2 := by
  obtain ⟨⟨hfinished, hcancelled, hpending⟩, hmarks, htasks, hbalance⟩ := h
  have hcompleting := htasks t ((mem_of_pick hpick).mpr (.inl rfl))
  have hrest : ∀ t' ∈ rest, t'.completing = true := fun t' ht' =>
    htasks t' ((mem_of_pick hpick).mpr (.inr ht'))
  have hmore : ∀ {x : Task F}, x.completing = true → ∀ t' ∈ x :: rest, t'.completing = true := by
    intro x hx t' ht'
    rcases List.mem_cons.mp ht' with rfl | ht'
    · exact hx
    · exact hrest t' ht'
  cases t with
  | startWrite after =>
      cases after with
      | resume =>
          cases hw : s.reactor.startWrite with
          | none =>
              simp only [runTask, hw]
              exact ⟨⟨hfinished, hcancelled, hpending⟩, hmarks, hmore rfl,
                by rw [completions_concat]; exact hbalance⟩
          | some p =>
              obtain ⟨f, r⟩ := p
              obtain ⟨-, hidle, fs, hout, rfl⟩ := startWrite_eq_some hw
              simp only [runTask, hw]
              refine ⟨⟨hfinished, hcancelled, hpending⟩, hmarks, hmore rfl, ?_⟩
              rw [hidle, hout, List.length_cons, if_neg Bool.false_ne_true] at hbalance
              rw [completions_concat, ← hbalance]
              change completions evs + 0 + fs.length + 1 = _
              omega
      | done => cases hcompleting
      | presence fs => cases hcompleting
  | issueWrite after =>
      cases after with
      | resume =>
          exact ⟨⟨hfinished, hcancelled, hpending⟩, hmarks, hmore rfl,
            by rw [completions_concat]; exact hbalance⟩
      | done => cases hcompleting
      | presence fs => cases hcompleting
  | resume =>
      have hnow : s.reactor.finishNow = false := by
        rw [SubscriberReactor.finishNow, hpending]
        rfl
      rw [runTask, hnow]
      simp only [SubscriberReactor.resume_eq, if_neg Bool.false_ne_true]
      exact ⟨⟨hfinished, hcancelled, hpending⟩, hmarks, hrest,
        by rw [completions_concat]; exact hbalance⟩
  | _ => cases hcompleting

theorem draining_onWriteDone {s₀ s : Rpc F} {evs : List (RpcEvent F)} (h : Draining s₀ evs s)
    (hbusy : s.reactor.writing = true) :
    Draining s₀ (evs ++ [.writeDone true]) (s.onWriteDone true) := by
  obtain ⟨hopened, hmarks, htasks, hbalance⟩ := h
  refine ⟨hopened, hmarks, fun t ht => ?_, ?_⟩
  · rcases List.mem_cons.mp ht with rfl | ht
    · rfl
    · exact htasks t ht
  · rw [hbusy, if_pos rfl] at hbalance
    rw [completions_concat, ← hbalance]
    change completions evs + 1 + s.reactor.outbox.length + 0 = _
    omega

theorem writing_of_pendingWrites {maxFrames hwm lwm : Nat} {evs : List (RpcEvent F)} {s : Rpc F}
    (h : Trace (Steps step) (init maxFrames hwm lwm) evs s) (hwrites : s.pendingWrites ≠ 0) :
    s.reactor.writing = true := by
  have houtstanding : s.issues + s.pendingWrites = if s.reactor.writing then 1 else 0 :=
    (streamInv_of_trace h).outstanding
  by_contra hidle
  rw [if_neg hidle] at houtstanding
  omega

theorem draining_of_trace {maxFrames hwm lwm : Nat} {evs done : List (RpcEvent F)} {s₀ s : Rpc F}
    (h₀ : Trace (Steps step) (init maxFrames hwm lwm) evs s₀) (hidle : s₀.tasks = [])
    (hopened : s₀.reactor.finished = false ∧ s₀.reactor.cancelled = false ∧
      s₀.reactor.finishPending = false)
    (h : Trace (StepsWhere Completes step) s₀ done s) : Draining s₀ done s := by
  refine Trace.invariant (P := Draining s₀) ?_ ?_ h
  · refine ⟨hopened, ⟨rfl, rfl⟩, fun t ht => ?_, by rw [completions, List.countP_nil, zero_add]⟩
    rw [hidle] at ht
    cases ht
  · rintro done s e s' hprev hdraining ⟨a, hallowed, hstep⟩
    cases a with
    | onWriteDone ok =>
        obtain rfl : ok = true := hallowed
        rw [step] at hstep
        split at hstep
        · cases hstep
        · rename_i hwrites
          obtain ⟨rfl, rfl⟩ := Prod.mk.inj (Option.some.inj hstep)
          exact draining_onWriteDone hdraining
            (writing_of_pendingWrites (h₀.append hprev.unrestricted) hwrites)
    | run i answer =>
        obtain ⟨⟨t, rest⟩, hpick, hrun⟩ := Option.map_eq_some_iff.mp hstep
        obtain rfl : (s.runTask rest answer t).1 = e := congrArg Prod.fst hrun
        obtain rfl : (s.runTask rest answer t).2 = s' := congrArg Prod.snd hrun
        exact draining_runTask answer hdraining hpick
    | _ => exact hallowed.elim

/-- With `outbox length + 1` completions behind it a reactor at rest is empty and
sendable. -/
theorem sendable_of_draining {maxFrames hwm lwm : Nat} {evs done : List (RpcEvent F)}
    {s₀ s : Rpc F} (h₀ : Trace (Steps step) (init maxFrames hwm lwm) evs s₀)
    (hidle : s₀.tasks = [])
    (hopened : s₀.reactor.finished = false ∧ s₀.reactor.cancelled = false ∧
      s₀.reactor.finishPending = false)
    (hmarks : s₀.reactor.lwmFrames < s₀.reactor.hwmFrames)
    (h : Trace (StepsWhere Completes step) s₀ done s)
    (hdone : completions done = s₀.reactor.outbox.length + 1) (hrest : s.tasks = []) :
    s.reactor.outbox = [] ∧ s.reactor.isSendable = true := by
  obtain ⟨⟨hfinished, hcancelled, -⟩, ⟨hhwm, hlwm⟩, -, hbalance⟩ :=
    draining_of_trace h₀ hidle hopened h
  have hempty : s.reactor.outbox.length = 0 ∧ s.reactor.writing = false := by
    have hle : (if s₀.reactor.writing then 1 else 0) ≤ 1 := by split <;> omega
    rw [hdone] at hbalance
    cases hbusy : s.reactor.writing with
    | true =>
        rw [hbusy, if_pos rfl] at hbalance
        omega
    | false => exact ⟨by omega, rfl⟩
  have houtbox : s.reactor.outbox = [] := List.length_eq_zero_iff.mp hempty.1
  refine ⟨houtbox, ?_⟩
  have hlatch : s.reactor.backpressured = false := by
    by_contra hlatched
    have hattended := attended_of_trace (h₀.append h.unrestricted) hfinished
    rcases hattended.latched (by rwa [hlwm, hhwm]) (by simpa using hlatched) with
      hbusy | hhigh | ⟨t, ht, -⟩
    · rw [hempty.2] at hbusy
      cases hbusy
    · rw [hempty.1] at hhigh
      cases hhigh
    · rw [hrest] at ht
      cases ht
  rw [SubscriberReactor.isSendable, hfinished, hcancelled, hlatch, houtbox, hhwm]
  simpa using Nat.zero_lt_of_lt hmarks

theorem exists_completion {s : Rpc F} (hidle : s.tasks = []) (hwrites : s.pendingWrites ≠ 0)
    (hopened : s.reactor.finished = false ∧ s.reactor.cancelled = false ∧
      s.reactor.finishPending = false) :
    ∃ done s', Trace (StepsWhere Completes step) s done s' ∧ completions done = 1 ∧
      s'.tasks = [] ∧ (s'.reactor.finished = false ∧ s'.reactor.cancelled = false ∧
        s'.reactor.finishPending = false) ∧
      ∀ f fs, s.reactor.outbox = f :: fs → s'.reactor.outbox = fs ∧ s'.pendingWrites ≠ 0 := by
  obtain ⟨hfinished, hcancelled, hpending⟩ := hopened
  have hfirst : Trace (StepsWhere Completes step) s [.writeDone true] (s.onWriteDone true) := by
    refine .single ⟨.onWriteDone true, rfl, ?_⟩
    rw [step, if_neg hwrites]
  have htasks : (s.onWriteDone true).tasks = [.startWrite .resume] := by
    rw [onWriteDone, hidle]
    rfl
  have hnow : ∀ r : SubscriberReactor F, r.finishPending = false → r.finishNow = false := by
    intro r hr
    rw [SubscriberReactor.finishNow, hr]
    rfl
  cases hout : s.reactor.outbox with
  | nil =>
      let s₂ : Rpc F := { s.onWriteDone true with tasks := [.resume] }
      have hnone : (s.onWriteDone true).reactor.startWrite = none := by
        simp [onWriteDone, SubscriberReactor.startWrite, hout]
      have hsecond : StepsWhere Completes step (s.onWriteDone true) .internal s₂ := by
        refine ⟨.run 0 {}, trivial, ?_⟩
        simp only [step, htasks, pick_zero_cons, Option.map_some, runTask, hnone]
        rfl
      have hthird : StepsWhere Completes step s₂ (.observed s₂.reactor.outbox.length)
          { s₂ with reactor := s₂.reactor.resume, tasks := [] } := by
        refine ⟨.run 0 {}, trivial, ?_⟩
        simp only [step, s₂, pick_zero_cons, Option.map_some, runTask,
          hnow (s.onWriteDone true).reactor hpending, Bool.false_eq_true, if_false]
      refine ⟨_, _, (hfirst.snoc hsecond).snoc hthird, rfl, rfl, ?_, ?_⟩
      · rw [SubscriberReactor.resume_eq]
        exact ⟨hfinished, hcancelled, hpending⟩
      · intro f fs hcons
        cases hcons
  | cons f fs =>
      let r : SubscriberReactor F :=
        { s.reactor with writeBuffer := some f, outbox := fs, writing := true }
      let s₂ : Rpc F := { s.onWriteDone true with reactor := r, tasks := [.issueWrite .resume] }
      let s₃ : Rpc F := { s₂ with
        pendingWrites := s.pendingWrites - 1 + 1
        tasks := [.resume] }
      have hsome : (s.onWriteDone true).reactor.startWrite = some (f, r) := by
        simp [onWriteDone, SubscriberReactor.startWrite, hout, hfinished, r]
      have hsecond : StepsWhere Completes step (s.onWriteDone true) (.moved f) s₂ := by
        refine ⟨.run 0 {}, trivial, ?_⟩
        simp only [step, htasks, pick_zero_cons, Option.map_some, runTask, hsome]
        rfl
      have hthird : StepsWhere Completes step s₂ (.startWrite (some f)) s₃ := by
        refine ⟨.run 0 {}, trivial, ?_⟩
        simp only [step, s₂, pick_zero_cons, Option.map_some, runTask]
        rfl
      have hlast : StepsWhere Completes step s₃ (.observed s₃.reactor.outbox.length)
          { s₃ with reactor := s₃.reactor.resume, tasks := [] } := by
        refine ⟨.run 0 {}, trivial, ?_⟩
        simp only [step, s₃, pick_zero_cons, Option.map_some, runTask, hnow s₂.reactor hpending,
          Bool.false_eq_true, if_false]
      refine ⟨_, _, ((hfirst.snoc hsecond).snoc hthird).snoc hlast, rfl, rfl, ?_, ?_⟩
      · rw [SubscriberReactor.resume_eq]
        exact ⟨hfinished, hcancelled, hpending⟩
      · intro g gs hcons
        obtain ⟨rfl, rfl⟩ := List.cons.inj hcons
        rw [SubscriberReactor.resume_eq]
        exact ⟨rfl, Nat.succ_ne_zero _⟩

theorem exists_completions (n : Nat) {s : Rpc F} (hlength : s.reactor.outbox.length = n)
    (hidle : s.tasks = []) (hwrites : s.pendingWrites ≠ 0)
    (hopened : s.reactor.finished = false ∧ s.reactor.cancelled = false ∧
      s.reactor.finishPending = false) :
    ∃ done s', Trace (StepsWhere Completes step) s done s' ∧ completions done = n + 1 ∧
      s'.tasks = [] := by
  induction n generalizing s with
  | zero =>
      obtain ⟨done, s', h, hone, hrest, -, -⟩ := exists_completion hidle hwrites hopened
      exact ⟨done, s', h, hone, hrest⟩
  | succ n ih =>
      obtain ⟨f, fs, hout⟩ := List.exists_cons_of_length_eq_add_one hlength
      obtain ⟨done, s', h, hone, hrest, hopened', hmore⟩ :=
        exists_completion hidle hwrites hopened
      obtain ⟨hout', hwrites'⟩ := hmore f fs hout
      have hlength' : s'.reactor.outbox.length = n := by
        rw [hout']
        rw [hout, List.length_cons] at hlength
        omega
      obtain ⟨done', s'', h', hcount, hrest'⟩ := ih hlength' hrest hwrites' hopened'
      refine ⟨done ++ done', s'', h.append h', ?_, hrest'⟩
      rw [completions, List.countP_append]
      change completions done + completions done' = _
      omega

/-- No frame is stranded and no latch stuck: with no thread in progress and
`Finish` not called, a queued frame or a set latch has a write in flight; and
unless the stream is cancelled or half-closed, `outbox length + 1` completions,
which can follow one another then, leave it empty and sendable. -/
theorem no_stranded_frame {maxFrames hwm lwm : Nat} {evs : List (RpcEvent F)} {s : Rpc F}
    (h : Trace (Steps step) (init maxFrames hwm lwm) evs s)
    (hmarks : s.reactor.lwmFrames < s.reactor.hwmFrames) (hidle : s.tasks = [])
    (hopen : finishCalls evs = []) :
    (s.reactor.outbox ≠ [] ∨ s.reactor.backpressured = true → s.pendingWrites = 1) ∧
    (s.reactor.cancelled = false → s.reactor.finishPending = false →
      (∀ done s', Trace (StepsWhere Completes step) s done s' →
        completions done = s.reactor.outbox.length + 1 → s'.tasks = [] →
          s'.reactor.outbox = [] ∧ s'.reactor.isSendable = true) ∧
      (s.pendingWrites = 1 → ∃ done s', Trace (StepsWhere Completes step) s done s' ∧
        completions done = s.reactor.outbox.length + 1 ∧ s'.tasks = [])) := by
  have hfinished : s.reactor.finished = false := by
    have honce := (finishInv_of_trace h).once
    rw [hopen, finishing, hidle] at honce
    by_contra hfinished
    rw [if_pos (by simpa using hfinished)] at honce
    cases honce
  have hnobody : ∀ d, ¬ s.Attends d := by
    rintro d ⟨t, ht, -⟩
    rw [hidle] at ht
    cases ht
  have hattended := attended_of_trace h hfinished
  have hflight : s.reactor.writing = true → s.pendingWrites = 1 := by
    intro hbusy
    have houtstanding : s.issues + s.pendingWrites = if s.reactor.writing then 1 else 0 :=
      (streamInv_of_trace h).outstanding
    rw [hbusy, issues, hidle, List.countP_nil, zero_add] at houtstanding
    exact houtstanding
  have hqueued : s.reactor.outbox ≠ [] → s.pendingWrites = 1 := by
    intro hne
    rcases hattended.stranded hne with hbusy | hwrite
    · exact hflight hbusy
    · exact absurd hwrite (hnobody _)
  refine ⟨?_, fun hcancelled hpending => ⟨fun done s' hdone hcount hrest => ?_, fun hwrites => ?_⟩⟩
  · rintro (hne | hlatched)
    · exact hqueued hne
    · rcases hattended.latched hmarks hlatched with hbusy | hhigh | hresume
      · exact hflight hbusy
      · refine hqueued fun hnil => ?_
        rw [hnil] at hhigh
        cases hhigh
      · exact absurd hresume (hnobody _)
  · exact sendable_of_draining h hidle ⟨hfinished, hcancelled, hpending⟩ hmarks hdone hcount hrest
  · exact exists_completions _ rfl hidle (by omega) ⟨hfinished, hcancelled, hpending⟩

def queuedTwo : List (RpcAction Nat) :=
  [.enqueue 5, .run 0 {}, .run 0 {}, .enqueue 6, .enqueue 7]

theorem no_stranded_frame_queued_two :
    ∃ evs s, exec step (init 4 3 1) queuedTwo = some (evs, s) ∧
      (s.reactor.outbox ≠ [] ∨ s.reactor.backpressured = true → s.pendingWrites = 1) ∧
      (s.reactor.cancelled = false → s.reactor.finishPending = false →
        (∀ done s', Trace (StepsWhere Completes step) s done s' →
          completions done = s.reactor.outbox.length + 1 → s'.tasks = [] →
            s'.reactor.outbox = [] ∧ s'.reactor.isSendable = true) ∧
        (s.pendingWrites = 1 → ∃ done s', Trace (StepsWhere Completes step) s done s' ∧
          completions done = s.reactor.outbox.length + 1 ∧ s'.tasks = [])) := by
  have hrun : (exec step (init 4 3 1) queuedTwo).map (fun p => (p.2.reactor.lwmFrames,
      p.2.reactor.hwmFrames, p.2.tasks, finishCalls p.1)) = some (1, 3, [], []) := rfl
  obtain ⟨⟨evs, s⟩, h, hp⟩ := Option.map_eq_some_iff.mp hrun
  simp only [Prod.mk.injEq] at hp
  obtain ⟨hlwm, hhwm, hidle, hopen⟩ := hp
  exact ⟨evs, s, h, no_stranded_frame (trace_of_exec (fun _ _ _ => trivial) h) (by omega)
    hidle hopen⟩

end Rpc

end Edriel
