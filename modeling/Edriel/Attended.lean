import Edriel.Outbox

namespace Edriel

open Interleaving

universe u

variable {F : Type u}

/-- What a thread may still have to do for the others: look for a frame to write,
look at the latch and the deferred finish, or read on. -/
inductive Duty where
  | write
  | resume
  | read

/-- A thread that has decided to finish relieves all others. -/
def Task.does : Task F → Duty → Bool
  | .teardownStatus, _ => true
  | .finish _, _ => true
  | .startWrite _, .write => true
  | .startWrite .resume, .resume => true
  | .issueWrite .resume, .resume => true
  | .resume, .resume => true
  | .gate, .read => true
  | .register, .read => true
  | .snapshot, .read => true
  | .presence _, .read => true
  | .startWrite (.presence _), .read => true
  | .issueWrite (.presence _), .read => true
  | _, _ => false

theorem SubscriberReactor.resume_eq (r : SubscriberReactor F) :
    r.resume = { r with
      backpressured := r.backpressured && decide (r.lwmFrames < r.outbox.length) } := by
  rw [resume]
  by_cases hhigh : r.lwmFrames < r.outbox.length
  · rw [if_neg (by simp [hhigh])]
    simp [hhigh]
  · have hlow : r.outbox.length ≤ r.lwmFrames := Nat.not_lt.mp hhigh
    cases hlatch : r.backpressured <;> simp [hlow, hhigh]
    rw [← hlatch]

namespace Rpc

def Attends (s : Rpc F) (d : Duty) : Prop :=
  ∃ t ∈ s.tasks, t.does d = true

/-- What holds of a reactor until it is finished. -/
structure Attended (s : Rpc F) : Prop where
  stranded : s.reactor.outbox ≠ [] → s.reactor.writing = true ∨ s.Attends .write
  latched : s.reactor.lwmFrames < s.reactor.hwmFrames → s.reactor.backpressured = true →
    s.reactor.writing = true ∨ s.reactor.lwmFrames < s.reactor.outbox.length ∨
      s.Attends .resume
  deferred : s.reactor.finishPending = true → s.reactor.writing = true ∨
    s.reactor.outbox ≠ [] ∨ s.Attends .resume
  unread : s.pendingReads = 0 → s.reactor.finishPending = true ∨ s.Attends .read

theorem attends_append {s s' : Rpc F} {d : Duty} (ts : List (Task F))
    (htasks : s'.tasks = ts ++ s.tasks) (h : s.Attends d) : s'.Attends d := by
  obtain ⟨t, ht, hdoes⟩ := h
  exact ⟨t, by rw [htasks]; exact List.mem_append_right _ ht, hdoes⟩

theorem attends_of_mem {s : Rpc F} {d : Duty} {t : Task F} (ht : t ∈ s.tasks)
    (hdoes : t.does d = true) : s.Attends d :=
  ⟨t, ht, hdoes⟩

theorem attends_of_pick {s s' : Rpc F} {i : Nat} {t : Task F} {rest : List (Task F)}
    {d : Duty} (hpick : pick i s.tasks = some (t, rest)) (ts : List (Task F))
    (htasks : s'.tasks = ts ++ rest) (hcarry : t.does d = true → ∃ t' ∈ ts, t'.does d = true)
    (h : s.Attends d) : s'.Attends d := by
  obtain ⟨x, hx, hdoes⟩ := h
  rw [Attends, htasks]
  rcases (mem_of_pick hpick).mp hx with rfl | hx
  · obtain ⟨t', ht', hdoes'⟩ := hcarry hdoes
    exact ⟨t', List.mem_append_left _ ht', hdoes'⟩
  · exact ⟨x, List.mem_append_right _ hx, hdoes⟩

theorem Attended.quiet {s s' : Rpc F} (h : s.Attended)
    (hpool : ∀ d, s.Attends d → s'.Attends d)
    (houtbox : s'.reactor.outbox = s.reactor.outbox)
    (hwriting : s'.reactor.writing = s.reactor.writing)
    (hlatch : s'.reactor.backpressured = s.reactor.backpressured)
    (hlwm : s'.reactor.lwmFrames = s.reactor.lwmFrames)
    (hhwm : s'.reactor.hwmFrames = s.reactor.hwmFrames)
    (hpending : s'.reactor.finishPending = s.reactor.finishPending)
    (hreads : s'.pendingReads = 0 → s.pendingReads = 0 ∨ s'.Attends .read) : s'.Attended := by
  constructor
  case stranded =>
    rw [houtbox, hwriting]
    exact fun hne => (h.stranded hne).imp_right (hpool _)
  case latched =>
    rw [hlatch, houtbox, hwriting, hlwm, hhwm]
    exact fun hmarks hlatched =>
      (h.latched hmarks hlatched).imp_right (Or.imp_right (hpool _))
  case deferred =>
    rw [hpending, houtbox, hwriting]
    exact fun hdeferred => (h.deferred hdeferred).imp_right (Or.imp_right (hpool _))
  case unread =>
    intro hzero
    rw [hpending]
    rcases hreads hzero with hnone | hread
    · exact (h.unread hnone).imp_right (hpool _)
    · exact .inr hread

theorem enqueue_cases (r : SubscriberReactor F) (f : F) :
    r.enqueue f = (.notConnected, r) ∨
    (r.enqueue f = (.backpressured, { r with backpressured := true }) ∧
      (r.backpressured = true ∨ r.hwmFrames ≤ r.outbox.length)) ∨
    r.enqueue f = (.accepted, { r with outbox := r.outbox ++ [f] }) := by
  rw [SubscriberReactor.enqueue]
  split
  · exact .inl rfl
  · split
    · rename_i hfull
      simp only [Bool.or_eq_true, decide_eq_true_eq] at hfull
      exact .inr (.inl ⟨rfl, hfull⟩)
    · exact .inr (.inr rfl)

theorem attended_enqueue {s s' : Rpc F} {f : F} (after : After F) (h : s.Attended)
    (hreactor : s'.reactor = (s.reactor.enqueue f).2)
    (hreads : s'.pendingReads = s.pendingReads)
    (hnew : ∀ t ∈ afterEnqueue s.reactor (s.reactor.enqueue f).1 after, t ∈ s'.tasks)
    (hpool : ∀ d, s.Attends d → s'.Attends d) : s'.Attended := by
  rcases enqueue_cases s.reactor f with heq | ⟨heq, hfull⟩ | heq
  · rw [heq] at hreactor
    exact h.quiet hpool (by rw [hreactor]) (by rw [hreactor]) (by rw [hreactor])
      (by rw [hreactor]) (by rw [hreactor]) (by rw [hreactor]) (by rw [hreads]; exact .inl)
  · rw [heq] at hreactor
    constructor
    case stranded =>
      rw [hreactor]
      exact fun hne => (h.stranded hne).imp_right (hpool _)
    case latched =>
      intro hmarks _
      rw [hreactor] at hmarks ⊢
      rcases hfull with hlatched | hfull
      · exact (h.latched hmarks hlatched).imp_right (Or.imp_right (hpool _))
      · exact .inr (.inl (hmarks.trans_le hfull))
    case deferred =>
      rw [hreactor]
      exact fun hdeferred => (h.deferred hdeferred).imp_right (Or.imp_right (hpool _))
    case unread =>
      rw [hreactor, hreads]
      exact fun hzero => (h.unread hzero).imp_right (hpool _)
  · rw [heq] at hreactor hnew
    have hlength : s'.reactor.outbox.length = s.reactor.outbox.length + 1 := by
      rw [hreactor, List.length_append, List.length_singleton]
    have hwriting : s'.reactor.writing = s.reactor.writing := by rw [hreactor]
    have hne : s'.reactor.outbox ≠ [] := by
      intro hnil
      rw [hnil] at hlength
      cases hlength
    constructor
    case stranded =>
      intro _
      -- the caller starts a write unless one is in flight
      cases hidle : s.reactor.writing with
      | true => exact .inl (hwriting.trans hidle)
      | false =>
          refine .inr (attends_of_mem (hnew (.startWrite after) ?_) rfl)
          rw [afterEnqueue, if_pos ⟨rfl, hidle⟩]
          exact List.mem_singleton_self _
    case latched =>
      intro hmarks hlatched
      have hold : s.reactor.backpressured = true := by rwa [hreactor] at hlatched
      have hmarks : s.reactor.lwmFrames < s.reactor.hwmFrames := by rwa [hreactor] at hmarks
      rw [hwriting, hlength, show s'.reactor.lwmFrames = s.reactor.lwmFrames by rw [hreactor]]
      rcases h.latched hmarks hold with hw | hlow | hattends
      · exact .inl hw
      · exact .inr (.inl (by omega))
      · exact .inr (.inr (hpool _ hattends))
    case deferred => exact fun _ => .inr (.inl hne)
    case unread =>
      rw [hreads, show s'.reactor.finishPending = s.reactor.finishPending by rw [hreactor]]
      exact fun hzero => (h.unread hzero).imp_right (hpool _)

theorem does_after (after : After F) {d : Duty} (hd : d ≠ .write)
    (h : (Task.startWrite after).does d = true) : ∃ t ∈ after.tasks, t.does d = true := by
  cases d with
  | write => exact absurd rfl hd
  | resume =>
      cases after with
      | resume => exact ⟨.resume, List.mem_singleton_self _, rfl⟩
      | done => cases h
      | presence fs => cases h
  | read =>
      cases after with
      | presence fs => exact ⟨.presence fs, List.mem_singleton_self _, rfl⟩
      | done => cases h
      | resume => cases h

theorem does_issueWrite {after : After F} {d : Duty}
    (h : (Task.issueWrite after).does d = true) :
    d ≠ .write ∧ (Task.startWrite after).does d = true := by
  cases d with
  | write => cases after <;> cases h
  | resume => exact ⟨nofun, by cases after <;> exact h⟩
  | read => exact ⟨nofun, by cases after <;> exact h⟩

/-- `startWrite_` leaves a frame queued only behind a write in flight. -/
theorem attended_startWrite {s s' : Rpc F} {i : Nat} {after : After F} {rest : List (Task F)}
    (h : s.Attended) (hopen : s.reactor.finished = false)
    (hpick : pick i s.tasks = some (.startWrite after, rest))
    (hs' : s' = (s.runTask rest {} (.startWrite after)).2) : s'.Attended := by
  have hcarry : ∀ {d}, d ≠ .write → s.Attends d →
      ∀ ts, (∀ t ∈ after.tasks, ∀ d, t.does d = true → ∃ t' ∈ ts, t'.does d = true) →
        s'.tasks = ts ++ rest → s'.Attends d := by
    intro d hd hattends ts hts htasks
    refine attends_of_pick hpick ts htasks (fun hdoes => ?_) hattends
    obtain ⟨t, ht, ht'⟩ := does_after after hd hdoes
    exact hts t ht d ht'
  cases hw : s.reactor.startWrite with
  | none =>
      have hidle : s.reactor.writing = true ∨ s.reactor.outbox = [] := by
        rw [SubscriberReactor.startWrite, hopen] at hw
        split at hw
        · rename_i hbusy
          exact .inl (by simpa using hbusy)
        · split at hw
          · rename_i hempty
            exact .inr hempty
          · cases hw
      simp only [runTask, hw] at hs'
      have htasks : s'.tasks = after.tasks ++ rest := by rw [hs']
      have hpool : ∀ d, d ≠ .write → s.Attends d → s'.Attends d := fun d hd hattends =>
        hcarry hd hattends _ (fun t ht d hdoes => ⟨t, ht, hdoes⟩) htasks
      constructor
      case stranded =>
        rw [hs']
        exact fun hne => hidle.elim .inl (fun hempty => absurd hempty hne)
      case latched =>
        intro hmarks hlatched
        rw [hs'] at hmarks hlatched ⊢
        refine (h.latched hmarks hlatched).imp_right (Or.imp_right ?_)
        rw [← hs']
        exact hpool _ (by simp)
      case deferred =>
        intro hdeferred
        rw [hs'] at hdeferred ⊢
        refine (h.deferred hdeferred).imp_right (Or.imp_right ?_)
        rw [← hs']
        exact hpool _ (by simp)
      case unread =>
        intro hzero
        rw [hs'] at hzero ⊢
        refine (h.unread hzero).imp_right ?_
        rw [← hs']
        exact hpool _ (by simp)
  | some p =>
      obtain ⟨f, r⟩ := p
      obtain ⟨-, -, fs, -, rfl⟩ := startWrite_eq_some hw
      simp only [runTask, hw] at hs'
      have hwriting : s'.reactor.writing = true := by rw [hs']
      constructor
      case stranded => exact fun _ => .inl hwriting
      case latched => exact fun _ _ => .inl hwriting
      case deferred => exact fun _ => .inl hwriting
      case unread =>
        intro hzero
        have hold : s.pendingReads = 0 := by rwa [hs'] at hzero
        rw [show s'.reactor.finishPending = s.reactor.finishPending by rw [hs']]
        refine (h.unread hold).imp_right fun hattends =>
          hcarry (by simp) hattends [.issueWrite after] ?_ (by rw [hs']; rfl)
        intro t ht d hdoes
        refine ⟨.issueWrite after, List.mem_singleton_self _, ?_⟩
        cases after with
        | done => cases ht
        | resume =>
            obtain rfl := List.mem_singleton.mp ht
            cases d with
            | resume => rfl
            | _ => cases hdoes
        | presence fs =>
            obtain rfl := List.mem_singleton.mp ht
            cases d with
            | read => rfl
            | _ => cases hdoes

theorem attended_resume {s : Rpc F} {i : Nat} {rest : List (Task F)} (answer : Answer F)
    (h : s.Attended) (hpick : pick i s.tasks = some (.resume, rest)) :
    (s.runTask rest answer .resume).2.Attended := by
  have hpool : ∀ d, d ≠ .resume → s.Attends d →
      (s.runTask rest answer .resume).2.Attends d := by
    intro d hd hattends
    refine attends_of_pick hpick
      (if s.reactor.finishNow then [.teardownStatus] else []) ?_ ?_ hattends
    · rw [runTask]
      split <;> rfl
    · cases d with
      | resume => exact absurd rfl hd
      | _ =>
          intro hdoes
          cases hdoes
  have hreactor : (s.runTask rest answer .resume).2.reactor = { s.reactor with
      backpressured := s.reactor.backpressured &&
        decide (s.reactor.lwmFrames < s.reactor.outbox.length) } :=
    s.reactor.resume_eq
  constructor
  case stranded =>
    rw [hreactor]
    exact fun hne => (h.stranded hne).imp_right (hpool _ (by simp))
  case latched =>
    intro _ hlatched
    rw [hreactor] at hlatched ⊢
    obtain ⟨-, hhigh⟩ := Bool.and_eq_true_iff.mp hlatched
    exact .inr (.inl (of_decide_eq_true hhigh))
  case deferred =>
    intro hdeferred
    rw [hreactor] at hdeferred ⊢
    cases hbusy : s.reactor.writing with
    | true => exact .inl rfl
    | false =>
        by_cases hempty : s.reactor.outbox = []
        · have hnow : s.reactor.finishNow = true := by
            have hdeferred : s.reactor.finishPending = true := hdeferred
            simp [SubscriberReactor.finishNow, hdeferred, hbusy, hempty]
          refine .inr (.inr (attends_of_mem (t := .teardownStatus) ?_ rfl))
          rw [runTask, hnow, if_pos rfl]
          exact List.mem_cons_self
        · exact .inr (.inl hempty)
  case unread =>
    rw [hreactor]
    exact fun hzero => (h.unread hzero).imp_right (hpool _ (by simp))

theorem attended_moved {s s' : Rpc F} {i : Nat} {t : Task F} {rest : List (Task F)}
    (h : s.Attended) (hpick : pick i s.tasks = some (t, rest)) (ts : List (Task F))
    (hcarry : ∀ d, t.does d = true → ∃ t' ∈ ts, t'.does d = true)
    (hs' : s' = { s with tasks := ts ++ rest }) : s'.Attended := by
  subst hs'
  exact h.quiet (fun d => attends_of_pick hpick ts rfl (hcarry d)) rfl rfl rfl rfl rfl rfl .inl

theorem attended_relieved {s s' : Rpc F} {i : Nat} {t : Task F} {rest : List (Task F)}
    (h : s.Attended) (hpick : pick i s.tasks = some (t, rest)) (htasks : s'.tasks = rest)
    (hidle : ∀ d, t.does d = false) (hreactor : s'.reactor = s.reactor)
    (hreads : s'.pendingReads = s.pendingReads) : s'.Attended := by
  have hpool : ∀ d, s.Attends d → s'.Attends d := by
    refine fun d => attends_of_pick hpick [] htasks fun hdoes => ?_
    rw [hidle d] at hdoes
    cases hdoes
  exact h.quiet hpool (by rw [hreactor]) (by rw [hreactor]) (by rw [hreactor])
    (by rw [hreactor]) (by rw [hreactor]) (by rw [hreactor]) (by rw [hreads]; exact .inl)

theorem attended_issueWrite {s : Rpc F} {i : Nat} {after : After F} {rest : List (Task F)}
    (answer : Answer F) (h : s.Attended)
    (hpick : pick i s.tasks = some (.issueWrite after, rest)) :
    (s.runTask rest answer (.issueWrite after)).2.Attended := by
  have hpool : ∀ d, s.Attends d →
      (s.runTask rest answer (.issueWrite after)).2.Attends d := by
    refine fun d => attends_of_pick hpick after.tasks rfl fun hdoes => ?_
    obtain ⟨hd, hdoes⟩ := does_issueWrite hdoes
    exact does_after after hd hdoes
  exact h.quiet hpool rfl rfl rfl rfl rfl rfl .inl

theorem attended_gate {s : Rpc F} {i : Nat} {rest : List (Task F)} (answer : Answer F)
    (h : s.Attended) (hpick : pick i s.tasks = some (.gate, rest)) :
    (s.runTask rest answer .gate).2.Attended := by
  cases hknown : answer.known with
  | true =>
      refine attended_moved h hpick [.register] (fun d hdoes => ?_) ?_
      · cases d with
        | read => exact ⟨_, List.mem_singleton_self _, rfl⟩
        | _ => cases hdoes
      · simp only [runTask, hknown, if_true]
        rfl
  | false =>
      refine attended_moved h hpick
        [.finish ⟨.permissionDenied, "unknown dialer: not a known participant"⟩]
        (fun d _ => ⟨_, List.mem_singleton_self _, rfl⟩) ?_
      simp only [runTask, hknown]
      rfl

theorem attended_presence {s : Rpc F} {i : Nat} {frames : List F} {rest : List (Task F)}
    (answer : Answer F) (h : s.Attended)
    (hpick : pick i s.tasks = some (.presence frames, rest)) :
    (s.runTask rest answer (.presence frames)).2.Attended := by
  cases frames with
  | nil =>
      have hpool : ∀ d, d ≠ .read → s.Attends d →
          (s.runTask rest answer (.presence [])).2.Attends d := by
        intro d hd
        refine attends_of_pick hpick [] rfl fun hdoes => ?_
        cases d with
        | read => exact absurd rfl hd
        | _ => cases hdoes
      constructor
      case stranded => exact fun hne => (h.stranded hne).imp_right (hpool _ (by simp))
      case latched =>
        exact fun hmarks hlatched =>
          (h.latched hmarks hlatched).imp_right (Or.imp_right (hpool _ (by simp)))
      case deferred =>
        exact fun hdeferred =>
          (h.deferred hdeferred).imp_right (Or.imp_right (hpool _ (by simp)))
      case unread => exact fun hzero => absurd hzero (Nat.succ_ne_zero _)
  | cons f fs =>
      refine attended_enqueue (.presence fs) h rfl rfl
        (fun t ht => List.mem_append_left _ ht) (fun d => ?_)
      refine attends_of_pick hpick _ rfl fun hdoes => ?_
      cases d with
      | read =>
          rw [afterEnqueue]
          split
          · exact ⟨_, List.mem_singleton_self _, rfl⟩
          · exact ⟨_, List.mem_singleton_self _, rfl⟩
      | _ => cases hdoes

/-- A section that leaves the reactor open leaves no work unattended. -/
theorem attended_runTask {s : Rpc F} {i : Nat} {t : Task F} {rest : List (Task F)}
    (answer : Answer F) (h : s.Attended) (hpick : pick i s.tasks = some (t, rest))
    (hopen : (s.runTask rest answer t).2.reactor.finished = false) :
    (s.runTask rest answer t).2.Attended := by
  cases t with
  | startWrite after =>
      have hold : s.reactor.finished = false := by
        rw [runTask] at hopen
        split at hopen
        · exact hopen
        · rename_i f r hw
          obtain ⟨hold, -⟩ := startWrite_eq_some hw
          exact hold
      exact attended_startWrite h hold hpick rfl
  | issueWrite after => exact attended_issueWrite answer h hpick
  | resume => exact attended_resume answer h hpick
  | gate => exact attended_gate answer h hpick
  | register =>
      refine attended_moved h hpick [.snapshot] (fun d hdoes => ?_) rfl
      cases d with
      | read => exact ⟨_, List.mem_singleton_self _, rfl⟩
      | _ => cases hdoes
  | snapshot =>
      refine attended_moved h hpick [.presence answer.presence] (fun d hdoes => ?_) rfl
      cases d with
      | read => exact ⟨_, List.mem_singleton_self _, rfl⟩
      | _ => cases hdoes
  | presence frames => exact attended_presence answer h hpick
  | teardownStatus =>
      exact attended_moved h hpick [.finish s.reactor.teardownStatus]
        (fun d _ => ⟨_, List.mem_singleton_self _, rfl⟩) rfl
  | finish status =>
      rw [runTask] at hopen
      split at hopen
      · rename_i hfinished
        exact absurd (hfinished.symm.trans hopen) Bool.noConfusion
      · cases hopen
  | issueFinish status =>
      exact attended_relieved h hpick rfl (fun d => by cases d <;> rfl) rfl rfl
  | unregister =>
      exact attended_relieved h hpick rfl (fun d => by cases d <;> rfl) rfl rfl

theorem attended_onWriteDone {s : Rpc F} (h : s.Attended) (hopen : s.reactor.finished = false)
    (ok : Bool) : (s.onWriteDone ok).Attended := by
  have hpool : ∀ d, s.Attends d → (s.onWriteDone ok).Attends d := fun d =>
    attends_append _ rfl
  have hnew : ∀ d, d ≠ .read → (s.onWriteDone ok).Attends d := by
    intro d hd
    cases ok with
    | true =>
        refine attends_of_mem (t := .startWrite .resume) List.mem_cons_self ?_
        cases d with
        | read => exact absurd rfl hd
        | _ => rfl
    | false =>
        refine attends_of_mem (t := .finish ⟨.cancelled, "stream broken"⟩) ?_ rfl
        rw [onWriteDone, hopen]
        exact List.mem_cons_self
  constructor
  case stranded => exact fun _ => .inr (hnew _ (by simp))
  case latched => exact fun _ _ => .inr (.inr (hnew _ (by simp)))
  case deferred => exact fun _ => .inr (.inr (hnew _ (by simp)))
  case unread => exact fun hzero => (h.unread hzero).imp_right (hpool _)

/-- A failed read finishes the stream at once, or leaves it to the write in flight
or to the one it starts. -/
theorem attended_onReadFailed {s : Rpc F} (h : s.Attended)
    (hopen : s.reactor.finished = false) : s.onReadFailed.Attended := by
  rw [onReadFailed, hopen, if_neg Bool.false_ne_true]
  split
  · rename_i hbusy
    exact ⟨fun _ => .inl hbusy, fun _ _ => .inl hbusy, fun _ => .inl hbusy, fun _ => .inl rfl⟩
  · split
    · have hnew : ∀ d, ({ s with
            pendingReads := s.pendingReads - 1
            tasks := .teardownStatus :: s.tasks } : Rpc F).Attends d :=
        fun d => attends_of_mem List.mem_cons_self rfl
      exact ⟨fun _ => .inr (hnew _), fun _ _ => .inr (.inr (hnew _)),
        fun _ => .inr (.inr (hnew _)), fun _ => .inr (hnew _)⟩
    · rename_i hempty
      have hne : s.reactor.outbox ≠ [] := by
        rintro hnil
        exact hempty (by rw [hnil]; rfl)
      refine ⟨fun _ => .inr (attends_of_mem List.mem_cons_self rfl), fun hmarks hlatched => ?_,
        fun _ => .inr (.inl hne), fun _ => .inl rfl⟩
      exact (h.latched hmarks hlatched).imp_right (Or.imp_right (attends_append [_] rfl))

theorem attended_onHeartbeat {s : Rpc F} (h : s.Attended) (key : SubscriberKey) :
    (s.onHeartbeat key).Attended := by
  rw [onHeartbeat]
  split
  · exact h.quiet (fun d => attends_append [_] rfl) rfl rfl rfl rfl rfl rfl
      fun _ => .inr (attends_of_mem List.mem_cons_self rfl)
  · exact h.quiet (fun d => attends_append [_] rfl) rfl rfl rfl rfl rfl rfl
      fun _ => .inr (attends_of_mem List.mem_cons_self rfl)

/-- `finished_` and `cancelled_` are never taken back. -/
structure Keeps (r r' : SubscriberReactor F) : Prop where
  finished : r.finished = true → r'.finished = true
  cancelled : r.cancelled = true → r'.cancelled = true

theorem keeps_enqueue (r : SubscriberReactor F) (f : F) : Keeps r (r.enqueue f).2 := by
  rw [SubscriberReactor.enqueue]
  split
  · exact ⟨id, id⟩
  · split <;> exact ⟨id, id⟩

theorem keeps_runTask (s : Rpc F) (rest : List (Task F)) (answer : Answer F) (t : Task F) :
    Keeps s.reactor (s.runTask rest answer t).2.reactor := by
  cases t with
  | startWrite after =>
      rw [runTask]
      split
      · exact ⟨id, id⟩
      · rename_i f r hw
        obtain ⟨-, -, fs, -, rfl⟩ := startWrite_eq_some hw
        exact ⟨id, id⟩
  | resume =>
      rw [runTask, SubscriberReactor.resume]
      dsimp only
      split <;> exact ⟨id, id⟩
  | presence frames =>
      cases frames with
      | nil => exact ⟨id, id⟩
      | cons f fs => exact keeps_enqueue s.reactor f
  | finish status =>
      rw [runTask]
      split
      · exact ⟨id, id⟩
      · exact ⟨fun _ => rfl, id⟩
  | _ => exact ⟨id, id⟩

theorem keeps_of_step {s s' : Rpc F} {a : RpcAction F} {e : RpcEvent F}
    (h : s.step a = some (e, s')) : Keeps s.reactor s'.reactor := by
  cases stepped_of_step h with
  | enqueue f => exact keeps_enqueue s.reactor f
  | onWriteDone ok hwrites => exact ⟨id, id⟩
  | onReadFailed hreads =>
      rw [onReadFailed]
      split_ifs <;> exact ⟨id, id⟩
  | onHeartbeat key hreads =>
      rw [onHeartbeat]
      split_ifs <;> exact ⟨id, id⟩
  | onCancel =>
      rw [onCancel]
      split
      · exact ⟨id, id⟩
      · exact ⟨id, fun _ => rfl⟩
  | onDone hfinishes hreads => exact ⟨id, id⟩
  | supersede => exact ⟨id, fun _ => rfl⟩
  | @run i t rest answer hpick => exact keeps_runTask s rest answer t

theorem attended_step {s s' : Rpc F} {a : RpcAction F} {e : RpcEvent F}
    (h : s.step a = some (e, s')) (hattended : s.Attended)
    (hopen : s'.reactor.finished = false) : s'.Attended := by
  have hold : s.reactor.finished = false := by
    by_contra hfinished
    have := (keeps_of_step h).finished (by simpa using hfinished)
    exact absurd (this.symm.trans hopen) Bool.noConfusion
  cases stepped_of_step h with
  | enqueue f =>
      exact attended_enqueue .done hattended rfl rfl
        (fun t ht => List.mem_append_left _ ht) (fun d => attends_append _ rfl)
  | onWriteDone ok hwrites => exact attended_onWriteDone hattended hold ok
  | onReadFailed hreads => exact attended_onReadFailed hattended hold
  | onHeartbeat key hreads => exact attended_onHeartbeat hattended key
  | onCancel =>
      rw [onCancel]
      split
      · exact hattended
      · exact hattended.quiet (fun d => attends_append _ rfl) rfl rfl rfl rfl rfl rfl .inl
  | onDone hfinishes hreads =>
      exact hattended.quiet (fun d => attends_append _ rfl) rfl rfl rfl rfl rfl rfl .inl
  | supersede => exact hattended.quiet (fun d => id) rfl rfl rfl rfl rfl rfl .inl
  | @run i t rest answer hpick => exact attended_runTask answer hattended hpick hopen

theorem attended_of_trace {maxFrames hwm lwm : Nat} {evs : List (RpcEvent F)} {s : Rpc F}
    (h : Trace (Steps step) (init maxFrames hwm lwm) evs s)
    (hopen : s.reactor.finished = false) : s.Attended := by
  refine Trace.invariant (P := fun _ s => s.reactor.finished = false → s.Attended) ?_ ?_ h hopen
  · intro _
    exact ⟨fun hne => absurd rfl hne, nofun, nofun, nofun⟩
  · rintro evs s e s' - ih ⟨a, -, hstep⟩ hopen
    have hold : s.reactor.finished = false := by
      by_contra hfinished
      have := (keeps_of_step hstep).finished (by simpa using hfinished)
      exact absurd (this.symm.trans hopen) Bool.noConfusion
    exact attended_step hstep (ih hold) hopen

end Rpc

end Edriel
