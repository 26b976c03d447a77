import Edriel.Gate
import Edriel.WaterMarks
import Edriel.Drain
import Edriel.SubscriberTable

namespace Edriel

open Proto3 Interleaving Std

universe u

/-- The presence of all participants, shard by shard. -/
def Node.snapshotParticipantData {N : Nat} (n : Node N) : List ParticipantData :=
  (List.finRange N).flatMap fun i => (n.shards i).participants.toList.map fun kv => kv.2.presence

def Node.answer {N : Nat} (n : Node N) (key : SubscriberKey) : Answer ParticipantData :=
  { known := n.isKnownParticipant key
    presence := n.snapshotParticipantData }

variable {F : Type u}

/-- The frames that the thread of a heartbeat has yet to enqueue, `peers` being all of
them. -/
def Task.owes (peers : List F) : Task F → Option (List F)
  | .gate => some peers
  | .register => some peers
  | .snapshot => some peers
  | .presence fs => some fs
  | .startWrite (.presence fs) => some fs
  | .issueWrite (.presence fs) => some fs
  | _ => none

def Task.work (peers : List F) : Task F → Nat
  | .gate => 3 * peers.length + 4
  | .register => 3 * peers.length + 3
  | .snapshot => 3 * peers.length + 2
  | .presence fs => 3 * fs.length + 1
  | .startWrite (.presence fs) => 3 * fs.length + 3
  | .issueWrite (.presence fs) => 3 * fs.length + 2
  | _ => 0

/-- The dialer's heartbeats, writes that complete, and the reactor's own threads. -/
def Rpc.Greets (key : SubscriberKey) (answer : Answer F) (_ : Rpc F) : RpcAction F → Prop
  | .onReadDone heartbeat => heartbeat = some key
  | .onWriteDone ok => ok = true
  | .run _ given => given = answer
  | _ => False

def Rpc.Greeted (s : Rpc F) : Prop :=
  s.reactor.initialised = true ∧ s.pendingReads ≠ 0

/-- What can keep a reactor from taking a frame that it has room for, or end its stream:
whether it is finished, cancelled, to be finished or latched. -/
def SubscriberReactor.flags (r : SubscriberReactor F) : Bool × Bool × Bool × Bool :=
  (r.finished, r.cancelled, r.finishPending, r.backpressured)

theorem SubscriberReactor.flags_eq_iff {r : SubscriberReactor F} :
    r.flags = (false, false, false, false) ↔ r.finished = false ∧ r.cancelled = false ∧
      r.finishPending = false ∧ r.backpressured = false := by
  simp [SubscriberReactor.flags]

/-- Whatever the progress of the stream's writes, `enqueue` accepts each frame; once the
first heartbeat is dealt with these are the frames of all participants, and it is dealt with
as its thread runs on. -/
def OutboxTrio.Tells {N : Nat} (t : OutboxTrio) (n : Node N) (key : SubscriberKey) : Prop :=
  ∀ evs s,
    Trace (StepsWhere (Rpc.Greets key (n.answer key)) Rpc.step) (t.stream ParticipantData) evs s →
    (∀ f status, .enqueued f status ∈ evs → status = .accepted) ∧
    (s.Greeted → Rpc.accepted evs = n.snapshotParticipantData) ∧
    ∃ more s', Trace (StepsWhere (Rpc.Greets key (n.answer key)) Rpc.step) s more s' ∧ s'.Greeted

/-- The high-water mark, at least one frame and inside the bound. -/
def OutboxTrio.mark (t : OutboxTrio) : Nat :=
  min (max (toFrames t.hwm t.maxFrames) 1) (t.maxFrames - 1)

/-- The frames that fit while no write completes: the outbox up to its high-water mark and
the one that is in flight, or none where the mark is zero. -/
def OutboxTrio.room (t : OutboxTrio) : Nat :=
  if t.mark = 0 then 0 else t.mark + 1

namespace Rpc

/-- What `peers` the threads of the stream's heartbeats still owe it. -/
def owed (peers : List F) (s : Rpc F) : List (List F) :=
  s.tasks.filterMap (Task.owes peers)

/-- No frame is refused while this holds: the stream is open and no frame has been refused;
at most one heartbeat is being dealt with; the frames accepted and those owed are all the
peers; and the first of them has left the outbox before the second one is enqueued. -/
structure Greeting (peers : List F) (evs : List (RpcEvent F)) (s : Rpc F) : Prop where
  opened : s.reactor.flags = (false, false, false, false)
  tasks : ∀ t ∈ s.tasks, t.completing = true ∨ (t.owes peers).isSome = true
  reads : s.pendingReads + (s.owed peers).length = 1
  told : if s.reactor.initialised then accepted evs ++ (s.owed peers).flatten = peers
    else accepted evs = [] ∧ s.owed peers = []
  busy : s.reactor.writing = true → moved evs ≠ []
  first : accepted evs ≠ [] → moved evs ≠ [] ∨ ∃ fs, .startWrite (.presence fs) ∈ s.tasks
  none_refused : ∀ f status, .enqueued f status ∈ evs → status = .accepted

theorem greeting_init (peers : List F) (maxFrames hwm lwm : Nat) :
    Greeting peers [] (init maxFrames hwm lwm) where
  opened := rfl
  tasks := List.forall_mem_nil _
  reads := rfl
  told := ⟨rfl, rfl⟩
  busy h := Bool.noConfusion h
  first h := absurd rfl h
  none_refused _ _ h := absurd h List.not_mem_nil

variable {peers : List F} {evs : List (RpcEvent F)} {s : Rpc F} {i : Nat} {t : Task F}
  {rest : List (Task F)}

theorem owed_of_pick_none (hreads : s.pendingReads + (s.owed peers).length = 1)
    (hpick : pick i s.tasks = some (t, rest)) (ht : t.owes peers = none) :
    rest.filterMap (Task.owes peers) = s.owed peers := by
  have hperm : (s.owed peers).Perm ((t :: rest).filterMap (Task.owes peers)) :=
    (perm_of_pick hpick).filterMap _
  rw [List.filterMap_cons_none ht] at hperm
  cases howed : s.owed peers with
  | nil =>
      rw [howed] at hperm
      exact hperm.nil_eq.symm
  | cons fs more =>
      rw [howed, List.length_cons] at hreads
      obtain rfl : more = [] := List.eq_nil_of_length_eq_zero (by omega)
      rw [howed] at hperm
      exact List.perm_singleton.mp hperm.symm

theorem owed_of_pick_some (hreads : s.pendingReads + (s.owed peers).length = 1)
    (hpick : pick i s.tasks = some (t, rest)) {fs : List F} (ht : t.owes peers = some fs) :
    s.owed peers = [fs] ∧ rest.filterMap (Task.owes peers) = [] ∧ s.pendingReads = 0 := by
  have hperm : (s.owed peers).Perm ((t :: rest).filterMap (Task.owes peers)) :=
    (perm_of_pick hpick).filterMap _
  rw [List.filterMap_cons_some ht] at hperm
  have hlength := hperm.length_eq
  rw [List.length_cons] at hlength
  have hrest : rest.filterMap (Task.owes peers) = [] :=
    List.eq_nil_of_length_eq_zero (by omega)
  rw [hrest] at hperm
  exact ⟨List.perm_singleton.mp hperm, hrest, by omega⟩

theorem Greeting.quiet (h : Greeting peers evs s) {e : RpcEvent F} {s' : Rpc F}
    (he : ∀ f status, e ≠ .enqueued f status)
    (hflags : s'.reactor.flags = s.reactor.flags)
    (htasks : ∀ t ∈ s'.tasks, t.completing = true ∨ (t.owes peers).isSome = true)
    (hreads : s'.pendingReads + (s'.owed peers).length = 1)
    (htold : if s'.reactor.initialised then accepted evs ++ (s'.owed peers).flatten = peers
      else accepted evs = [] ∧ s'.owed peers = [])
    (hbusy : s'.reactor.writing = true → moved (evs ++ [e]) ≠ [])
    (hfirst : accepted evs ≠ [] →
      moved (evs ++ [e]) ≠ [] ∨ ∃ fs, .startWrite (.presence fs) ∈ s'.tasks) :
    Greeting peers (evs ++ [e]) s' := by
  have hnone : acceptedBy e = none := by
    cases e with
    | enqueued f status => exact absurd rfl (he f status)
    | _ => rfl
  have haccepted := accepted_concat_none evs hnone
  refine ⟨?_, htasks, hreads, ?_, hbusy, ?_, ?_⟩
  · exact hflags.trans h.opened
  · rw [haccepted]
    exact htold
  · rw [haccepted]
    exact hfirst
  · intro f status hmem
    rcases List.mem_append.mp hmem with hmem | hmem
    · exact h.none_refused f status hmem
    · exact absurd (List.mem_singleton.mp hmem).symm (he f status)

theorem moved_concat_ne_nil {e : RpcEvent F} (h : moved evs ≠ []) : moved (evs ++ [e]) ≠ [] := by
  rw [moved_concat]
  exact List.append_ne_nil_of_left_ne_nil h _

theorem owes_of_completing (h : t.completing = true) : t.owes peers = none := by
  cases t with
  | startWrite after =>
      cases after with
      | resume => rfl
      | done => cases h
      | presence fs => cases h
  | issueWrite after =>
      cases after with
      | resume => rfl
      | done => cases h
      | presence fs => cases h
  | resume => rfl
  | _ => cases h

/-- While a thread owes frames, they and the accepted ones are all the peers. -/
theorem Greeting.told_of_pick (h : Greeting peers evs s)
    (hpick : pick i s.tasks = some (t, rest)) {fs : List F} (ht : t.owes peers = some fs) :
    s.reactor.initialised = true ∧ accepted evs ++ fs = peers := by
  obtain ⟨howed, -, -⟩ := owed_of_pick_some h.reads hpick ht
  have htold := h.told
  split_ifs at htold with hinit
  · rw [howed, List.flatten_singleton] at htold
    exact ⟨hinit, htold⟩
  · rw [howed] at htold
    exact absurd htold.2 (List.cons_ne_nil _ _)

theorem Greeting.moved_of_pick (h : Greeting peers evs s)
    (hpick : pick i s.tasks = some (t, rest)) {fs : List F} (ht : t.owes peers = some fs)
    (hpast : ∀ gs, t ≠ .startWrite (.presence gs)) (haccepted : accepted evs ≠ []) :
    moved evs ≠ [] := by
  obtain ⟨-, hrest, -⟩ := owed_of_pick_some h.reads hpick ht
  rcases h.first haccepted with hmoved | ⟨gs, hmem⟩
  · exact hmoved
  · rcases (mem_of_pick hpick).mp hmem with heq | hmem
    · exact absurd heq.symm (hpast gs)
    · have hgs : gs ∈ rest.filterMap (Task.owes peers) :=
        List.mem_filterMap.mpr ⟨_, hmem, rfl⟩
      rw [hrest] at hgs
      exact absurd hgs List.not_mem_nil

theorem Greeting.moved_of_no_startWrite (h : Greeting peers evs s)
    (hcarried : moved evs ++ s.reactor.outbox = accepted evs)
    (hnone : s.reactor.startWrite = none) (haccepted : accepted evs ≠ []) : moved evs ≠ [] := by
  rw [SubscriberReactor.startWrite, (SubscriberReactor.flags_eq_iff.mp h.opened).1,
    Bool.false_or] at hnone
  split_ifs at hnone with hwriting
  · exact h.busy hwriting
  · cases hout : s.reactor.outbox with
    | nil =>
        rw [hout, List.append_nil] at hcarried
        rwa [hcarried]
    | cons f fs =>
        rw [hout] at hnone
        cases hnone

theorem Greeting.advance (h : Greeting peers evs s)
    (hpick : pick i s.tasks = some (t, rest)) {fs : List F} (ht : t.owes peers = some fs)
    {e : RpcEvent F} {s' : Rpc F} (he : ∀ f status, e ≠ .enqueued f status) {t' : Task F}
    (htasks : s'.tasks = t' :: rest) (ht' : t'.owes peers = some fs)
    (hreads : s'.pendingReads = s.pendingReads)
    (hflags : s'.reactor.flags = s.reactor.flags)
    (hinit : s'.reactor.initialised = s.reactor.initialised)
    (hbusy : s'.reactor.writing = true → moved (evs ++ [e]) ≠ [])
    (hfirst : accepted evs ≠ [] → moved (evs ++ [e]) ≠ []) :
    Greeting peers (evs ++ [e]) s' := by
  obtain ⟨howed, hrest, -⟩ := owed_of_pick_some h.reads hpick ht
  have hsame : s'.owed peers = s.owed peers := by
    rw [howed, owed, htasks, List.filterMap_cons_some ht', hrest]
  refine h.quiet he hflags ?_ ?_ ?_ hbusy fun ha => .inl (hfirst ha)
  · intro x hx
    rw [htasks] at hx
    rcases List.mem_cons.mp hx with rfl | hx
    · exact .inr (by rw [ht']; rfl)
    · exact h.tasks x ((mem_of_pick hpick).mpr (.inr hx))
  · rw [hreads, hsame]
    exact h.reads
  · rw [hinit, hsame]
    exact h.told

theorem Greeting.complete (h : Greeting peers evs s)
    (hpick : pick i s.tasks = some (t, rest)) (ht : t.completing = true)
    {e : RpcEvent F} {s' : Rpc F} (he : ∀ f status, e ≠ .enqueued f status)
    (more : List (Task F)) (htasks : s'.tasks = more ++ rest)
    (hmore : ∀ x ∈ more, x.completing = true)
    (hreads : s'.pendingReads = s.pendingReads)
    (hflags : s'.reactor.flags = s.reactor.flags)
    (hinit : s'.reactor.initialised = s.reactor.initialised)
    (hbusy : s'.reactor.writing = true → moved (evs ++ [e]) ≠ []) :
    Greeting peers (evs ++ [e]) s' := by
  have hnone : more.filterMap (Task.owes peers) = [] := by
    rw [List.filterMap_eq_nil_iff]
    exact fun x hx => owes_of_completing (hmore x hx)
  have hsame : s'.owed peers = s.owed peers := by
    rw [owed, htasks, List.filterMap_append, hnone, List.nil_append]
    exact owed_of_pick_none h.reads hpick (owes_of_completing ht)
  refine h.quiet he hflags ?_ ?_ ?_ hbusy ?_
  · intro x hx
    rw [htasks] at hx
    rcases List.mem_append.mp hx with hx | hx
    · exact .inl (hmore x hx)
    · exact h.tasks x ((mem_of_pick hpick).mpr (.inr hx))
  · rw [hreads, hsame]
    exact h.reads
  · rw [hinit, hsame]
    exact h.told
  · intro haccepted
    rcases h.first haccepted with hmoved | ⟨gs, hmem⟩
    · exact .inl (moved_concat_ne_nil hmoved)
    · rcases (mem_of_pick hpick).mp hmem with rfl | hmem
      · cases ht
      · exact .inr ⟨gs, by rw [htasks]; exact List.mem_append_right _ hmem⟩

/-- The next frame fits: all but one of those before it may still wait in the outbox. -/
theorem Greeting.accepts (h : Greeting peers evs s) {f : F} {fs : List F}
    (hpick : pick i s.tasks = some (.presence (f :: fs), rest))
    (hcarried : moved evs ++ s.reactor.outbox = accepted evs)
    (hroom : peers = [] ∨
      1 ≤ s.reactor.hwmFrames ∧ peers.length ≤ s.reactor.hwmFrames + 1) :
    (s.reactor.enqueue f).1 = .accepted := by
  obtain ⟨-, htold⟩ := h.told_of_pick hpick rfl
  obtain ⟨hfinished, hcancelled, -, hlatch⟩ := SubscriberReactor.flags_eq_iff.mp h.opened
  have hlength := congrArg List.length htold
  have hcount := congrArg List.length hcarried
  simp only [List.length_append, List.length_cons] at hlength hcount
  have hfree : s.reactor.outbox.length < s.reactor.hwmFrames := by
    rcases hroom with rfl | ⟨hpos, hfits⟩
    · rw [List.length_nil] at hlength
      omega
    · by_cases hnone : accepted evs = []
      · rw [hnone, List.length_nil] at hcount
        omega
      · have hmoved := h.moved_of_pick hpick rfl (fun gs hgs => by cases hgs) hnone
        have hpast := List.length_pos_iff.mpr hmoved
        omega
  rw [enqueue_eq_accepted_iff, SubscriberReactor.isSendable, hfinished, hcancelled, hlatch]
  simpa using hfree

theorem Greeting.took (h : Greeting peers evs s) {f : F} {fs : List F}
    (hpick : pick i s.tasks = some (.presence (f :: fs), rest)) {t' : Task F}
    (ht' : t'.owes peers = some fs)
    (hpast : s.reactor.writing = true ∨ t' = .startWrite (.presence fs)) :
    Greeting peers (evs ++ [.enqueued f .accepted])
      { s with
        reactor := { s.reactor with outbox := s.reactor.outbox ++ [f] }
        tasks := t' :: rest } := by
  obtain ⟨howed, hrest, hreads⟩ := owed_of_pick_some h.reads hpick rfl
  obtain ⟨hinit, htold⟩ := h.told_of_pick hpick rfl
  have hnext : (t' :: rest).filterMap (Task.owes peers) = [fs] := by
    rw [List.filterMap_cons_some ht', hrest]
  have hmore : accepted (evs ++ [.enqueued f .accepted]) = accepted evs ++ [f] :=
    accepted_concat evs _
  constructor
  case opened => exact h.opened
  case tasks =>
    intro x hx
    rcases List.mem_cons.mp hx with rfl | hx
    · exact .inr (by rw [ht']; rfl)
    · exact h.tasks x ((mem_of_pick hpick).mpr (.inr hx))
  case reads =>
    change s.pendingReads + ((t' :: rest).filterMap (Task.owes peers)).length = 1
    rw [hnext, hreads]
    rfl
  case told =>
    change if s.reactor.initialised then _ ++ ((t' :: rest).filterMap (Task.owes peers)).flatten = _
      else _
    rw [if_pos hinit, hnext, hmore, List.flatten_singleton, List.append_assoc]
    exact htold
  case busy => exact fun hwriting => moved_concat_ne_nil (h.busy hwriting)
  case first =>
    intro _
    rcases hpast with hwriting | rfl
    · exact .inl (moved_concat_ne_nil (h.busy hwriting))
    · exact .inr ⟨fs, List.mem_cons_self⟩
  case none_refused =>
    intro g status hmem
    rcases List.mem_append.mp hmem with hmem | hmem
    · exact h.none_refused g status hmem
    · exact (RpcEvent.enqueued.inj (List.mem_singleton.mp hmem)).2

theorem Greeting.enqueue (h : Greeting peers evs s) {f : F} {fs : List F}
    (hpick : pick i s.tasks = some (.presence (f :: fs), rest))
    (haccepts : (s.reactor.enqueue f).1 = .accepted) (answer : Answer F) :
    Greeting peers (evs ++ [(s.runTask rest answer (.presence (f :: fs))).1])
      (s.runTask rest answer (.presence (f :: fs))).2 := by
  obtain ⟨-, -, hr⟩ := enqueue_of_accepted haccepts
  rw [runTask, haccepts, hr, afterEnqueue]
  split_ifs with hidle
  · exact h.took hpick rfl (.inr rfl)
  · have hwriting : s.reactor.writing = true := by simpa using hidle
    exact h.took hpick rfl (.inl hwriting)

theorem moved_concat_moved (evs : List (RpcEvent F)) (f : F) : moved (evs ++ [.moved f]) ≠ [] := by
  rw [moved_concat]
  exact List.append_ne_nil_of_right_ne_nil _ (List.cons_ne_nil f [])

theorem Greeting.runCompleting (h : Greeting peers evs s)
    (hpick : pick i s.tasks = some (t, rest)) (ht : t.completing = true) (answer : Answer F) :
    Greeting peers (evs ++ [(s.runTask rest answer t).1]) (s.runTask rest answer t).2 := by
  have hbusy : ∀ e, s.reactor.writing = true → moved (evs ++ [e]) ≠ [] := fun e hwriting =>
    moved_concat_ne_nil (h.busy hwriting)
  cases t with
  | startWrite after =>
      cases after with
      | resume =>
          cases hw : s.reactor.startWrite with
          | none =>
              simp only [runTask, hw]
              exact h.complete hpick rfl (by simp) [.resume] rfl (by simp [Task.completing]) rfl rfl
                rfl (hbusy _)
          | some p =>
              obtain ⟨f, r⟩ := p
              obtain ⟨-, -, fs, -, rfl⟩ := startWrite_eq_some hw
              simp only [runTask, hw]
              exact h.complete hpick rfl (by simp) [.issueWrite .resume] rfl
                (by simp [Task.completing]) rfl rfl rfl fun _ => moved_concat_moved evs f
      | done => cases ht
      | presence fs => cases ht
  | issueWrite after =>
      cases after with
      | resume =>
          exact h.complete hpick rfl (by simp [runTask]) [.resume] rfl (by simp [Task.completing])
            rfl rfl rfl (hbusy _)
      | done => cases ht
      | presence fs => cases ht
  | resume =>
      obtain ⟨-, -, hpending, hlatch⟩ := SubscriberReactor.flags_eq_iff.mp h.opened
      have hnow : s.reactor.finishNow = false := by
        rw [SubscriberReactor.finishNow, hpending]
        rfl
      have hresume : s.reactor.resume = s.reactor := by
        rw [SubscriberReactor.resume, hlatch, Bool.false_and, if_neg Bool.false_ne_true]
      rw [runTask, hnow, hresume]
      exact h.complete hpick rfl (by simp) [] rfl (List.forall_mem_nil _) rfl rfl rfl (hbusy _)
  | _ => cases ht

theorem Greeting.reads_on (h : Greeting peers evs s)
    (hpick : pick i s.tasks = some (.presence [], rest)) :
    Greeting peers (evs ++ [.startRead])
      { s with pendingReads := s.pendingReads + 1, tasks := rest } := by
  obtain ⟨-, hrest, hreads⟩ := owed_of_pick_some h.reads hpick rfl
  obtain ⟨hinit, htold⟩ := h.told_of_pick hpick rfl
  refine h.quiet (by simp) rfl (fun x hx => h.tasks x ((mem_of_pick hpick).mpr (.inr hx))) ?_ ?_
    (fun hwriting => moved_concat_ne_nil (h.busy hwriting)) fun ha =>
      .inl (moved_concat_ne_nil (h.moved_of_pick hpick rfl (fun gs hgs => by cases hgs) ha))
  · change s.pendingReads + 1 + (rest.filterMap (Task.owes peers)).length = 1
    rw [hrest, hreads]
    rfl
  · change if s.reactor.initialised then _ ++ (rest.filterMap (Task.owes peers)).flatten = _ else _
    rw [if_pos hinit, hrest]
    exact htold

theorem Greeting.runOwing (h : Greeting peers evs s) (hpick : pick i s.tasks = some (t, rest))
    (ht : (t.owes peers).isSome = true)
    (hcarried : moved evs ++ s.reactor.outbox = accepted evs)
    (hroom : peers = [] ∨
      1 ≤ s.reactor.hwmFrames ∧ peers.length ≤ s.reactor.hwmFrames + 1)
    {answer : Answer F} (hknown : answer.known = true) (hpresence : answer.presence = peers) :
    Greeting peers (evs ++ [(s.runTask rest answer t).1]) (s.runTask rest answer t).2 := by
  have hbusy : ∀ e, s.reactor.writing = true → moved (evs ++ [e]) ≠ [] := fun e hwriting =>
    moved_concat_ne_nil (h.busy hwriting)
  have hpast : ∀ {fs e}, t.owes peers = some fs → (∀ gs, t ≠ .startWrite (.presence gs)) →
      accepted evs ≠ [] → moved (evs ++ [e]) ≠ [] := fun hfs hgs ha =>
    moved_concat_ne_nil (h.moved_of_pick hpick hfs hgs ha)
  cases t with
  | gate =>
      rw [runTask, if_pos hknown]
      exact h.advance hpick rfl (by simp) rfl rfl rfl rfl rfl (hbusy _) (hpast rfl (by simp))
  | register =>
      exact h.advance hpick rfl (by simp [runTask]) rfl rfl rfl rfl rfl (hbusy _)
        (hpast rfl (by simp))
  | snapshot =>
      exact h.advance hpick rfl (by simp [runTask]) rfl (congrArg some hpresence) rfl rfl rfl
        (hbusy _) (hpast rfl (by simp))
  | presence frames =>
      cases frames with
      | nil => exact h.reads_on hpick
      | cons f fs => exact h.enqueue hpick (h.accepts hpick hcarried hroom) answer
  | startWrite after =>
      cases after with
      | presence fs =>
          cases hw : s.reactor.startWrite with
          | none =>
              simp only [runTask, hw]
              exact h.advance hpick rfl (by simp) rfl rfl rfl rfl rfl (hbusy _) fun ha =>
                moved_concat_ne_nil (h.moved_of_no_startWrite hcarried hw ha)
          | some p =>
              obtain ⟨f, r⟩ := p
              obtain ⟨-, -, fs, -, rfl⟩ := startWrite_eq_some hw
              simp only [runTask, hw]
              exact h.advance hpick rfl (by simp) rfl rfl rfl rfl rfl
                (fun _ => moved_concat_moved evs f) fun _ => moved_concat_moved evs f
      | done => cases ht
      | resume => cases ht
  | issueWrite after =>
      cases after with
      | presence fs =>
          exact h.advance hpick rfl (by simp [runTask]) rfl rfl rfl rfl rfl (hbusy _)
            (hpast rfl (by simp))
      | done => cases ht
      | resume => cases ht
  | _ => cases ht

theorem greeting_onWriteDone (h : Greeting peers evs s) :
    Greeting peers (evs ++ [.writeDone true]) (s.onWriteDone true) := by
  refine h.quiet (by simp) rfl ?_ h.reads h.told
    (fun hwriting => Bool.noConfusion hwriting) ?_
  · intro x hx
    rcases List.mem_cons.mp hx with rfl | hx
    · exact .inl rfl
    · exact h.tasks x hx
  · intro haccepted
    rcases h.first haccepted with hmoved | ⟨gs, hmem⟩
    · exact .inl (moved_concat_ne_nil hmoved)
    · exact .inr ⟨gs, List.mem_cons_of_mem _ hmem⟩

theorem greeting_onHeartbeat (h : Greeting peers evs s) (key : SubscriberKey)
    (hreads : s.pendingReads ≠ 0) :
    Greeting peers (evs ++ [.internal]) (s.onHeartbeat key) := by
  have hsum := h.reads
  have hnone : s.owed peers = [] := List.eq_nil_of_length_eq_zero (by omega)
  have hone : s.pendingReads = 1 := by
    rw [hnone] at hsum
    exact hsum
  have htold := h.told
  have hfirst : accepted evs ≠ [] → moved (evs ++ [.internal]) ≠ [] := by
    intro haccepted
    rcases h.first haccepted with hmoved | ⟨gs, hmem⟩
    · exact moved_concat_ne_nil hmoved
    · have hgs : gs ∈ s.owed peers := List.mem_filterMap.mpr ⟨_, hmem, rfl⟩
      rw [hnone] at hgs
      exact absurd hgs List.not_mem_nil
  have htasks : ∀ {t : Task F}, (t.owes peers).isSome = true →
      ∀ x ∈ t :: s.tasks, x.completing = true ∨ (x.owes peers).isSome = true := by
    intro t ht x hx
    rcases List.mem_cons.mp hx with rfl | hx
    · exact .inr ht
    · exact h.tasks x hx
  rw [onHeartbeat]
  split_ifs with hinit
  · refine h.quiet (by simp) rfl (htasks rfl) ?_ ?_
      (fun hwriting => moved_concat_ne_nil (h.busy hwriting)) fun ha => .inl (hfirst ha)
    · change s.pendingReads - 1 + ([] :: s.owed peers).length = 1
      rw [hone, hnone]
      rfl
    · change if s.reactor.initialised then accepted evs ++ ([] :: s.owed peers).flatten = peers
        else _
      rw [if_pos hinit] at htold ⊢
      exact htold
  · refine h.quiet (by simp) rfl (htasks rfl) ?_ ?_
      (fun hwriting => moved_concat_ne_nil (h.busy hwriting)) fun ha => .inl (hfirst ha)
    · change s.pendingReads - 1 + (peers :: s.owed peers).length = 1
      rw [hone, hnone]
      rfl
    · change accepted evs ++ (peers :: s.owed peers).flatten = peers
      rw [if_neg hinit] at htold
      rw [htold.1, hnone, List.flatten_singleton, List.nil_append]

theorem greeting_of_trace {maxFrames hwm lwm : Nat} {key : SubscriberKey} {answer : Answer F}
    (hknown : answer.known = true)
    (hroom : answer.presence = [] ∨
      1 ≤ SubscriberReactor.clampHwm maxFrames hwm ∧
        answer.presence.length ≤ SubscriberReactor.clampHwm maxFrames hwm + 1)
    (h : Trace (StepsWhere (Greets key answer) step) (init maxFrames hwm lwm) evs s) :
    Greeting answer.presence evs s := by
  refine Trace.invariant (P := fun evs s => Greeting answer.presence evs s)
    (greeting_init answer.presence maxFrames hwm lwm) ?_ h
  rintro evs s e s' htrace hgreeting ⟨a, hgreets, hstep⟩
  have hcarried := (streamInv_of_trace htrace.unrestricted).carried
  have hhwm : s.reactor.hwmFrames = SubscriberReactor.clampHwm maxFrames hwm :=
    (boundInv_of_trace htrace.unrestricted).hwm_eq
  cases stepped_of_step hstep with
  | onWriteDone ok hwrites =>
      obtain rfl : ok = true := hgreets
      exact greeting_onWriteDone hgreeting
  | onHeartbeat heard hreads => exact greeting_onHeartbeat hgreeting heard hreads
  | onReadFailed hreads => cases hgreets
  | @run i t rest given hpick =>
      obtain rfl : given = answer := hgreets
      rw [← hhwm] at hroom
      rcases hgreeting.tasks t ((mem_of_pick hpick).mpr (.inl rfl)) with hcompleting | howes
      · exact hgreeting.runCompleting hpick hcompleting given
      · exact hgreeting.runOwing hpick howes hcarried hroom hknown rfl
  | enqueue f => exact absurd hgreets id
  | onCancel => exact absurd hgreets id
  | onDone hfinishes hreads => exact absurd hgreets id
  | supersede => exact absurd hgreets id

theorem Greeting.accepted_eq (h : Greeting peers evs s) (hgreeted : s.Greeted) :
    accepted evs = peers := by
  obtain ⟨hinit, hreads⟩ := hgreeted
  have hsum := h.reads
  have hnone : s.owed peers = [] := List.eq_nil_of_length_eq_zero (by omega)
  have htold := h.told
  rw [if_pos hinit, hnone, List.flatten_nil, List.append_nil] at htold
  exact htold

theorem work_runTask (s : Rpc F) (rest : List (Task F)) {answer : Answer F}
    (hknown : answer.known = true) (hpresence : answer.presence = peers)
    (hinit : s.reactor.initialised = true) (ht : (t.owes peers).isSome = true) :
    (s.runTask rest answer t).2.Greeted ∨
      ∃ t' ∈ (s.runTask rest answer t).2.tasks,
        (t'.owes peers).isSome = true ∧ t'.work peers < t.work peers := by
  cases t with
  | gate =>
      rw [runTask, if_pos hknown]
      exact .inr ⟨_, List.mem_cons_self, rfl, Nat.lt_succ_self _⟩
  | register => exact .inr ⟨_, List.mem_cons_self, rfl, Nat.lt_succ_self _⟩
  | snapshot =>
      refine .inr ⟨_, List.mem_cons_self, rfl, ?_⟩
      rw [hpresence]
      exact Nat.lt_succ_self _
  | presence frames =>
      cases frames with
      | nil => exact .inl ⟨hinit, Nat.succ_ne_zero _⟩
      | cons f fs =>
          have hless : ∀ k, k ≤ 3 → 3 * fs.length + k < 3 * (f :: fs).length + 1 := by
            intro k hk
            rw [List.length_cons]
            omega
          rw [runTask, afterEnqueue]
          split_ifs
          · exact .inr ⟨_, List.mem_cons_self, rfl, hless 3 le_rfl⟩
          · exact .inr ⟨.presence fs, List.mem_cons_self, rfl, hless 1 (by decide)⟩
  | startWrite after =>
      cases after with
      | presence fs =>
          rw [runTask]
          split
          · exact .inr ⟨.presence fs, List.mem_cons_self, rfl, Nat.lt_add_of_pos_right Nat.two_pos⟩
          · exact .inr ⟨_, List.mem_cons_self, rfl, Nat.lt_succ_self _⟩
      | done => cases ht
      | resume => cases ht
  | issueWrite after =>
      cases after with
      | presence fs => exact .inr ⟨.presence fs, List.mem_cons_self, rfl, Nat.lt_succ_self _⟩
      | done => cases ht
      | resume => cases ht
  | _ => cases ht

theorem greeted_of_owes (key : SubscriberKey) {answer : Answer F}
    (hknown : answer.known = true) (work : Nat) {s : Rpc F}
    (hinit : s.reactor.initialised = true) {t : Task F} (hmem : t ∈ s.tasks)
    (ht : (t.owes answer.presence).isSome = true) (hwork : t.work answer.presence ≤ work) :
    ∃ more s', Trace (StepsWhere (Greets key answer) step) s more s' ∧ s'.Greeted := by
  induction work using Nat.strong_induction_on generalizing s t with
  | _ work ih =>
      obtain ⟨i, rest, hpick⟩ := exists_pick_of_mem hmem
      have hstep : s.step (.run i answer) =
          some ((s.runTask rest answer t).1, (s.runTask rest answer t).2) := by
        rw [step, hpick, Option.map_some]
      have hrun : Trace (StepsWhere (Greets key answer) step) s [(s.runTask rest answer t).1]
          (s.runTask rest answer t).2 := .single ⟨.run i answer, rfl, hstep⟩
      rcases work_runTask s rest hknown rfl hinit ht with hgreeted | ⟨t', hmem', ht', hless⟩
      · exact ⟨_, _, hrun, hgreeted⟩
      · have hinit' := (identity_runTask s rest answer t).1.trans hinit
        obtain ⟨more, s', hmore, hgreeted⟩ :=
          ih _ (hless.trans_le hwork) hinit' hmem' ht' le_rfl
        exact ⟨_, s', hrun.append hmore, hgreeted⟩

/-- From every state of the stream its first heartbeat comes to be dealt with. -/
theorem Greeting.exists_greeted {key : SubscriberKey} {answer : Answer F}
    (h : Greeting answer.presence evs s) (hknown : answer.known = true) :
    ∃ more s', Trace (StepsWhere (Greets key answer) step) s more s' ∧ s'.Greeted := by
  have hsum := h.reads
  cases howed : s.owed answer.presence with
  | cons fs more =>
      have hfs : fs ∈ s.owed answer.presence := by rw [howed]; exact List.mem_cons_self
      obtain ⟨t, hmem, ht⟩ := List.mem_filterMap.mp hfs
      have htold := h.told
      split_ifs at htold with hinit
      · exact greeted_of_owes key hknown _ hinit hmem (by rw [ht]; rfl) le_rfl
      · rw [howed] at htold
        exact absurd htold.2 (List.cons_ne_nil _ _)
  | nil =>
      rw [howed, List.length_nil, Nat.add_zero] at hsum
      have hreads : s.pendingReads ≠ 0 := by omega
      by_cases hinit : s.reactor.initialised = true
      · exact ⟨[], s, .nil, hinit, hreads⟩
      · have hstep : s.step (.onReadDone (some key)) = some (.internal, s.onHeartbeat key) := by
          rw [step, if_neg hreads]
        have hrun : Trace (StepsWhere (Greets key answer) step) s [.internal]
            (s.onHeartbeat key) := .single ⟨.onReadDone (some key), rfl, hstep⟩
        have hnext : (s.onHeartbeat key).reactor.initialised = true ∧
            .gate ∈ (s.onHeartbeat key).tasks := by
          rw [onHeartbeat, if_neg hinit]
          exact ⟨rfl, List.mem_cons_self⟩
        obtain ⟨more, s', hmore, hgreeted⟩ :=
          greeted_of_owes key hknown _ hnext.1 hnext.2 rfl le_rfl
        exact ⟨_, s', hrun.append hmore, hgreeted⟩

theorem enqueue_of_live {r : SubscriberReactor F} (hfinished : r.finished = false)
    (hcancelled : r.cancelled = false) (f : F) :
    (r.enqueue f).1 = .backpressured ∨ (r.enqueue f).1 = .accepted := by
  rw [SubscriberReactor.enqueue, hfinished, hcancelled]
  split_ifs with hterminating hfull
  · cases hterminating
  · exact .inl rfl
  · exact .inr rfl

/-- Where a write is in flight that does not complete, the frames beyond the high-water mark
are refused. -/
theorem refused_of_overflow (key : SubscriberKey) (answer : Answer F) {frames : List F}
    {s : Rpc F} (htasks : s.tasks = [.presence frames]) (hfinished : s.reactor.finished = false)
    (hcancelled : s.reactor.cancelled = false) (hwriting : s.reactor.writing = true)
    (hroom : s.reactor.outbox.length ≤ s.reactor.hwmFrames)
    (hmany : s.reactor.hwmFrames < s.reactor.outbox.length + frames.length) :
    ∃ more s' f, Trace (StepsWhere (Greets key answer) step) s more s' ∧
      .enqueued f .backpressured ∈ more := by
  induction frames generalizing s with
  | nil =>
      rw [List.length_nil] at hmany
      omega
  | cons f fs ih =>
      have hstep : s.step (.run 0 answer) =
          some ((s.runTask [] answer (.presence (f :: fs))).1,
            (s.runTask [] answer (.presence (f :: fs))).2) := by
        rw [step, htasks, pick_zero_cons, Option.map_some]
      have hrun : Trace (StepsWhere (Greets key answer) step) s
          [.enqueued f (s.reactor.enqueue f).1]
          (s.runTask [] answer (.presence (f :: fs))).2 := .single ⟨.run 0 answer, rfl, hstep⟩
      rcases enqueue_of_live hfinished hcancelled f with hrefused | haccepted
      · refine ⟨_, _, f, hrun, ?_⟩
        rw [hrefused]
        exact List.mem_singleton_self _
      · obtain ⟨hfree, -, hr⟩ := enqueue_of_accepted haccepted
        have hnext : (s.runTask [] answer (.presence (f :: fs))).2 =
            { s with
              reactor := { s.reactor with outbox := s.reactor.outbox ++ [f] }
              tasks := [.presence fs] } := by
          rw [runTask, haccepted, hr, afterEnqueue, if_neg (by simp [hwriting])]
          rfl
        rw [hnext] at hrun
        obtain ⟨more, s', g, hmore, hg⟩ := ih (s := { s with
            reactor := { s.reactor with outbox := s.reactor.outbox ++ [f] }
            tasks := [.presence fs] }) rfl hfinished hcancelled hwriting
          (by simpa using hfree) (by simpa [Nat.add_assoc, Nat.add_comm 1] using hmany)
        exact ⟨_, s', g, hrun.append hmore, List.mem_append_right _ hg⟩

def unused (s : Rpc F) (tasks : List (Task F)) : Rpc F :=
  { s with
    reactor := { s.reactor with
      finished := false, cancelled := false, outbox := [], writing := false }
    tasks }

def firstWritten (s : Rpc F) (f : F) (tasks : List (Task F)) : Rpc F :=
  { s with
    reactor := { s.reactor with
      finished := false, cancelled := false, outbox := [], writeBuffer := some f, writing := true }
    tasks
    pendingWrites := s.pendingWrites + 1 }

theorem trace_firstWritten (key : SubscriberKey) (answer : Answer F) (s : Rpc F) {f : F}
    {fs : List F}
    (haccepted : ((s.unused [.presence (f :: fs)]).reactor.enqueue f).1 = .accepted) :
    ∃ evs, Trace (StepsWhere (Greets key answer) step) (s.unused [.presence (f :: fs)]) evs
      (s.firstWritten f [.presence fs]) := by
  obtain ⟨-, -, hr⟩ := enqueue_of_accepted haccepted
  have hfirst : (s.unused [.presence (f :: fs)]).step (.run 0 answer) =
      some (.enqueued f .accepted,
        { s.unused [.startWrite (.presence fs)] with
          reactor := { (s.unused []).reactor with outbox := [f] } }) := by
    rw [step, unused, pick_zero_cons, Option.map_some]
    change some (_, _) = _
    rw [← unused, haccepted, hr]
    rfl
  have hrun : Trace (StepsWhere (Greets key answer) step) (s.unused [.presence (f :: fs)]) _ _ :=
    .single ⟨.run 0 answer, rfl, hfirst⟩
  exact ⟨_, (hrun.snoc ⟨.run 0 answer, rfl, rfl⟩).snoc ⟨.run 0 answer, rfl, rfl⟩⟩

theorem exists_presence (key : SubscriberKey) {answer : Answer F} (hknown : answer.known = true)
    (maxFrames hwm lwm : Nat) :
    ∃ (evs : List (RpcEvent F)) (s : Rpc F),
      s.reactor.hwmFrames = SubscriberReactor.clampHwm maxFrames hwm ∧
      Trace (StepsWhere (Greets key answer) step) (init maxFrames hwm lwm) evs
        (s.unused [.presence answer.presence]) := by
  obtain ⟨known, peers⟩ := answer
  obtain rfl : known = true := hknown
  have hexec : exec step (init maxFrames hwm lwm)
      [.onReadDone (some key), .run 0 ⟨true, peers⟩, .run 0 ⟨true, peers⟩,
        .run 0 ⟨true, peers⟩] =
      some ([.internal, .internal, .register key, .internal],
        unused { (init maxFrames hwm lwm : Rpc F) with
          reactor := { (.new maxFrames hwm lwm : SubscriberReactor F) with
            initialised := true, key }
          pendingReads := 0 } [.presence peers]) := rfl
  refine ⟨_, _, ?_, trace_of_exec ?_ hexec⟩
  · rfl
  · simp [Greets]

/-- With more frames than fit, some run has one of them refused: the run in which no write
completes. -/
theorem exists_refused (key : SubscriberKey) (answer : Answer F) (hknown : answer.known = true)
    {maxFrames hwm lwm : Nat}
    (hmany : SubscriberReactor.clampHwm maxFrames hwm = 0 ∧ answer.presence ≠ [] ∨
      SubscriberReactor.clampHwm maxFrames hwm + 1 < answer.presence.length) :
    ∃ evs s f, Trace (StepsWhere (Greets key answer) step) (init maxFrames hwm lwm) evs s ∧
      .enqueued f .backpressured ∈ evs := by
  obtain ⟨evs, s, hhwm, hopening⟩ := exists_presence key hknown maxFrames hwm lwm
  cases hpeers : answer.presence with
  | nil =>
      rw [hpeers, List.length_nil] at hmany
      rcases hmany with ⟨-, hnone⟩ | hmany
      · exact absurd rfl hnone
      · exact absurd hmany (Nat.not_lt_zero _)
  | cons f fs =>
      rw [hpeers, List.length_cons] at hmany
      rw [hpeers] at hopening
      rcases enqueue_of_live (r := (s.unused [.presence (f :: fs)]).reactor) rfl rfl f with
        hrefused | haccepted
      · refine ⟨_, _, f, hopening.snoc ⟨.run 0 answer, rfl, rfl⟩, List.mem_append_right _ ?_⟩
        exact List.mem_singleton.mpr (by rw [← hrefused])
      · obtain ⟨hfree, -, -⟩ := enqueue_of_accepted haccepted
        have hpos : 0 < s.reactor.hwmFrames := hfree
        obtain ⟨evs', hfirst⟩ := trace_firstWritten key answer s haccepted
        have hmore : s.reactor.hwmFrames < 0 + fs.length := by
          rcases hmany with ⟨hzero, -⟩ | hmany
          · omega
          · omega
        obtain ⟨more, s', g, hoverflow, hg⟩ :=
          refused_of_overflow key answer (s := s.firstWritten f [.presence fs]) rfl rfl rfl rfl
            (Nat.zero_le _) hmore
        exact ⟨_, s', g, (hopening.append hfirst).append hoverflow, List.mem_append_right _ hg⟩

end Rpc

theorem Node.length_snapshotParticipantData {N : Nat} (n : Node N) :
    n.snapshotParticipantData.length = ∑ i, (n.shards i).participants.size := by
  rw [Node.snapshotParticipantData, List.length_flatMap, Fin.sum_univ_def]
  simp only [List.length_map, ExtTreeMap.length_toList]

theorem OutboxTrio.clampHwm_eq_mark {t : OutboxTrio} (hbound : t.maxFrames ≤ 2 ^ 64) :
    SubscriberReactor.clampHwm t.maxFrames (toFrames t.hwm t.maxFrames) = t.mark :=
  clampHwm_eq_min _ t.pos hbound

theorem OutboxTrio.fits_iff (t : OutboxTrio) {α : Type*} (frames : List α) :
    frames.length ≤ t.room ↔ frames = [] ∨ 1 ≤ t.mark ∧ frames.length ≤ t.mark + 1 := by
  rw [OutboxTrio.room]
  split_ifs with hzero
  · rw [hzero, Nat.le_zero, List.length_eq_zero_iff]
    exact ⟨.inl, fun h => h.resolve_right fun hpos => absurd hpos.1 (by decide)⟩
  · constructor
    · exact fun h => .inr ⟨Nat.one_le_iff_ne_zero.mpr hzero, h⟩
    · rintro (rfl | ⟨-, hfits⟩)
      · exact Nat.zero_le _
      · exact hfits

theorem OutboxTrio.tells_of_le_room {N : Nat} {t : OutboxTrio} {n : Node N} {key : SubscriberKey}
    (hbound : t.maxFrames ≤ 2 ^ 64) (hknown : n.isKnownParticipant key = true)
    (hroom : n.snapshotParticipantData.length ≤ t.room) : t.Tells n key := by
  intro evs s htrace
  have hfits := (t.fits_iff _).mp hroom
  rw [← clampHwm_eq_mark hbound] at hfits
  have hgreeting : Rpc.Greeting n.snapshotParticipantData evs s :=
    Rpc.greeting_of_trace hknown hfits htrace
  exact ⟨hgreeting.none_refused, hgreeting.accepted_eq, hgreeting.exists_greeted hknown⟩

theorem OutboxTrio.not_tells_of_room_lt {N : Nat} {t : OutboxTrio} {n : Node N}
    {key : SubscriberKey} (hbound : t.maxFrames ≤ 2 ^ 64)
    (hknown : n.isKnownParticipant key = true)
    (hroom : t.room < n.snapshotParticipantData.length) : ¬ t.Tells n key := by
  intro htells
  have hmany : t.mark = 0 ∧ n.snapshotParticipantData ≠ [] ∨
      t.mark + 1 < n.snapshotParticipantData.length := by
    have hnot := (t.fits_iff n.snapshotParticipantData).not.mp (Nat.not_le.mpr hroom)
    obtain ⟨hsome, hover⟩ := not_or.mp hnot
    rcases Nat.eq_zero_or_pos t.mark with hzero | hpos
    · exact .inl ⟨hzero, hsome⟩
    · exact .inr (Nat.not_le.mp fun hfits => hover ⟨hpos, hfits⟩)
  rw [← clampHwm_eq_mark hbound] at hmany
  obtain ⟨evs, s, f, htrace, hrefused⟩ := Rpc.exists_refused key (n.answer key) hknown hmany
  obtain ⟨haccepted, -, -⟩ := htells evs s htrace
  cases haccepted f .backpressured hrefused

theorem loadedTrio_maxFrames_le (load : Bytes → Option Root) (stod : Stod)
    (content : Option Bytes) : (loadedTrio load stod content).maxFrames ≤ 2 ^ 64 :=
  (UInt64.toNat_lt _).le

/-- A new stream is told of every peer, whatever its writes do meanwhile, exactly when the
registry holds no more participants than fit before the first write completes. -/
theorem presence_told_iff (load : Bytes → Option Root) (stod : Stod) (content : Option Bytes)
    {N : Nat} (n : Node N) (key : SubscriberKey) (hknown : n.isKnownParticipant key = true) :
    (loadedTrio load stod content).Tells n key ↔
      ∑ i, (n.shards i).participants.size ≤ (loadedTrio load stod content).room := by
  have hbound := loadedTrio_maxFrames_le load stod content
  rw [← n.length_snapshotParticipantData]
  constructor
  · intro htells
    by_contra hroom
    exact OutboxTrio.not_tells_of_room_lt hbound hknown (Nat.not_le.mp hroom) htells
  · exact OutboxTrio.tells_of_le_room hbound hknown

def peer (uid : Nat) : Participant :=
  { id := ⟨1, 1, UInt64.ofNat uid⟩
    lastSeen := 0
    endpoints := []
    timeout := 30 }

/-- The first `count` peers, under their uids. -/
def peers (count : Nat) : List (UInt64 × Participant) :=
  (List.range count).map fun uid => ((peer uid).id.uid, peer uid)

/-- A node with `count` participants in every shard. -/
def crowdedNode {N : Nat} (count : Nat) : Node N :=
  { selfParticipant := ⟨0, 0, 0⟩
    shards := fun _ => { participants := .ofList (peers count) } }

theorem distinct_peers {count : Nat} (hcount : count ≤ 2 ^ 64) :
    (peers count).Pairwise fun a b => ¬ compare a.1 b.1 = .eq := by
  rw [peers, List.pairwise_map]
  refine List.nodup_range.imp_of_mem ?_
  intro a b ha hb hne heq
  have huid : UInt64.ofNat a = UInt64.ofNat b := LawfulEqOrd.compare_eq_iff_eq.mp heq
  have hnat := congrArg UInt64.toNat huid
  rw [UInt64.toNat_ofNat_of_lt' ((List.mem_range.mp ha).trans_le hcount),
    UInt64.toNat_ofNat_of_lt' ((List.mem_range.mp hb).trans_le hcount)] at hnat
  exact hne hnat

theorem size_peers {count : Nat} (hcount : count ≤ 2 ^ 64) :
    (ExtTreeMap.ofList (peers count)).size = count := by
  rw [ExtTreeMap.size_ofList (distinct_peers hcount), peers, List.length_map, List.length_range]

theorem crowdedNode_knows {N : Nat} [NeZero N] {count : Nat} (hpos : 0 < count)
    (hcount : count ≤ 2 ^ 64) :
    (crowdedNode count : Node N).isKnownParticipant ⟨1, 1, 0⟩ = true := by
  have hpeer : (ExtTreeMap.ofList (peers count))[(0 : UInt64)]? = some (peer 0) :=
    ExtTreeMap.getElem?_ofList_of_mem (LawfulEqOrd.compare_eq_iff_eq.mpr rfl)
      (distinct_peers hcount) (List.mem_map.mpr ⟨0, List.mem_range.mpr hpos, rfl⟩)
  exact (Node.isKnownParticipant_iff _ _).mpr (.inl ⟨peer 0, ⟨0, 0, hpeer⟩, by decide⟩)

theorem room_default (load : Bytes → Option Root) (stod : Stod) :
    (loadedTrio load stod none).room = 769 := by
  have hframes : toFrames (3 / 4) 1024 = 768 :=
    toFrames_eq (by decide) (by norm_num) (by decide)
  have hmark : (loadedTrio load stod none).mark = 768 := by
    change min (max (toFrames (3 / 4) 1024) 1) (1024 - 1) = 768
    rw [hframes]
    rfl
  rw [OutboxTrio.room, hmark]
  rfl

/-- With the default configuration, a dialer that is one of 770 participants is not told of all
of them where no write completes during the loop. -/
theorem crowd_not_told :
    ¬ ∀ (load : Bytes → Option Root) (stod : Stod) (content : Option Bytes) (N : Nat) (n : Node N)
        (key : SubscriberKey), n.isKnownParticipant key = true →
          (loadedTrio load stod content).Tells n key := by
  intro htells
  refine OutboxTrio.not_tells_of_room_lt (n := (crowdedNode 770 : Node 1))
    (loadedTrio_maxFrames_le _ _ _) (crowdedNode_knows (by decide) (by decide)) ?_
    (htells (fun _ => none) (fun _ => none) none 1 _ _ (crowdedNode_knows (by decide) (by decide)))
  have hsize : (ExtTreeMap.ofList (peers 770)).size = 770 := size_peers (by decide)
  rw [room_default, Node.length_snapshotParticipantData, Fin.sum_univ_one]
  calc 769 < 770 := by decide
    _ = _ := hsize.symm

theorem presence_told_two :
    (loadedTrio (fun _ => none) (fun _ => none) none).Tells (crowdedNode 2 : Node 1) ⟨1, 1, 0⟩ := by
  refine (presence_told_iff _ _ none _ _ (crowdedNode_knows (by decide) (by decide))).mpr ?_
  rw [room_default, Fin.sum_univ_one]
  exact (size_peers (by decide)).trans_le (by decide)

end Edriel
