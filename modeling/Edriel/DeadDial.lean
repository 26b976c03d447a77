import Edriel.Generations

namespace Edriel

open Std Interleaving

/-- What a run tells about the dials: whose clients have cancelled, and for each key
the newest dial that was not cancelled when it registered. -/
structure DialLog where
  cancelled : List Nat := []
  current : SubscriberKey → Option Nat := fun _ => none

def DialLog.note (l : DialLog) (x : ServerAction × ServerEvent) : DialLog where
  cancelled :=
    match x.1 with
    | .reactor i .onCancel => i :: l.cancelled
    | _ => l.cancelled
  current :=
    match x.2 with
    | .registered i sk _ =>
        if i ∈ l.cancelled then l.current else Function.update l.current sk (some i)
    | _ => l.current

def dialLog (log : List (ServerAction × ServerEvent)) : DialLog :=
  log.foldl DialLog.note {}

theorem dialLog_concat (log : List (ServerAction × ServerEvent))
    (x : ServerAction × ServerEvent) : dialLog (log ++ [x]) = (dialLog log).note x := by
  rw [dialLog, List.foldl_append, dialLog]
  rfl

theorem DialLog.mem_cancelled_note {l : DialLog} {a : ServerAction} {e : ServerEvent} {i : Nat} :
    i ∈ (l.note (a, e)).cancelled ↔ i ∈ l.cancelled ∨ a = .reactor i .onCancel := by
  cases a with
  | reactor j b => cases b <;> simp [note, or_comm, eq_comm]
  | _ => simp [note]

namespace Server

variable {N : Nat}

def registersAlive (s : Server N) : ServerAction → Bool
  | .reactor i (.run k _ _) =>
      match pick k (s.rpcs i).tasks with
      | some (.register, _) => !(s.rpcs i).reactor.cancelled
      | _ => true
  | _ => true

structure Logged (l : DialLog) (s : Server N) : Prop where
  flagged : ∀ i ∈ l.cancelled, (s.rpcs i).reactor.isLive = false
  evicts : ∀ i, ∀ t ∈ (s.rpcs i).tasks, t.evicts = true →
    i ∈ l.cancelled ∨ (s.rpcs i).done = true
  current : ∀ sk i, l.current sk = some i → i ∉ l.cancelled → (s.rpcs i).done = false →
    s.subscribers[sk]? = some i ∧ (s.rpcs i).reactor.cancelled = false

variable [NeZero N]

/-- A registration is by a dial that its client has not cancelled. -/
theorem not_cancelled_of_registered {s s' : Server N} {l : DialLog} {a : ServerAction} {i : Nat}
    {sk : SubscriberKey} {superseded : Option Nat} (hs : s.Dials) (hl : Logged l s)
    (halive : s.registersAlive a = true)
    (h : s.step a = some (.registered i sk superseded, s')) :
    i ∉ l.cancelled ∧ (s.rpcs i).reactor.cancelled = false := by
  obtain ⟨b, rfl, hstep⟩ := registers_of_step h
  have hjoining := (Rpc.joining_of_register (hs.stage i) hstep).1
  obtain ⟨k, answer, rest, hb, hpick, -, -⟩ := Rpc.register_of_step hstep
  have hflag : (s.rpcs i).reactor.cancelled = false := by
    cases b with
    | run k' known presence =>
        obtain ⟨rfl, -⟩ := RpcAction.run.inj hb
        simp only [registersAlive, hpick, Bool.not_eq_true'] at halive
        exact halive
    | _ => cases hb
  refine ⟨fun hcancelled => ?_, hflag⟩
  have hlive := (Rpc.isLive_eq_true_iff _).mpr ⟨hjoining.unfinished, hflag⟩
  cases hlive.symm.trans (hl.flagged i hcancelled)

theorem not_live_of_onCancel {s s' : Server N} {i : Nat} {e : ServerEvent}
    (h : s.step (.reactor i .onCancel) = some (e, s')) :
    (s'.rpcs i).reactor.isLive = false := by
  obtain ⟨e', r, hrpc, -, rfl⟩ := react_of_step h
  obtain ⟨rfl, rfl⟩ := Prod.mk.inj (Option.some.inj hrpc)
  rw [react_internal, rpcs_setRpc, if_pos rfl, Rpc.onCancel]
  split
  · rename_i hfinished
    rw [SubscriberReactor.isLive, hfinished]
    rfl
  · exact Bool.and_false _

theorem cancelled_of_step {s s' : Server N} {a : ServerAction} {e : ServerEvent} {i : Nat}
    (h : s.step a = some (e, s')) (hcancelled : (s'.rpcs i).reactor.cancelled = true) :
    (s.rpcs i).reactor.cancelled = true ∨ a = .reactor i .onCancel ∨
      ∃ j sk, s.subscribers[sk]? = some i ∧ e = .registered j sk (some i) := by
  cases moved_of_step h i with
  | still hrpc _ => exact .inl (hrpc ▸ hcancelled)
  | @reactor b _ ha hstep _ =>
      rcases (Rpc.lifecycle_of_step hstep).cancelled hcancelled with hold | hb | hb
      · exact .inl hold
      · cases b with
        | onCancel => exact .inr (.inl ha)
        | _ => cases hb
      · cases b <;> cases hb
  | entry hentry hb hstep _ =>
      rcases hb with ⟨-, j, he⟩ | ⟨f, rfl⟩
      · exact .inr (.inr ⟨j, _, hentry, he⟩)
      · rcases (Rpc.lifecycle_of_step hstep).cancelled hcancelled with hold | hb | hb
        · exact .inl hold
        · cases hb
        · cases hb

/-- The newest dial of a key stays in the table until its client cancels or its
stream is over. -/
theorem current_step {s s' : Server N} {l : DialLog} {a : ServerAction} {e : ServerEvent}
    (hs : s.Dials) (htable : s.TableInv) (hl : Logged l s) (halive : s.registersAlive a = true)
    (h : s.step a = some (e, s')) {sk : SubscriberKey} {i : Nat}
    (hcurrent : (l.note (a, e)).current sk = some i) (hi : i ∉ (l.note (a, e)).cancelled)
    (hdone : (s'.rpcs i).done = false) :
    s'.subscribers[sk]? = some i ∧ (s'.rpcs i).reactor.cancelled = false := by
  rw [DialLog.mem_cancelled_note, not_or] at hi
  obtain ⟨hi, hcancel⟩ := hi
  have hopen : (s.rpcs i).done = false := by
    by_contra hover
    cases hdone.symm.trans (done_of_step h (by simpa using hover))
  -- a dial that was current before and whose entry the step does not take
  have hkeep : l.current sk = some i → (∀ j, e ≠ .registered j sk (some i)) →
      s'.subscribers[sk]? = some i ∧ (s'.rpcs i).reactor.cancelled = false := by
    intro hold hother
    obtain ⟨hentry, hflag⟩ := hl.current sk i hold hi hopen
    constructor
    · rcases entry_of_step h hentry with hkept | ⟨j, -, he⟩ | rfl | ⟨-, hover⟩
      · exact hkept
      · exact absurd he (hother j)
      · obtain ⟨t, ht, hevicts⟩ := evicts_of_unregistered h
        rcases hl.evicts i t ht hevicts with hi' | hdone'
        · exact absurd hi' hi
        · cases hopen.symm.trans hdone'
      · cases hopen.symm.trans (hs.over hentry hover)
    · by_contra hcancelled
      rcases cancelled_of_step h (by simpa using hcancelled) with hold | rfl | ⟨j, sk', hentry', he⟩
      · cases hflag.symm.trans hold
      · exact hcancel rfl
      · obtain ⟨-, hkey⟩ := htable.keyed sk i hentry
        obtain ⟨-, hkey'⟩ := htable.keyed sk' i hentry'
        rw [← hkey', hkey] at he
        exact hother j he
  by_cases hregistered : ∃ j sk' superseded, e = .registered j sk' superseded
  · obtain ⟨j, sk', superseded, rfl⟩ := hregistered
    obtain ⟨hj, hflag⟩ := not_cancelled_of_registered hs hl halive h
    have heffect : s'.subscribers = s.subscribers.insert sk' j :=
      tableEffect_of_stepped (stepped_of_step h)
    simp only [DialLog.note, if_neg hj, Function.update_apply] at hcurrent
    by_cases hsk : sk = sk'
    · rw [if_pos hsk] at hcurrent
      obtain rfl := Option.some.inj hcurrent
      refine ⟨by rw [heffect, hsk]; exact ExtTreeMap.getElem?_insert_self, ?_⟩
      by_contra hcancelled
      rcases cancelled_of_step h (by simpa using hcancelled) with hold | rfl | ⟨k, sk'', hentry, -⟩
      · cases hflag.symm.trans hold
      · exact hcancel rfl
      · obtain ⟨b, -, hstep⟩ := registers_of_step h
        exact (Rpc.joining_of_register (hs.stage j) hstep).1.not_served (hs.entered _ j hentry)
    · rw [if_neg hsk] at hcurrent
      refine hkeep hcurrent fun k he => hsk ?_
      exact (ServerEvent.registered.inj he).2.1.symm
  · have hsame : (l.note (a, e)).current = l.current := by
      cases e with
      | registered j sk' superseded => exact absurd ⟨j, sk', superseded, rfl⟩ hregistered
      | _ => rfl
    rw [hsame] at hcurrent
    refine hkeep hcurrent fun j he => hregistered ⟨j, sk, some i, he⟩

theorem logged_step {s s' : Server N} {l : DialLog} {a : ServerAction} {e : ServerEvent}
    (hs : s.Dials) (htable : s.TableInv) (hl : Logged l s) (halive : s.registersAlive a = true)
    (h : s.step a = some (e, s')) : Logged (l.note (a, e)) s' := by
  constructor
  case flagged =>
    intro i hi
    rcases DialLog.mem_cancelled_note.mp hi with hi | rfl
    · by_contra hlive
      have hwas := live_of_step h (by simpa using hlive)
      cases hwas.symm.trans (hl.flagged i hi)
    · exact not_live_of_onCancel h
  case evicts =>
    intro i t ht hevicts
    have hold : t ∈ (s.rpcs i).tasks →
        i ∈ (l.note (a, e)).cancelled ∨ (s'.rpcs i).done = true := by
      intro ht
      rcases hl.evicts i t ht hevicts with hi | hdone
      · exact .inl (DialLog.mem_cancelled_note.mpr (.inl hi))
      · exact .inr (done_of_step h hdone)
    cases moved_of_step h i with
    | still hrpc _ => exact hold (hrpc ▸ ht)
    | @reactor b _ ha hstep _ =>
        rcases (Rpc.lifecycle_of_step hstep).evicts t ht hevicts with ht | ⟨hb, -⟩ | ⟨-, hdone⟩
        · exact hold ht
        · cases b with
          | onCancel => exact .inl (DialLog.mem_cancelled_note.mpr (.inr ha))
          | _ => cases hb
        · exact .inr hdone
    | entry _ hb hstep _ =>
        rcases (Rpc.lifecycle_of_step hstep).evicts t ht hevicts with ht | ⟨rfl, -⟩ | ⟨rfl, -⟩
        · exact hold ht
        · rcases hb with ⟨hb, -⟩ | ⟨f, hb⟩ <;> cases hb
        · rcases hb with ⟨hb, -⟩ | ⟨f, hb⟩ <;> cases hb
  case current =>
    exact fun sk i => current_step hs htable hl halive h

theorem logged_of_trace {node : Node N} {maxFrames hwm lwm : Nat}
    {log : List (ServerAction × ServerEvent)} {s : Server N}
    (h : Trace (StepsWhere (fun s a => s.registersAlive a = true) (logged step))
      (init node maxFrames hwm lwm) log s) : Logged (dialLog log) s := by
  refine Trace.invariant (P := fun log s => Logged (dialLog log) s) ?_ ?_ h
  · refine ⟨nofun, fun i t ht => ?_, nofun⟩
    cases ht
  · rintro log s ⟨a, e⟩ s' hprev hl ⟨a', halive, hstep⟩
    obtain ⟨rfl, hstep⟩ := step_of_logged hstep
    rw [dialLog_concat]
    exact logged_step (dials_of_trace hprev.unlogged) (tableInv_of_trace hprev.unlogged) hl
      halive hstep

/-- No registration by a dial that its client has cancelled supersedes one that its
client has not, and a push for a key with a current dial in use reaches a stream that
is not cancelled. -/
structure NeverDisplaced (log : List (ServerAction × ServerEvent)) (s : Server N) : Prop where
  supersedes : ∀ before a i j sk after,
    log = before ++ (a, .registered i sk (some j)) :: after →
      i ∈ (dialLog before).cancelled → j ∈ (dialLog before).cancelled
  reached : ∀ sk i, (dialLog log).current sk = some i → i ∉ (dialLog log).cancelled →
    (s.rpcs i).done = false → ∃ j, s.subscribers[sk]? = some j ∧
      j ∉ (dialLog log).cancelled ∧ (s.rpcs j).reactor.cancelled = false

/-- While every reactor that registers is not cancelled, a dead dial never displaces
a live one. -/
theorem never_displaced {node : Node N} {maxFrames hwm lwm : Nat}
    {log : List (ServerAction × ServerEvent)} {s : Server N}
    (h : Trace (StepsWhere (fun s a => s.registersAlive a = true) (logged step))
      (init node maxFrames hwm lwm) log s) : NeverDisplaced log s := by
  constructor
  case supersedes =>
    rintro before a i j sk after rfl hi
    obtain ⟨m, hm, hrest⟩ := h.split
    have hrest : Trace _ m ([(a, .registered i sk (some j))] ++ after) s := hrest
    obtain ⟨m', hsingle, -⟩ := hrest.split
    obtain ⟨a', halive, hstep⟩ := hsingle.of_single
    obtain ⟨rfl, hstep⟩ := step_of_logged hstep
    obtain ⟨halone, -⟩ := not_cancelled_of_registered (dials_of_trace hm.unlogged)
      (logged_of_trace hm) halive hstep
    exact absurd hi halone
  case reached =>
    intro sk i hcurrent hi hdone
    obtain ⟨hentry, hflag⟩ := (logged_of_trace h).current sk i hcurrent hi hdone
    exact ⟨i, hentry, hi, hflag⟩

/-- A subscriber dials twice.  The first dial is cancelled after it has passed the gate
and registers after the second one. -/
def deadDial : List ServerAction :=
  [.startGrpcServer true, .streamParticipants, .streamParticipants,
    .reactor 0 (.onReadDone (some ⟨4, 5, 6⟩)), .reactor 0 (.run 0 true []),
    .reactor 1 (.onReadDone (some ⟨4, 5, 6⟩)), .reactor 1 (.run 0 true []),
    .reactor 1 (.run 0 true []), .reactor 0 .onCancel, .reactor 0 (.run 1 true [])]

theorem never_displaced_dead_dial_fails :
    ∃ before a s, exec (logged step) (init (Node.fresh ⟨1, 2, 3⟩ {}) 4 3 1 : Server 1) deadDial =
        some (before ++ [(a, .registered 0 ⟨4, 5, 6⟩ (some 1))], s) ∧
      (dialLog before).cancelled = [0] ∧ s.subscribers[(⟨4, 5, 6⟩ : SubscriberKey)]? = some 0 ∧
      (s.rpcs 0).reactor.isLive = false ∧
      ¬ NeverDisplaced (before ++ [(a, .registered 0 ⟨4, 5, 6⟩ (some 1))]) s := by
  have hrun : (exec (logged step) (init (Node.fresh ⟨1, 2, 3⟩ {}) 4 3 1 : Server 1)
      deadDial).map (fun p => (p.1.getLast?.map Prod.snd, (dialLog p.1.dropLast).cancelled,
        p.2.subscribers[(⟨4, 5, 6⟩ : SubscriberKey)]?, (p.2.rpcs 0).reactor.isLive)) =
      some (some (.registered 0 ⟨4, 5, 6⟩ (some 1)), [0], some 0, false) := rfl
  obtain ⟨⟨log, s⟩, h, hp⟩ := Option.map_eq_some_iff.mp hrun
  simp only [Prod.mk.injEq] at hp
  obtain ⟨hlast, hcancelled, hentry, hlive⟩ := hp
  obtain ⟨⟨a, e⟩, hlast, he⟩ := Option.map_eq_some_iff.mp hlast
  obtain rfl : e = .registered 0 ⟨4, 5, 6⟩ (some 1) := he
  obtain ⟨before, rfl⟩ : ∃ before, log = before ++ [(a, .registered 0 ⟨4, 5, 6⟩ (some 1))] :=
    List.getLast?_eq_some_iff.mp hlast
  rw [List.dropLast_concat] at hcancelled
  refine ⟨before, a, s, h, hcancelled, hentry, hlive, fun hnever => ?_⟩
  have hdead := hnever.supersedes before a 0 1 _ [] rfl (by simp [hcancelled])
  simp [hcancelled] at hdead

def aliveDial : List ServerAction :=
  [.startGrpcServer true, .streamParticipants, .streamParticipants,
    .reactor 0 (.onReadDone (some ⟨4, 5, 6⟩)), .reactor 0 (.run 0 true []),
    .reactor 0 (.run 0 true []), .reactor 1 (.onReadDone (some ⟨4, 5, 6⟩)),
    .reactor 1 (.run 0 true []), .reactor 1 (.run 0 true []), .reactor 0 .onCancel,
    .reactor 0 (.run 0 true [])]

theorem isSome_exec_aliveDial :
    (exec (guarded registersAlive (logged step))
      (init (Node.fresh ⟨1, 2, 3⟩ {}) 4 3 1 : Server 1) aliveDial).isSome = true :=
  rfl

theorem never_displaced_alive_dial :
    ∃ log s, exec (guarded registersAlive (logged step))
        (init (Node.fresh ⟨1, 2, 3⟩ {}) 4 3 1 : Server 1) aliveDial = some (log, s) ∧
      NeverDisplaced log s := by
  obtain ⟨⟨log, s⟩, h⟩ := Option.isSome_iff_exists.mp isSome_exec_aliveDial
  exact ⟨log, s, h, never_displaced (trace_of_exec (fun _ _ _ => trivial) h).of_guarded⟩

end Server

end Edriel
