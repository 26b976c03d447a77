import Edriel.ReadLoop

namespace Edriel

open Proto3 Interleaving

inductive ActKind where
  | dials
  | opens
  | greets
  | tells
  | finishes
deriving DecidableEq

def ReaderAct.kind : ReaderAct → ActKind
  | .dials _ _ => .dials
  | .opens => .opens
  | .greets _ => .greets
  | .tells _ => .tells
  | .finishes => .finishes

/-- What the reader still does on its stream. -/
def ContextPoint.due : ContextPoint → List ActKind
  | .passed => [.opens, .greets, .tells, .finishes]
  | .published => [.opens, .greets, .tells, .finishes]
  | .opening => [.opens, .greets, .tells, .finishes]
  | .writing => [.greets, .tells, .finishes]
  | .established => [.tells, .finishes]
  | .reading => [.tells, .finishes]
  | .handling _ => [.tells, .finishes]
  | .checking => [.finishes]
  | .deadline _ => [.finishes]
  | .draining _ => [.finishes]
  | .finishing _ => [.finishes]
  | _ => []

def ReaderPoint.due : ReaderPoint → List ActKind
  | .connecting _ _ => [.dials]
  | .context _ _ p => p.due
  | _ => []

def ReaderPoint.quiet : ReaderPoint → Bool
  | .unstarted => true
  | .outer => true
  | .exited => true
  | _ => false

theorem ReaderPoint.due_of_quiet {p : ReaderPoint} (h : p.quiet = true) : p.due = [] := by
  cases p <;> first | rfl | cases h

theorem ContextPoint.due_sublist (p : ContextPoint) :
    p.due.Sublist [.opens, .greets, .tells, .finishes] := by
  cases p <;> simp [due]

theorem ReaderPoint.due_sublist (p : ReaderPoint) :
    p.due.Sublist [.dials] ∨ p.due.Sublist [.opens, .greets, .tells, .finishes] := by
  cases p with
  | connecting target rest => exact .inl (.refl _)
  | context ctx rest p => exact .inr p.due_sublist
  | _ => exact .inl (List.nil_sublist _)

namespace ConnectionThreads

variable {conn : ReliableSubscriberConnection} {s s' : ConnectionThreads}
  {reply : Option ParticipantData} {connected connected' : Bytes} {did : List ReaderAct}

theorem Within.due {p p' : ContextPoint} (h : Within conn true reply p did p') :
    (did.map ReaderAct.kind ++ p'.due).Sublist p.due := by
  cases h with
  | pass hstop => cases hstop
  | await hstop => cases hstop
  | unwritten => exact List.nil_sublist _
  | broke hreply => exact List.sublist_cons_self _ _
  | _ => exact List.Sublist.refl _

theorem Goes.due {p p' : ReaderPoint} (h : Goes conn true reply connected p did connected' p') :
    (did.map ReaderAct.kind ++ p'.due).Sublist p.due := by
  cases h with
  | within ctx rest hwithin => exact hwithin.due
  | dial target rest hstop => cases hstop
  | _ => exact List.Sublist.refl _

theorem Observed.due {a : ConnectionAction} (h : Observed s a did s') (hstop : s.stop = true) :
    s'.stop = true ∧ (did.map ReaderAct.kind ++ s'.reader.due).Sublist s.reader.due := by
  cases h with
  | start hreader =>
      refine ⟨hstop, ?_⟩
      rw [hreader]
      exact List.Sublist.refl _
  | read hgoes hbeside =>
      rw [hstop] at hgoes
      exact ⟨hbeside.stop.trans hstop, hgoes.due⟩
  | stop i hstopping =>
      obtain ⟨hreader, -, hflag⟩ := hstopping.reader
      refine ⟨hflag.elim (fun hsame => hsame.trans hstop) id, ?_⟩
      rw [hreader]
      exact List.Sublist.refl _

theorem due_of_trace {evs : List (List ReaderAct)} (hstop : s.stop = true)
    (h : Trace (Steps observed) s evs s') :
    s'.stop = true ∧
      (evs.flatten.map ReaderAct.kind ++ s'.reader.due).Sublist s.reader.due := by
  refine Trace.invariant (P := fun evs s' => s'.stop = true ∧
    (evs.flatten.map ReaderAct.kind ++ s'.reader.due).Sublist s.reader.due)
    ⟨hstop, List.Sublist.refl _⟩ ?_ h
  rintro evs m did s' - ⟨hset, hsub⟩ ⟨a, -, hstep⟩
  obtain ⟨hset', hsub'⟩ := (observed_of_step hstep).due hset
  refine ⟨hset', ?_⟩
  rw [List.flatten_append, List.flatten_singleton, List.map_append, List.append_assoc]
  exact ((List.Sublist.refl _).append hsub').trans hsub

structure Joined (s : ConnectionThreads) : Prop where
  unjoinable : s.joinable = false → s.reader = .unstarted ∨ s.reader = .exited
  started : s.joinable = true → s.reader ≠ .unstarted
  joining : ∀ i, s.stoppers i = .joining → s.reader ≠ .unstarted
  returned : ∀ i, s.stoppers i = .returned → s.reader.quiet = true

theorem Goes.ne_unstarted {stop : Bool} {p p' : ReaderPoint}
    (h : Goes conn stop reply connected p did connected' p') :
    p ≠ .unstarted ∧ p ≠ .exited ∧ p' ≠ .unstarted := by
  cases h <;> exact ⟨nofun, nofun, nofun⟩

theorem Goes.quiet {p p' : ReaderPoint} (h : Goes conn true reply connected p did connected' p')
    (hquiet : p.quiet = true) : p'.quiet = true := by
  cases h with
  | exit _ => rfl
  | scan hstop => cases hstop
  | _ => cases hquiet

theorem Joined.stopping (h : s.Joined) {i : Nat} {e : ConnectionEvent}
    (hstep : Stopping s i e s') : s'.Joined := by
  have hmoved : ∀ {t : ConnectionThreads} {p : StopPoint},
      (t.joinable = s.joinable ∨ t.joinable = false ∧ s.reader = .exited) →
      t.reader = s.reader → t.stoppers = s.moveStopper i p →
      (p = .joining → s.reader ≠ .unstarted) → (p = .returned → s.reader.quiet = true) →
        t.Joined := by
    intro t p hjoinable hreader hstoppers hjoining hreturned
    constructor
    · rw [hreader]
      intro hnot
      rcases hjoinable with hsame | ⟨-, hexited⟩
      · exact h.unjoinable (hsame.symm.trans hnot)
      · exact .inr hexited
    · rw [hreader]
      intro hjoin
      rcases hjoinable with hsame | ⟨hnot, -⟩
      · exact h.started (hsame.symm.trans hjoin)
      · cases hnot.symm.trans hjoin
    · rw [hstoppers, hreader]
      exact forall_moveStopper (fun _ p => p = .joining → s.reader ≠ .unstarted) hjoining
        fun j _ => h.joining j
    · rw [hstoppers, hreader]
      exact forall_moveStopper (fun _ p => p = .returned → s.reader.quiet = true) hreturned
        fun j _ => h.returned j
  cases hstep with
  | join hpoint hjoinable => exact hmoved (.inl rfl) rfl rfl (fun _ => h.started hjoinable) nofun
  | pass hpoint hjoinable =>
      refine hmoved (.inl rfl) rfl rfl nofun fun _ => ?_
      rcases h.unjoinable hjoinable with hreader | hreader
      · rw [hreader]
        rfl
      · rw [hreader]
        rfl
  | joined hpoint hreader =>
      refine hmoved (.inr ⟨rfl, hreader⟩) rfl rfl nofun fun _ => ?_
      rw [hreader]
      rfl
  | _ => exact hmoved (.inl rfl) rfl rfl nofun nofun

theorem Joined.observed {a : ConnectionAction} (h : s.Joined) (hinv : s.Inv)
    (hstep : Observed s a did s') : s'.Joined := by
  cases hstep with
  | start hreader =>
      constructor
      · nofun
      · nofun
      · nofun
      · exact fun _ _ => rfl
  | read hgoes hbeside =>
      obtain ⟨hfrom, hfrom', hto⟩ := hgoes.ne_unstarted
      constructor
      · rw [hbeside.joinable]
        intro hjoinable
        rcases h.unjoinable hjoinable with hreader | hreader
        · exact absurd hreader hfrom
        · exact absurd hreader hfrom'
      · exact fun _ => hto
      · exact fun _ _ => hto
      · rw [hbeside.stoppers]
        intro i hi
        have hstop : s.stop = true := hinv.flagged i (by rw [hi]; nofun)
        rw [hstop] at hgoes
        exact hgoes.quiet (h.returned i hi)
  | stop i hstop => exact h.stopping hstop

theorem unobserved_of_trace {evs : List (List ReaderAct)} (h : Trace (Steps observed) s evs s') :
    ∃ evs', Trace (Steps step) s evs' s' := by
  refine Trace.invariant (P := fun _ s' => ∃ evs', Trace (Steps step) s evs' s')
    ⟨[], .nil⟩ ?_ h
  rintro evs m did s' - ⟨evs', htrace⟩ ⟨a, -, hobserved⟩
  obtain ⟨⟨e, m'⟩, hstep, hp⟩ := Option.map_eq_some_iff.mp hobserved
  obtain ⟨-, rfl⟩ := Prod.mk.inj hp
  exact ⟨_, htrace.snoc ⟨a, trivial, hstep⟩⟩

theorem joined_of_trace {evs : List (List ReaderAct)} (h : Trace (Steps observed) { conn } evs s) :
    s.Joined := by
  refine Trace.invariant (P := fun _ s => s.Joined) ⟨fun _ => .inl rfl, nofun, nofun, nofun⟩ ?_ h
  rintro evs s did s' hprev hs ⟨a, -, hstep⟩
  obtain ⟨evs', htrace⟩ := unobserved_of_trace hprev
  exact hs.observed (inv_of_trace htrace) (observed_of_step hstep)

/-- Once a call of `stop()` has set the flag, the reader waits for one more endpoint at most or
goes on with the stream it is at: one stream, one heartbeat and one event for the node at most,
and the finish.  When a call has come back, nothing more is done at all. -/
theorem stopped_does_little {before evs : List (List ReaderAct)}
    (h : Trace (Steps observed) { conn } before s) (hstop : s.stop = true)
    (hrest : Trace (Steps observed) s evs s') :
    ((evs.flatten.map ReaderAct.kind).Sublist [.dials] ∨
      (evs.flatten.map ReaderAct.kind).Sublist [.opens, .greets, .tells, .finishes]) ∧
    ∀ i, s.stoppers i = .returned → evs.flatten = [] := by
  have hdue : (evs.flatten.map ReaderAct.kind).Sublist s.reader.due :=
    (List.sublist_append_left _ _).trans (due_of_trace hstop hrest).2
  refine ⟨s.reader.due_sublist.imp hdue.trans hdue.trans, fun i hi => ?_⟩
  rw [ReaderPoint.due_of_quiet ((joined_of_trace h).returned i hi), List.sublist_nil] at hdue
  exact List.map_eq_nil_iff.mp hdue

/-- The stream that was about to be opened is opened, drained and left, and the call of `stop()`
comes back. -/
def windsUp : List ConnectionAction :=
  List.replicate 5 (.read (some {})) ++ .read none :: (List.replicate 9 (.read none) ++
    List.replicate 2 (.stop 0))

theorem stopped_does_little_midway :
    ∃ before s evs s',
      exec observed { conn := ⟨⟨4, 5, 6⟩, [[49]], 1, 2, 3, []⟩ } stoppedMidway =
        some (before, s) ∧ exec observed s windsUp = some (evs, s') ∧
      s'.stoppers 0 = .returned ∧
      evs.flatten.map ReaderAct.kind = [.opens, .greets, .tells, .finishes] ∧
      ((evs.flatten.map ReaderAct.kind).Sublist [.dials] ∨
        (evs.flatten.map ReaderAct.kind).Sublist [.opens, .greets, .tells, .finishes]) ∧
      ∀ i, s.stoppers i = .returned → evs.flatten = [] := by
  have hbefore : (exec observed { conn := ⟨⟨4, 5, 6⟩, [[49]], 1, 2, 3, []⟩ } stoppedMidway).map
      (fun p => (p.2.stop, (exec observed p.2 windsUp).map fun q =>
        (q.2.stoppers 0, q.1.flatten.map ReaderAct.kind))) =
          some (true, some (.returned, [.opens, .greets, .tells, .finishes])) := by
    rfl
  obtain ⟨⟨before, s⟩, h, hp⟩ := Option.map_eq_some_iff.mp hbefore
  obtain ⟨hstop, hrest⟩ := Prod.mk.inj hp
  obtain ⟨⟨evs, s'⟩, h', hp'⟩ := Option.map_eq_some_iff.mp hrest
  obtain ⟨hreturned, hkinds⟩ := Prod.mk.inj hp'
  exact ⟨before, s, evs, s', h, h', hreturned, hkinds, stopped_does_little
    (trace_of_exec (fun _ _ _ => trivial) h) hstop (trace_of_exec (fun _ _ _ => trivial) h')⟩

end ConnectionThreads

/-- How many steps a stopped reader is from its end, drained frames aside. -/
def ContextPoint.work : ContextPoint → Nat
  | .unpublished => 8
  | .locked => 7
  | .refusing => 6
  | .passed => 17
  | .published => 16
  | .opening => 15
  | .writing => 14
  | .established => 13
  | .checking => 12
  | .reading => 14
  | .handling _ => 13
  | .deadline _ => 11
  | .draining _ => 10
  | .finishing _ => 9
  | .leaving _ => 8
  | .clearing _ => 7
  | .cleared _ => 6
  | .ended _ => 5

def ReaderPoint.work : ReaderPoint → Nat
  | .unstarted => 0
  | .exited => 0
  | .outer => 1
  | .backoff => 2
  | .candidate _ => 3
  | .advance _ => 3
  | .redial _ => 4
  | .connecting _ _ => 5
  | .context _ _ p => p.work

def StopPoint.work : StopPoint → Nat
  | .idle => 0
  | .flagged => 5
  | .locked => 4
  | .cancelled => 3
  | .released => 2
  | .joining => 1
  | .returned => 0

def ReaderPoint.isDraining : ReaderPoint → Bool
  | .context _ _ (.draining _) => true
  | _ => false

namespace ConnectionThreads

variable {conn : ReliableSubscriberConnection} {s s' : ConnectionThreads} {e : ConnectionEvent}
  {reply : Option ParticipantData} {connected connected' : Bytes} {did : List ReaderAct}

/-- Calls of `stop()` overlap neither each other nor `start()`: two threads at the same thread
object would be a race. -/
def OneCall (s : ConnectionThreads) : ConnectionAction → Prop
  | .start => ∀ i, s.stoppers i = .idle ∨ s.stoppers i = .returned
  | .read _ => True
  | .stop i => ∀ j, j ≠ i → s.stoppers j = .idle ∨ s.stoppers j = .returned

/-- The steps that wind the threads up: no new call of `stop()`, no late start, and no frame
is drained any more. -/
def Winding (s : ConnectionThreads) : ConnectionAction → Prop
  | .start => False
  | .read reply => s.reader.isDraining = true → reply = none
  | .stop i => s.stoppers i ≠ .idle

theorem Within.work {p p' : ContextPoint} (h : Within conn true reply p did p') :
    p'.work < p.work ∨ (∃ broken, p = .draining broken) ∧ reply ≠ none := by
  cases h with
  | drains broken hreply => exact .inr ⟨⟨broken, rfl⟩, hreply⟩
  | pass hstop => cases hstop
  | await hstop => cases hstop
  | _ => exact .inl (by simp only [ContextPoint.work]; omega)

theorem Goes.work {p p' : ReaderPoint} (h : Goes conn true reply connected p did connected' p') :
    p'.work < p.work ∨ p.isDraining = true ∧ reply ≠ none := by
  cases h with
  | within ctx rest hwithin =>
      rcases hwithin.work with hless | ⟨⟨broken, rfl⟩, hreply⟩
      · exact .inl hless
      · exact .inr ⟨rfl, hreply⟩
  | scan hstop => cases hstop
  | dial target rest hstop => cases hstop
  | create ctx rest hstop => cases hstop
  | broke ctx rest hstop => cases hstop
  | advance rest hstop => cases hstop
  | _ => exact .inl (by simp only [ReaderPoint.work, ContextPoint.work]; omega)

theorem Stopping.stoppers {i : Nat} (h : Stopping s i e s') :
    ∃ p, s'.stoppers = s.moveStopper i p ∧
      (s.stoppers i ≠ .idle → p.work < (s.stoppers i).work) := by
  cases h with
  | flag hidle => exact ⟨_, rfl, fun hactive => absurd hidle hactive⟩
  | lock hpoint => exact ⟨_, rfl, fun _ => by rw [hpoint]; decide⟩
  | spare hpoint => exact ⟨_, rfl, fun _ => by rw [hpoint]; decide⟩
  | cancel ctx hpoint => exact ⟨_, rfl, fun _ => by rw [hpoint]; decide⟩
  | release hpoint => exact ⟨_, rfl, fun _ => by rw [hpoint]; decide⟩
  | join hpoint hjoinable => exact ⟨_, rfl, fun _ => by rw [hpoint]; decide⟩
  | pass hpoint hjoinable => exact ⟨_, rfl, fun _ => by rw [hpoint]; decide⟩
  | joined hpoint hreader => exact ⟨_, rfl, fun _ => by rw [hpoint]; decide⟩

/-- Only finitely many calls of `stop()` are being made. -/
def CalledIn (s : ConnectionThreads) (calls : Finset Nat) : Prop :=
  ∀ i, s.stoppers i ≠ .idle → i ∈ calls

def work (s : ConnectionThreads) (calls : Finset Nat) : Nat :=
  s.reader.work + ∑ i ∈ calls, (s.stoppers i).work

/-- A step that winds up takes one from the work. -/
theorem work_of_step {calls : Finset Nat} {a : ConnectionAction} (hcalled : s.CalledIn calls)
    (hstop : s.stop = true) (hwinding : Winding s a) (hstep : s.step a = some (e, s')) :
    s'.work calls < s.work calls ∧ s'.CalledIn calls ∧ s'.stop = true := by
  cases a with
  | start => exact hwinding.elim
  | read reply =>
      obtain ⟨hgoes, hbeside⟩ := goes_of_readStep hstep
      rw [hstop] at hgoes
      have hless : s'.reader.work < s.reader.work := by
        rcases hgoes.work with hless | ⟨hdraining, hreply⟩
        · exact hless
        · exact absurd (hwinding hdraining) hreply
      refine ⟨?_, ?_, hbeside.stop.trans hstop⟩
      · rw [work, work, hbeside.stoppers]
        exact Nat.add_lt_add_right hless _
      · rw [CalledIn, hbeside.stoppers]
        exact hcalled
  | stop i =>
      have hstopping := stopping_of_stopStep hstep
      obtain ⟨hreader, -, hflag⟩ := hstopping.reader
      obtain ⟨p, hstoppers, hless⟩ := hstopping.stoppers
      replace hless := hless hwinding
      refine ⟨?_, ?_, hflag.elim (fun hsame => hsame.trans hstop) id⟩
      · rw [work, work, hreader, hstoppers]
        refine Nat.add_lt_add_left (Finset.sum_lt_sum ?_ ⟨i, hcalled i hwinding, ?_⟩) _
        · exact fun j _ => forall_moveStopper (fun j p => p.work ≤ (s.stoppers j).work) hless.le
            (fun j _ => le_rfl) j
        · rw [moveStopper, Function.update_self]
          exact hless
      · rw [CalledIn, hstoppers]
        exact forall_moveStopper (fun j p => p ≠ .idle → j ∈ calls) (fun _ => hcalled i hwinding)
          fun j _ => hcalled j

theorem length_add_work_le {calls : Finset Nat} {evs : List ConnectionEvent}
    (hcalled : s.CalledIn calls) (hstop : s.stop = true)
    (h : Trace (StepsWhere Winding step) s evs s') : evs.length + s'.work calls ≤ s.work calls := by
  have hall : (evs.length + s'.work calls ≤ s.work calls) ∧ s'.CalledIn calls ∧
      s'.stop = true := by
    refine Trace.invariant (P := fun evs s' => (evs.length + s'.work calls ≤ s.work calls) ∧
      s'.CalledIn calls ∧ s'.stop = true) ⟨?_, hcalled, hstop⟩ ?_ h
    · rw [List.length_nil, Nat.zero_add]
    · rintro evs m e s' - ⟨hle, hcalled, hstop⟩ ⟨a, hwinding, hstep⟩
      obtain ⟨hless, hcalled', hstop'⟩ := work_of_step hcalled hstop hwinding hstep
      refine ⟨?_, hcalled', hstop'⟩
      rw [List.length_append, List.length_singleton]
      omega
  exact hall.1

theorem calledIn_of_trace {evs : List ConnectionEvent} (h : Trace (Steps step) { conn } evs s) :
    ∃ calls, s.CalledIn calls := by
  refine Trace.invariant (P := fun _ s => ∃ calls, s.CalledIn calls)
    ⟨∅, fun i hi => absurd rfl hi⟩ ?_ h
  rintro evs s e s' - ⟨calls, hcalled⟩ ⟨a, -, hstep⟩
  cases a with
  | start =>
      rw [step] at hstep
      split at hstep
      · obtain ⟨-, rfl⟩ := Prod.mk.inj (Option.some.inj hstep)
        exact ⟨calls, hcalled⟩
      · cases hstep
  | read reply =>
      refine ⟨calls, ?_⟩
      rw [CalledIn, (goes_of_readStep hstep).2.stoppers]
      exact hcalled
  | stop i =>
      obtain ⟨p, hstoppers, -⟩ := (stopping_of_stopStep hstep).stoppers
      refine ⟨insert i calls, ?_⟩
      rw [CalledIn, hstoppers]
      exact forall_moveStopper (fun j p => p ≠ .idle → j ∈ insert i calls)
        (fun _ => Finset.mem_insert_self i calls)
        fun j _ hj => Finset.mem_insert_of_mem (hcalled j hj)

theorem stuck_of_contextStep {ctx : Nat} {rest : List Bytes} {p : ContextPoint}
    (h : s.contextStep none ctx rest p = none) : s.ctxMutex ≠ none ∧ p.holds = false := by
  cases p with
  | unpublished =>
      simp only [contextStep] at h
      split at h
      · cases h
      · exact ⟨‹_›, rfl⟩
  | leaving ending =>
      simp only [contextStep] at h
      split at h
      · cases h
      · exact ⟨‹_›, rfl⟩
  | _ => cases h

theorem stuck_of_readStep (h : s.readStep none = none) :
    s.reader = .unstarted ∨ s.reader = .exited ∨ s.ctxMutex ≠ none ∧ s.reader.holds = false := by
  obtain ⟨conn, stop, activeCtx, ctxMutex, joinable, reader, stoppers, made, cancelled,
    destroyed⟩ := s
  cases reader with
  | unstarted => exact .inl rfl
  | exited => exact .inr (.inl rfl)
  | context ctx rest p => exact .inr (.inr (stuck_of_contextStep h))
  | candidate rest => cases rest <;> cases h
  | redial rest => cases stop <;> cases h
  | _ => cases h

theorem stuck_of_stopStep {i : Nat} (h : s.stopStep i = none) :
    s.stoppers i = .returned ∨ s.ctxMutex ≠ none ∧ (s.stoppers i).holds = false ∨
      s.stoppers i = .joining ∧ s.reader ≠ .exited := by
  rw [stopStep] at h
  split at h
  · cases h
  · rename_i hpoint
    split at h
    · cases h
    · refine .inr (.inl ⟨‹_›, ?_⟩)
      rw [hpoint]
      rfl
  · split at h <;> cases h
  · cases h
  · cases h
  · split at h
    · cases h
    · exact .inr (.inr ⟨‹_›, ‹_›⟩)
  · exact .inl ‹_›

/-- Where no thread can go on, nobody holds the lock, and all have come to their ends. -/
theorem over_of_stuck (hinv : s.Inv) (hjoined : s.Joined)
    (hstuck : ∀ a, Winding s a → s.step a = none) :
    (∀ i, s.stoppers i = .idle ∨ s.stoppers i = .returned) ∧
      (s.reader = .unstarted ∨ s.reader = .exited) := by
  have hread := stuck_of_readStep (hstuck (.read none) fun _ => rfl)
  have hcall : ∀ i, s.stoppers i ≠ .idle → s.stoppers i = .returned ∨
      s.ctxMutex ≠ none ∧ (s.stoppers i).holds = false ∨
        s.stoppers i = .joining ∧ s.reader ≠ .exited :=
    fun i hi => stuck_of_stopStep (hstuck (.stop i) hi)
  have hfree : s.ctxMutex = none := by
    cases hmutex : s.ctxMutex with
    | none => rfl
    | some holder =>
        cases holder with
        | reader =>
            have hholds := hinv.readerHolds.mp hmutex
            rcases hread with hreader | hreader | ⟨-, hnot⟩
            · rw [hreader] at hholds
              cases hholds
            · rw [hreader] at hholds
              cases hholds
            · cases hholds.symm.trans hnot
        | stopper i =>
            have hholds := (hinv.stopperHolds i).mp hmutex
            rcases hcall i (fun hidle => by rw [hidle] at hholds; cases hholds) with
              hpoint | ⟨-, hnot⟩ | ⟨hpoint, -⟩
            · rw [hpoint] at hholds
              cases hholds
            · cases hholds.symm.trans hnot
            · rw [hpoint] at hholds
              cases hholds
  have hreader : s.reader = .unstarted ∨ s.reader = .exited := by
    rcases hread with hreader | hreader | ⟨hheld, -⟩
    · exact .inl hreader
    · exact .inr hreader
    · exact absurd hfree hheld
  refine ⟨fun i => ?_, hreader⟩
  by_cases hidle : s.stoppers i = .idle
  · exact .inl hidle
  · rcases hcall i hidle with hpoint | ⟨hheld, -⟩ | ⟨hpoint, hnot⟩
    · exact .inr hpoint
    · exact absurd hfree hheld
    · exact absurd (hreader.resolve_right hnot) (hjoined.joining i hpoint)

theorem joined_of_steps {evs : List ConnectionEvent} (h : Trace (Steps step) { conn } evs s) :
    s.Joined := by
  have hobserved : ∃ log, Trace (Steps observed) { conn } log s := by
    refine Trace.invariant (P := fun _ s => ∃ log, Trace (Steps observed) { conn } log s)
      ⟨[], .nil⟩ ?_ h
    rintro evs m e s' - ⟨log, htrace⟩ ⟨a, -, hstep⟩
    have hseen : m.observed a = some (m.acts a ++ e.acts, s') := by
      rw [observed, hstep, Option.map_some]
    exact ⟨_, htrace.snoc ⟨a, trivial, hseen⟩⟩
  obtain ⟨log, htrace⟩ := hobserved
  exact joined_of_trace htrace

/-- Once it is called, `stop()` comes back: whatever the schedule, the threads make only so many
more steps, and where none of them can go on the reader is gone and every call has returned. -/
theorem stop_comes_back {before : List ConnectionEvent}
    (h : Trace (StepsWhere OneCall step) { conn } before s) (hstop : s.stop = true) :
    ∃ bound, ∀ (evs : List ConnectionEvent) (s' : ConnectionThreads),
      Trace (StepsWhere Winding step) s evs s' → evs.length ≤ bound ∧
        ((∀ a, Winding s' a → s'.step a = none) →
          (∀ i, s'.stoppers i = .idle ∨ s'.stoppers i = .returned) ∧
            (s'.reader = .unstarted ∨ s'.reader = .exited)) := by
  have hbefore := h.unrestricted
  obtain ⟨calls, hcalled⟩ := calledIn_of_trace hbefore
  refine ⟨s.work calls, fun evs s' hrest => ⟨?_, fun hstuck => ?_⟩⟩
  · exact (Nat.le_add_right _ _).trans (length_add_work_le hcalled hstop hrest)
  · have hwhole := hbefore.append hrest.unrestricted
    exact over_of_stuck (inv_of_trace hwhole) (joined_of_steps hwhole) hstuck

theorem oneCall_of_step {a : ConnectionAction} (hcalls : ∀ j, j ≠ 0 → s.stoppers j = .idle)
    (ha : a = .stop 0 ∨ ∃ reply, a = .read reply) (hstep : s.step a = some (e, s')) :
    OneCall s a ∧ ∀ j, j ≠ 0 → s'.stoppers j = .idle := by
  rcases ha with rfl | ⟨reply, rfl⟩
  · obtain ⟨p, hstoppers, -⟩ := (stopping_of_stopStep hstep).stoppers
    refine ⟨fun j hj => .inl (hcalls j hj), ?_⟩
    rw [hstoppers]
    exact forall_moveStopper (fun j p => j ≠ 0 → p = .idle) (fun h => absurd rfl h)
      fun j _ => hcalls j
  · refine ⟨trivial, ?_⟩
    rw [(goes_of_readStep hstep).2.stoppers]
    exact hcalls

theorem stop_comes_back_midway :
    ∃ before s, Trace (StepsWhere OneCall step) { conn := ⟨⟨4, 5, 6⟩, [[49]], 1, 2, 3, []⟩ }
        before s ∧ s.stoppers 0 = .released ∧ s.reader = .context 0 [] .opening ∧
      ∃ bound, ∀ (evs : List ConnectionEvent) (s' : ConnectionThreads),
        Trace (StepsWhere Winding step) s evs s' → evs.length ≤ bound ∧
          ((∀ a, Winding s' a → s'.step a = none) →
            (∀ i, s'.stoppers i = .idle ∨ s'.stoppers i = .returned) ∧
              (s'.reader = .unstarted ∨ s'.reader = .exited)) := by
  let conn : ReliableSubscriberConnection := ⟨⟨4, 5, 6⟩, [[49]], 1, 2, 3, []⟩
  have hfirst : Trace (StepsWhere OneCall step) { conn } [.internal]
      { conn, joinable := true, reader := .outer } :=
    .single ⟨.start, fun _ => .inl rfl, rfl⟩
  have hend : (exec step { conn, joinable := true, reader := .outer } stoppedMidway.tail).map
      (fun p => (p.2.stop, p.2.stoppers 0, p.2.reader)) =
        some (true, .released, .context 0 [] .opening) := by
    rfl
  obtain ⟨⟨before, s⟩, hrun, hp⟩ := Option.map_eq_some_iff.mp hend
  obtain ⟨hstop, hp⟩ := Prod.mk.inj hp
  obtain ⟨hpoint, hreader⟩ := Prod.mk.inj hp
  have hactions : ∀ a ∈ stoppedMidway.tail, a = .stop 0 ∨ ∃ reply, a = .read reply := by
    simp [stoppedMidway, List.replicate]
  have hrest : Trace (StepsWhere OneCall step) { conn, joinable := true, reader := .outer }
      before s :=
    trace_of_exec_of_kept (fun s => ∀ j, j ≠ 0 → s.stoppers j = .idle)
      (fun a ha _ _ _ hs hstep => oneCall_of_step hs (hactions a ha) hstep) (fun _ _ => rfl) hrun
  have hbefore := hfirst.append hrest
  exact ⟨_, s, hbefore, hpoint, hreader, stop_comes_back hbefore hstop⟩

end ConnectionThreads

end Edriel
