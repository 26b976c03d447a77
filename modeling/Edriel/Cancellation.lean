import Edriel.Lib.Interleaving
import Edriel.Reconcile

/-!
The reading thread of a dial and the threads that stop it: contexts that the reader makes,
publishes under `ctxMutex_`, uses and destroys, and `stop()`, which cancels the published one.
-/

namespace Edriel

open Proto3 Interleaving

/-- Why the reader leaves a context: stopped before its publication, no stream to be
opened, or a stream that is drained. -/
inductive Ending where
  | refused
  | writeFailed
  | drained (broken : Bool)
deriving DecidableEq

inductive ContextPoint where
  | unpublished
  | locked
  | refusing
  | passed
  | published
  | opening
  | writing
  | established
  | checking
  | reading
  | handling (frame : ParticipantData)
  | deadline (broken : Bool)
  | draining (broken : Bool)
  | finishing (broken : Bool)
  | leaving (ending : Ending)
  | clearing (ending : Ending)
  | cleared (ending : Ending)
  | ended (ending : Ending)

namespace ContextPoint

def holds : ContextPoint → Bool
  | .locked => true
  | .refusing => true
  | .passed => true
  | .published => true
  | .clearing _ => true
  | .cleared _ => true
  | _ => false

def inRpc : ContextPoint → Bool
  | .opening => true
  | .writing => true
  | .reading => true
  | .draining _ => true
  | .finishing _ => true
  | _ => false

/-- The reader has read `stop_` as unset and is about to publish the context. -/
def isPassed : ContextPoint → Bool
  | .passed => true
  | _ => false

def active : ContextPoint → Bool
  | .unpublished => false
  | .locked => false
  | .refusing => false
  | .passed => false
  | .cleared _ => false
  | .ended _ => false
  | _ => true

theorem active_of_inRpc {p : ContextPoint} (h : p.inRpc = true) : p.active = true := by
  cases p <;> first | rfl | cases h

end ContextPoint

/-- Where the reader is.  `rest` are the candidates that its pass has not tried yet, and
contexts are numbered. -/
inductive ReaderPoint where
  | unstarted
  | outer
  | candidate (rest : List Bytes)
  | connecting (target : Bytes) (rest : List Bytes)
  | redial (rest : List Bytes)
  | context (ctx : Nat) (rest : List Bytes) (p : ContextPoint)
  | advance (rest : List Bytes)
  | backoff
  | exited

namespace ReaderPoint

def holds : ReaderPoint → Bool
  | .context _ _ p => p.holds
  | _ => false

def isPassed : ReaderPoint → Bool
  | .context _ _ p => p.isPassed
  | _ => false

def ctx? : ReaderPoint → Option Nat
  | .context ctx _ _ => some ctx
  | _ => none

def active? : ReaderPoint → Option Nat
  | .context ctx _ p => if p.active then some ctx else none
  | _ => none

theorem ctx?_of_active? {p : ReaderPoint} {ctx : Nat} (h : p.active? = some ctx) :
    p.ctx? = some ctx := by
  cases p with
  | context c rest p =>
      rw [active?] at h
      split at h
      · exact h
      · cases h
  | _ => cases h

theorem holds_of_isPassed {p : ReaderPoint} (h : p.isPassed = true) : p.holds = true := by
  cases p with
  | context ctx rest p => cases p <;> first | rfl | cases h
  | _ => cases h

end ReaderPoint

inductive StopPoint where
  | idle
  | flagged
  | locked
  | cancelled
  | released
  | joining
  | returned
deriving DecidableEq

namespace StopPoint

def holds : StopPoint → Bool
  | .locked => true
  | .cancelled => true
  | _ => false

def hasCancelled : StopPoint → Bool
  | .idle => false
  | .flagged => false
  | .locked => false
  | _ => true

def hasReleased : StopPoint → Bool
  | .released => true
  | .joining => true
  | .returned => true
  | _ => false

theorem hasCancelled_of_hasReleased {p : StopPoint} (h : p.hasReleased = true) :
    p.hasCancelled = true := by
  cases p <;> first | rfl | cases h

end StopPoint

inductive CtxHolder where
  | reader
  | stopper (i : Nat)
deriving DecidableEq

/-- A connection with its threads.  Call `i` of `stop()` is at `stoppers i`; contexts from
`made` on do not exist yet. -/
structure ConnectionThreads where
  conn : ReliableSubscriberConnection
  stop : Bool := false
  activeCtx : Option Nat := none
  ctxMutex : Option CtxHolder := none
  joinable : Bool := false
  reader : ReaderPoint := .unstarted
  stoppers : Nat → StopPoint := fun _ => .idle
  made : Nat := 0
  cancelled : Finset Nat := ∅
  destroyed : Finset Nat := ∅

/-- A step of one thread.  `reply` is what the call of gRPC answers that the reader waits
in: a frame where a read succeeds, anything where another call does. -/
inductive ConnectionAction where
  | start
  | read (reply : Option ParticipantData)
  | stop (i : Nat)

inductive ConnectionEvent where
  | tryCancel (ctx : Nat)
  | wrote (heartbeat : SubscriberKey)
  | node (e : ReceiverEvent)
  | internal

namespace ConnectionThreads

def goto (s : ConnectionThreads) (p : ReaderPoint) : Option (ConnectionEvent × ConnectionThreads) :=
  some (.internal, { s with reader := p })

def afterContext (s : ConnectionThreads) (rest : List Bytes) : Ending → ReaderPoint
  | .refused => .advance rest
  | .writeFailed => .advance rest
  | .drained broken => if !s.stop && broken then .advance rest else .redial rest

/-- The body of the innermost loop of `run_`. -/
def contextStep (s : ConnectionThreads) (reply : Option ParticipantData) (ctx : Nat)
    (rest : List Bytes) : ContextPoint → Option (ConnectionEvent × ConnectionThreads)
  | .unpublished =>
      if s.ctxMutex = none then
        some (.internal,
          { s with ctxMutex := some .reader, reader := .context ctx rest .locked })
      else none
  | .locked => s.goto (.context ctx rest (if s.stop then .refusing else .passed))
  | .refusing =>
      some (.internal, { s with ctxMutex := none, reader := .context ctx rest (.ended .refused) })
  | .passed =>
      some (.internal,
        { s with activeCtx := some ctx, reader := .context ctx rest .published })
  | .published =>
      some (.internal, { s with ctxMutex := none, reader := .context ctx rest .opening })
  | .opening => s.goto (.context ctx rest .writing)
  | .writing =>
      match reply with
      | none => s.goto (.context ctx rest (.leaving .writeFailed))
      | some _ =>
          some (.wrote { pid := s.conn.selfPid, tid := s.conn.selfTid, uid := s.conn.selfUid },
            { s with reader := .context ctx rest .established })
  | .established =>
      some (.node (.established s.conn.publisher.uid),
        { s with reader := .context ctx rest .checking })
  | .checking => s.goto (.context ctx rest (if s.stop then .deadline false else .reading))
  | .reading =>
      match reply with
      | none => s.goto (.context ctx rest (.deadline true))
      | some frame => s.goto (.context ctx rest (.handling frame))
  | .handling frame =>
      some (.node (.frame frame), { s with reader := .context ctx rest .checking })
  | .deadline broken => s.goto (.context ctx rest (.draining broken))
  | .draining broken =>
      match reply with
      | none => s.goto (.context ctx rest (.finishing broken))
      | some _ => s.goto (.context ctx rest (.draining broken))
  | .finishing broken => s.goto (.context ctx rest (.leaving (.drained broken)))
  | .leaving ending =>
      if s.ctxMutex = none then
        some (.internal,
          { s with ctxMutex := some .reader, reader := .context ctx rest (.clearing ending) })
      else none
  | .clearing ending =>
      some (.internal,
        { s with activeCtx := none, reader := .context ctx rest (.cleared ending) })
  | .cleared ending =>
      some (.internal, { s with ctxMutex := none, reader := .context ctx rest (.ended ending) })
  | .ended ending =>
      -- the context goes out of scope
      some (.internal,
        { s with destroyed := insert ctx s.destroyed, reader := s.afterContext rest ending })

/-- `run_`, around the contexts. -/
def readStep (s : ConnectionThreads) (reply : Option ParticipantData) :
    Option (ConnectionEvent × ConnectionThreads) :=
  match s.reader with
  | .unstarted => none
  | .outer => s.goto (if s.stop then .exited else .candidate s.conn.candidates)
  | .candidate [] => s.goto .backoff
  | .candidate (target :: rest) => s.goto (if s.stop then .backoff else .connecting target rest)
  | .connecting target rest =>
      match reply with
      | none => s.goto (.candidate rest)
      | some _ =>
          some (.internal,
            { s with conn := { s.conn with connected := target }, reader := .redial rest })
  | .redial rest =>
      if s.stop then s.goto (.advance rest)
      else
        some (.internal,
          { s with made := s.made + 1, reader := .context s.made rest .unpublished })
  | .context ctx rest p => s.contextStep reply ctx rest p
  | .advance rest =>
      some (.internal,
        { s with
          conn := { s.conn with connected := [] }
          reader := if s.stop then .backoff else .candidate rest })
  | .backoff => s.goto .outer
  | .exited => none

def moveStopper (s : ConnectionThreads) (i : Nat) (p : StopPoint) : Nat → StopPoint :=
  Function.update s.stoppers i p

/-- `stop()`.  The join waits for the end of `run_`. -/
def stopStep (s : ConnectionThreads) (i : Nat) : Option (ConnectionEvent × ConnectionThreads) :=
  match s.stoppers i with
  | .idle => some (.internal, { s with stop := true, stoppers := s.moveStopper i .flagged })
  | .flagged =>
      if s.ctxMutex = none then
        some (.internal,
          { s with ctxMutex := some (.stopper i), stoppers := s.moveStopper i .locked })
      else none
  | .locked =>
      match s.activeCtx with
      | none => some (.internal, { s with stoppers := s.moveStopper i .cancelled })
      | some ctx =>
          some (.tryCancel ctx,
            { s with
              cancelled := insert ctx s.cancelled
              stoppers := s.moveStopper i .cancelled })
  | .cancelled =>
      some (.internal, { s with ctxMutex := none, stoppers := s.moveStopper i .released })
  | .released =>
      some (.internal,
        { s with stoppers := s.moveStopper i (if s.joinable then .joining else .returned) })
  | .joining =>
      match s.reader with
      | .exited =>
          some (.internal, { s with joinable := false, stoppers := s.moveStopper i .returned })
      | _ => none
  | .returned => none

def step (s : ConnectionThreads) : ConnectionAction → Option (ConnectionEvent × ConnectionThreads)
  | .start =>
      match s.reader with
      | .unstarted => some (.internal, { s with joinable := true, reader := .outer })
      | _ => none
  | .read reply => s.readStep reply
  | .stop i => s.stopStep i

/-- All that a step of the reader can be to the threads that stop it. -/
inductive Moved (s : ConnectionThreads) : ConnectionThreads → Prop
  | walk (conn : ReliableSubscriberConnection) (p : ReaderPoint)
      (hholds : p.holds = s.reader.holds) (hactive : p.active? = s.reader.active?)
      (hctx : p.ctx? = s.reader.ctx?) (hpassed : p.isPassed = true → s.stop = false) :
      Moved s { s with conn, reader := p }
  | lock (p : ReaderPoint) (hfree : s.ctxMutex = none) (hholds : p.holds = true)
      (hactive : p.active? = s.reader.active?) (hctx : p.ctx? = s.reader.ctx?)
      (hpassed : p.isPassed = false) :
      Moved s { s with ctxMutex := some .reader, reader := p }
  | unlock (p : ReaderPoint) (hheld : s.reader.holds = true) (hholds : p.holds = false)
      (hactive : p.active? = s.reader.active?) (hctx : p.ctx? = s.reader.ctx?)
      (hpassed : p.isPassed = false) :
      Moved s { s with ctxMutex := none, reader := p }
  | publish (ctx : Nat) (p : ReaderPoint) (hwas : s.reader.isPassed = true)
      (hheld : s.reader.holds = true) (hholds : p.holds = true) (hactive : p.active? = some ctx)
      (hctx : p.ctx? = s.reader.ctx?) (hpassed : p.isPassed = false) :
      Moved s { s with activeCtx := some ctx, reader := p }
  | clear (p : ReaderPoint) (hheld : s.reader.holds = true) (hholds : p.holds = true)
      (hactive : p.active? = none) (hctx : p.ctx? = s.reader.ctx?) (hpassed : p.isPassed = false) :
      Moved s { s with activeCtx := none, reader := p }
  | create (rest : List Bytes) (hheld : s.reader.holds = false)
      (hactive : s.reader.active? = none) :
      Moved s { s with made := s.made + 1, reader := .context s.made rest .unpublished }
  | destroy (ctx : Nat) (p : ReaderPoint) (hwas : s.reader.ctx? = some ctx)
      (hheld : s.reader.holds = false) (hactive : s.reader.active? = none)
      (hholds : p.holds = false) (hnone : p.active? = none) (hctx : p.ctx? = none)
      (hpassed : p.isPassed = false) :
      Moved s { s with destroyed := insert ctx s.destroyed, reader := p }

variable {s s' : ConnectionThreads} {e : ConnectionEvent}

theorem afterContext_outside (rest : List Bytes) (ending : Ending) :
    (s.afterContext rest ending).holds = false ∧ (s.afterContext rest ending).active? = none ∧
      (s.afterContext rest ending).ctx? = none ∧
      (s.afterContext rest ending).isPassed = false := by
  cases ending with
  | refused => exact ⟨rfl, rfl, rfl, rfl⟩
  | writeFailed => exact ⟨rfl, rfl, rfl, rfl⟩
  | drained broken =>
      rw [afterContext]
      split <;> exact ⟨rfl, rfl, rfl, rfl⟩

theorem moved_of_goto {p : ReaderPoint} (h : s.goto p = some (e, s'))
    (hholds : p.holds = s.reader.holds) (hactive : p.active? = s.reader.active?)
    (hctx : p.ctx? = s.reader.ctx?) (hpassed : p.isPassed = true → s.stop = false) :
    Moved s s' := by
  obtain ⟨-, rfl⟩ := Prod.mk.inj (Option.some.inj h)
  exact .walk s.conn p hholds hactive hctx hpassed

theorem moved_of_contextStep {reply : Option ParticipantData} {ctx : Nat} {rest : List Bytes}
    {p : ContextPoint} (hreader : s.reader = .context ctx rest p)
    (h : s.contextStep reply ctx rest p = some (e, s')) : Moved s s' := by
  obtain ⟨conn, stop, activeCtx, ctxMutex, joinable, reader, stoppers, made, cancelled,
    destroyed⟩ := s
  obtain rfl : reader = .context ctx rest p := hreader
  cases p with
  | unpublished =>
      simp only [contextStep] at h
      split at h
      · rename_i hfree
        obtain ⟨-, rfl⟩ := Prod.mk.inj (Option.some.inj h)
        exact .lock _ hfree rfl rfl rfl rfl
      · cases h
  | locked =>
      cases stop with
      | true => exact moved_of_goto h rfl rfl rfl nofun
      | false => exact moved_of_goto h rfl rfl rfl fun _ => rfl
  | refusing =>
      obtain ⟨-, rfl⟩ := Prod.mk.inj (Option.some.inj h)
      exact .unlock _ rfl rfl rfl rfl rfl
  | passed =>
      obtain ⟨-, rfl⟩ := Prod.mk.inj (Option.some.inj h)
      exact .publish ctx _ rfl rfl rfl rfl rfl rfl
  | published =>
      obtain ⟨-, rfl⟩ := Prod.mk.inj (Option.some.inj h)
      exact .unlock _ rfl rfl rfl rfl rfl
  | opening =>
      exact moved_of_goto h rfl rfl rfl nofun
  | writing =>
      cases reply with
      | none => exact moved_of_goto h rfl rfl rfl nofun
      | some _ =>
          obtain ⟨-, rfl⟩ := Prod.mk.inj (Option.some.inj h)
          exact .walk conn _ rfl rfl rfl nofun
  | established =>
      obtain ⟨-, rfl⟩ := Prod.mk.inj (Option.some.inj h)
      exact .walk conn _ rfl rfl rfl nofun
  | checking =>
      cases stop with
      | true => exact moved_of_goto h rfl rfl rfl nofun
      | false => exact moved_of_goto h rfl rfl rfl nofun
  | reading =>
      cases reply with
      | none => exact moved_of_goto h rfl rfl rfl nofun
      | some frame => exact moved_of_goto h rfl rfl rfl nofun
  | handling frame =>
      obtain ⟨-, rfl⟩ := Prod.mk.inj (Option.some.inj h)
      exact .walk conn _ rfl rfl rfl nofun
  | deadline broken =>
      exact moved_of_goto h rfl rfl rfl nofun
  | draining broken =>
      cases reply with
      | none => exact moved_of_goto h rfl rfl rfl nofun
      | some _ => exact moved_of_goto h rfl rfl rfl nofun
  | finishing broken =>
      exact moved_of_goto h rfl rfl rfl nofun
  | leaving ending =>
      simp only [contextStep] at h
      split at h
      · rename_i hfree
        obtain ⟨-, rfl⟩ := Prod.mk.inj (Option.some.inj h)
        exact .lock _ hfree rfl rfl rfl rfl
      · cases h
  | clearing ending =>
      obtain ⟨-, rfl⟩ := Prod.mk.inj (Option.some.inj h)
      exact .clear _ rfl rfl rfl rfl rfl
  | cleared ending =>
      obtain ⟨-, rfl⟩ := Prod.mk.inj (Option.some.inj h)
      exact .unlock _ rfl rfl rfl rfl rfl
  | ended ending =>
      obtain ⟨-, rfl⟩ := Prod.mk.inj (Option.some.inj h)
      obtain ⟨hholds, hactive, hctx, hpassed⟩ := afterContext_outside rest ending
      exact .destroy ctx _ rfl rfl rfl hholds hactive hctx hpassed

theorem moved_of_readStep {reply : Option ParticipantData}
    (h : s.readStep reply = some (e, s')) : Moved s s' := by
  obtain ⟨conn, stop, activeCtx, ctxMutex, joinable, reader, stoppers, made, cancelled,
    destroyed⟩ := s
  cases reader with
  | unstarted => cases h
  | outer =>
      cases stop with
      | true => exact moved_of_goto h rfl rfl rfl nofun
      | false => exact moved_of_goto h rfl rfl rfl nofun
  | candidate rest =>
      cases rest with
      | nil => exact moved_of_goto h rfl rfl rfl nofun
      | cons target rest =>
          cases stop with
          | true => exact moved_of_goto h rfl rfl rfl nofun
          | false => exact moved_of_goto h rfl rfl rfl nofun
  | connecting target rest =>
      cases reply with
      | none => exact moved_of_goto h rfl rfl rfl nofun
      | some _ =>
          obtain ⟨-, rfl⟩ := Prod.mk.inj (Option.some.inj h)
          exact .walk _ _ rfl rfl rfl nofun
  | redial rest =>
      cases stop with
      | true => exact moved_of_goto h rfl rfl rfl nofun
      | false =>
          obtain ⟨-, rfl⟩ := Prod.mk.inj (Option.some.inj h)
          exact .create rest rfl rfl
  | context ctx rest p => exact moved_of_contextStep rfl h
  | advance rest =>
      obtain ⟨-, rfl⟩ := Prod.mk.inj (Option.some.inj h)
      cases stop with
      | true => exact .walk _ _ rfl rfl rfl nofun
      | false => exact .walk _ _ rfl rfl rfl nofun
  | backoff => exact moved_of_goto h rfl rfl rfl nofun
  | exited => cases h

/-- What holds between the reader and the calls of `stop()`, whatever their steps. -/
structure Inv (s : ConnectionThreads) : Prop where
  readerHolds : s.ctxMutex = some .reader ↔ s.reader.holds = true
  stopperHolds : ∀ i, s.ctxMutex = some (.stopper i) ↔ (s.stoppers i).holds = true
  active : s.activeCtx = s.reader.active?
  flagged : ∀ i, s.stoppers i ≠ .idle → s.stop = true
  hasCancelled : ∀ i, (s.stoppers i).hasCancelled = true →
    s.reader.isPassed = false ∧ ∀ ctx, s.reader.active? = some ctx → ctx ∈ s.cancelled
  live : ∀ ctx, s.reader.ctx? = some ctx → ctx < s.made ∧ ctx ∉ s.destroyed
  destroyed : ∀ ctx ∈ s.destroyed, ctx < s.made

theorem inv_init (conn : ReliableSubscriberConnection) : Inv { conn } where
  readerHolds := ⟨nofun, nofun⟩
  stopperHolds := fun _ => ⟨nofun, nofun⟩
  active := rfl
  flagged := fun _ h => absurd rfl h
  hasCancelled := nofun
  live := nofun
  destroyed := fun ctx h => absurd h (Finset.notMem_empty ctx)

theorem Inv.stop_of_hasCancelled (h : s.Inv) {i : Nat}
    (hi : (s.stoppers i).hasCancelled = true) : s.stop = true := by
  apply h.flagged i
  intro hidle
  rw [hidle] at hi
  cases hi

theorem Inv.not_stopperHolds (h : s.Inv) (hreader : s.reader.holds = true) (i : Nat) :
    ¬ (s.stoppers i).holds = true := by
  rw [← h.stopperHolds, h.readerHolds.mpr hreader]
  exact nofun

theorem Inv.moved (h : s.Inv) (hmoved : Moved s s') : s'.Inv := by
  cases hmoved with
  | walk conn p hholds hactive hctx hpassed =>
      constructor
      · exact h.readerHolds.trans (by rw [hholds])
      · exact h.stopperHolds
      · exact h.active.trans hactive.symm
      · exact h.flagged
      · intro i hi
        refine ⟨?_, fun ctx hp => (h.hasCancelled i hi).2 ctx (hactive.symm.trans hp)⟩
        apply Bool.eq_false_iff.mpr
        intro hp
        have hstop := hpassed hp
        rw [h.stop_of_hasCancelled hi] at hstop
        cases hstop
      · exact fun ctx hp => h.live ctx (hctx.symm.trans hp)
      · exact h.destroyed
  | lock p hfree hholds hactive hctx hpassed =>
      constructor
      · exact iff_of_true rfl hholds
      · intro i
        refine iff_of_false nofun ?_
        rw [← h.stopperHolds, hfree]
        exact nofun
      · exact h.active.trans hactive.symm
      · exact h.flagged
      · exact fun i hi =>
          ⟨hpassed, fun ctx hp => (h.hasCancelled i hi).2 ctx (hactive.symm.trans hp)⟩
      · exact fun ctx hp => h.live ctx (hctx.symm.trans hp)
      · exact h.destroyed
  | unlock p hheld hholds hactive hctx hpassed =>
      constructor
      · exact iff_of_false nofun (Bool.eq_false_iff.mp hholds)
      · exact fun i => iff_of_false nofun (h.not_stopperHolds hheld i)
      · exact h.active.trans hactive.symm
      · exact h.flagged
      · exact fun i hi =>
          ⟨hpassed, fun ctx hp => (h.hasCancelled i hi).2 ctx (hactive.symm.trans hp)⟩
      · exact fun ctx hp => h.live ctx (hctx.symm.trans hp)
      · exact h.destroyed
  | publish ctx p hwas hheld hholds hactive hctx hpassed =>
      constructor
      · exact iff_of_true (h.readerHolds.mpr hheld) hholds
      · exact h.stopperHolds
      · exact hactive.symm
      · exact h.flagged
      · intro i hi
        rw [(h.hasCancelled i hi).1] at hwas
        cases hwas
      · exact fun c hp => h.live c (hctx.symm.trans hp)
      · exact h.destroyed
  | clear p hheld hholds hactive hctx hpassed =>
      constructor
      · exact iff_of_true (h.readerHolds.mpr hheld) hholds
      · exact h.stopperHolds
      · exact hactive.symm
      · exact h.flagged
      · refine fun i hi => ⟨hpassed, fun ctx hp => ?_⟩
        rw [hactive] at hp
        cases hp
      · exact fun c hp => h.live c (hctx.symm.trans hp)
      · exact h.destroyed
  | create rest hheld hactive =>
      constructor
      · exact h.readerHolds.trans (iff_of_false (Bool.eq_false_iff.mp hheld) nofun)
      · exact h.stopperHolds
      · exact h.active.trans hactive
      · exact h.flagged
      · exact fun i hi => ⟨rfl, nofun⟩
      · intro ctx hp
        obtain rfl : s.made = ctx := Option.some.inj hp
        refine ⟨Nat.lt_succ_self _, fun hdestroyed => ?_⟩
        exact Nat.lt_irrefl _ (h.destroyed _ hdestroyed)
      · exact fun ctx hdestroyed => Nat.lt_succ_of_lt (h.destroyed ctx hdestroyed)
  | destroy ctx p hwas hheld hactive hholds hnone hctx hpassed =>
      constructor
      · exact h.readerHolds.trans
          (iff_of_false (Bool.eq_false_iff.mp hheld) (Bool.eq_false_iff.mp hholds))
      · exact h.stopperHolds
      · exact h.active.trans (hactive.trans hnone.symm)
      · exact h.flagged
      · refine fun i hi => ⟨hpassed, fun c hp => ?_⟩
        rw [hnone] at hp
        cases hp
      · intro c hp
        rw [hctx] at hp
        cases hp
      · intro c hdestroyed
        rcases Finset.mem_insert.mp hdestroyed with rfl | hdestroyed
        · exact (h.live c hwas).1
        · exact h.destroyed c hdestroyed

theorem forall_moveStopper {i : Nat} {p : StopPoint} (P : Nat → StopPoint → Prop)
    (hself : P i p) (hothers : ∀ j, j ≠ i → P j (s.stoppers j)) :
    ∀ j, P j (s.moveStopper i p j) := by
  intro j
  rw [moveStopper, Function.update_apply]
  split
  · rename_i hj
    rw [hj]
    exact hself
  · exact hothers j ‹_›

theorem Inv.hasCancelled_moveStopper (h : s.Inv) {i : Nat} {p : StopPoint}
    (hself : p.hasCancelled = true → s.reader.isPassed = false ∧
      ∀ ctx, s.reader.active? = some ctx → ctx ∈ s.cancelled) :
    ∀ j, (s.moveStopper i p j).hasCancelled = true → s.reader.isPassed = false ∧
      ∀ ctx, s.reader.active? = some ctx → ctx ∈ s.cancelled :=
  forall_moveStopper (fun _ p => p.hasCancelled = true → s.reader.isPassed = false ∧
    ∀ ctx, s.reader.active? = some ctx → ctx ∈ s.cancelled) hself fun j _ => h.hasCancelled j

theorem Inv.stopperHolds_moveStopper (h : s.Inv) {i : Nat} {p : StopPoint}
    (hholds : p.holds = (s.stoppers i).holds) (j : Nat) :
    s.ctxMutex = some (.stopper j) ↔ (s.moveStopper i p j).holds = true :=
  forall_moveStopper (fun j p => s.ctxMutex = some (.stopper j) ↔ p.holds = true)
    (by rw [hholds]; exact h.stopperHolds i) (fun j _ => h.stopperHolds j) j

theorem Inv.not_readerHolds (h : s.Inv) {i : Nat} (hi : (s.stoppers i).holds = true) :
    s.reader.holds = false := by
  apply Bool.eq_false_iff.mpr
  rw [Ne, ← h.readerHolds, (h.stopperHolds i).mpr hi]
  exact nofun

theorem Inv.not_isPassed (h : s.Inv) {i : Nat} (hi : (s.stoppers i).holds = true) :
    s.reader.isPassed = false := by
  apply Bool.eq_false_iff.mpr
  intro hpassed
  have hholds := ReaderPoint.holds_of_isPassed hpassed
  rw [h.not_readerHolds hi] at hholds
  cases hholds

theorem Inv.moveStopper (h : s.Inv) {i : Nat} {p : StopPoint} (joinable : Bool)
    (hholds : p.holds = (s.stoppers i).holds) (hstop : s.stop = true)
    (hself : p.hasCancelled = true → s.reader.isPassed = false ∧
      ∀ ctx, s.reader.active? = some ctx → ctx ∈ s.cancelled) :
    ({ s with joinable, stoppers := s.moveStopper i p } : ConnectionThreads).Inv where
  readerHolds := h.readerHolds
  stopperHolds := h.stopperHolds_moveStopper hholds
  active := h.active
  flagged := fun _ _ => hstop
  hasCancelled := h.hasCancelled_moveStopper hself
  live := h.live
  destroyed := h.destroyed

theorem Inv.start (h : s.Inv) (hreader : s.reader = .unstarted) :
    ({ s with joinable := true, reader := .outer } : ConnectionThreads).Inv := by
  have hwalk : Moved s { s with conn := s.conn, reader := .outer } :=
    .walk s.conn .outer (by rw [hreader]; rfl) (by rw [hreader]; rfl) (by rw [hreader]; rfl) nofun
  have hinv := h.moved hwalk
  exact ⟨hinv.readerHolds, hinv.stopperHolds, hinv.active, hinv.flagged, hinv.hasCancelled,
    hinv.live, hinv.destroyed⟩

theorem Inv.flags (h : s.Inv) {i : Nat} (hpoint : s.stoppers i = .idle) :
    Inv { s with stop := true, stoppers := s.moveStopper i .flagged } := by
  constructor
  · exact h.readerHolds
  · exact h.stopperHolds_moveStopper (by rw [hpoint]; rfl)
  · exact h.active
  · exact fun _ _ => rfl
  · exact h.hasCancelled_moveStopper nofun
  · exact h.live
  · exact h.destroyed

theorem Inv.locks (h : s.Inv) {i : Nat} (hpoint : s.stoppers i = .flagged)
    (hfree : s.ctxMutex = none) :
    Inv { s with ctxMutex := some (.stopper i), stoppers := s.moveStopper i .locked } := by
  have hreader : ¬ s.reader.holds = true := by
    rw [← h.readerHolds, hfree]
    exact nofun
  have hothers : ∀ j, ¬ (s.stoppers j).holds = true := by
    intro j
    rw [← h.stopperHolds, hfree]
    exact nofun
  constructor
  · exact iff_of_false nofun hreader
  · refine forall_moveStopper
      (fun j p => some (.stopper i) = some (CtxHolder.stopper j) ↔ p.holds = true)
      (iff_of_true rfl rfl) fun j hj => iff_of_false ?_ (hothers j)
    exact fun heq => hj (CtxHolder.stopper.inj (Option.some.inj heq)).symm
  · exact h.active
  · exact fun _ _ => h.flagged i (by rw [hpoint]; nofun)
  · exact h.hasCancelled_moveStopper nofun
  · exact h.live
  · exact h.destroyed

theorem Inv.cancels (h : s.Inv) {i ctx : Nat} (hpoint : s.stoppers i = .locked)
    (hsome : s.activeCtx = some ctx) :
    Inv { s with
      cancelled := insert ctx s.cancelled
      stoppers := s.moveStopper i .cancelled } := by
  have hheld : (s.stoppers i).holds = true := by
    rw [hpoint]
    rfl
  constructor
  · exact h.readerHolds
  · exact h.stopperHolds_moveStopper hheld.symm
  · exact h.active
  · exact fun _ _ => h.flagged i (by rw [hpoint]; nofun)
  · -- what is published now is the context that has just been cancelled
    refine fun _ _ => ⟨h.not_isPassed hheld, fun c hc => ?_⟩
    have hsame : some ctx = some c := hsome.symm.trans (h.active.trans hc)
    rw [Option.some.inj hsame]
    exact Finset.mem_insert_self _ _
  · exact h.live
  · exact h.destroyed

theorem Inv.releases (h : s.Inv) {i : Nat} (hpoint : s.stoppers i = .cancelled) :
    Inv { s with ctxMutex := none, stoppers := s.moveStopper i .released } := by
  have hheld : (s.stoppers i).holds = true := by
    rw [hpoint]
    rfl
  have hmutex : s.ctxMutex = some (.stopper i) := (h.stopperHolds i).mpr hheld
  have hcancelled := h.hasCancelled i (by rw [hpoint]; rfl)
  constructor
  · exact iff_of_false nofun (Bool.eq_false_iff.mp (h.not_readerHolds hheld))
  · refine forall_moveStopper
      (fun j p => none = some (CtxHolder.stopper j) ↔ p.holds = true)
      (iff_of_false nofun nofun) fun j hj => iff_of_false nofun ?_
    rw [← h.stopperHolds, hmutex]
    exact fun heq => hj (CtxHolder.stopper.inj (Option.some.inj heq)).symm
  · exact h.active
  · exact fun _ _ => h.flagged i (by rw [hpoint]; nofun)
  · exact h.hasCancelled_moveStopper fun _ => hcancelled
  · exact h.live
  · exact h.destroyed

theorem Inv.stopStep (h : s.Inv) {i : Nat} (hstep : s.stopStep i = some (e, s')) : s'.Inv := by
  have hstop : s.stoppers i ≠ .idle → s.stop = true := h.flagged i
  rw [ConnectionThreads.stopStep] at hstep
  cases hpoint : s.stoppers i with
  | idle =>
      rw [hpoint] at hstep
      obtain ⟨-, rfl⟩ := Prod.mk.inj (Option.some.inj hstep)
      exact h.flags hpoint
  | flagged =>
      rw [hpoint] at hstep
      dsimp only at hstep
      split at hstep
      · rename_i hfree
        obtain ⟨-, rfl⟩ := Prod.mk.inj (Option.some.inj hstep)
        exact h.locks hpoint hfree
      · cases hstep
  | locked =>
      have hheld : (s.stoppers i).holds = true := by
        rw [hpoint]
        rfl
      rw [hpoint] at hstep hstop
      dsimp only at hstep
      split at hstep
      · rename_i hnone
        obtain ⟨-, rfl⟩ := Prod.mk.inj (Option.some.inj hstep)
        refine h.moveStopper s.joinable hheld.symm (hstop nofun) fun _ =>
          ⟨h.not_isPassed hheld, fun ctx hctx => ?_⟩
        rw [← h.active, hnone] at hctx
        cases hctx
      · rename_i ctx hsome
        obtain ⟨-, rfl⟩ := Prod.mk.inj (Option.some.inj hstep)
        exact h.cancels hpoint hsome
  | cancelled =>
      rw [hpoint] at hstep
      obtain ⟨-, rfl⟩ := Prod.mk.inj (Option.some.inj hstep)
      exact h.releases hpoint
  | released =>
      have hcancelled := h.hasCancelled i (by rw [hpoint]; rfl)
      rw [hpoint] at hstep hstop
      obtain ⟨-, rfl⟩ := Prod.mk.inj (Option.some.inj hstep)
      refine h.moveStopper s.joinable ?_ (hstop nofun) fun _ => hcancelled
      rw [hpoint]
      split <;> rfl
  | joining =>
      have hcancelled := h.hasCancelled i (by rw [hpoint]; rfl)
      rw [hpoint] at hstep hstop
      dsimp only at hstep
      split at hstep
      · obtain ⟨-, rfl⟩ := Prod.mk.inj (Option.some.inj hstep)
        exact h.moveStopper false (by rw [hpoint]; rfl) (hstop nofun) fun _ => hcancelled
      · cases hstep
  | returned =>
      rw [hpoint] at hstep
      cases hstep

theorem Inv.step (h : s.Inv) {a : ConnectionAction} (hstep : s.step a = some (e, s')) :
    s'.Inv := by
  cases a with
  | start =>
      rw [ConnectionThreads.step] at hstep
      split at hstep
      · obtain ⟨-, rfl⟩ := Prod.mk.inj (Option.some.inj hstep)
        exact h.start ‹_›
      · cases hstep
  | read reply => exact h.moved (moved_of_readStep hstep)
  | stop i => exact h.stopStep hstep

theorem inv_of_trace {conn : ReliableSubscriberConnection} {evs : List ConnectionEvent}
    (h : Trace (Steps step) { conn } evs s) : s.Inv := by
  refine Trace.invariant (P := fun _ s => s.Inv) (inv_init conn) ?_ h
  rintro evs s e s' - hinv ⟨a, -, hstep⟩
  exact hinv.step hstep

theorem not_tryCancel_of_contextStep {reply : Option ParticipantData} {ctx : Nat}
    {rest : List Bytes} {p : ContextPoint} (h : s.contextStep reply ctx rest p = some (e, s'))
    (c : Nat) : e ≠ .tryCancel c := by
  rintro rfl
  cases p with
  | unpublished =>
      simp only [contextStep] at h
      split at h <;> cases h
  | leaving ending =>
      simp only [contextStep] at h
      split at h <;> cases h
  | writing => cases reply <;> cases h
  | reading => cases reply <;> cases h
  | draining broken => cases reply <;> cases h
  | _ => cases h

theorem not_tryCancel_of_readStep {reply : Option ParticipantData}
    (h : s.readStep reply = some (e, s')) (c : Nat) : e ≠ .tryCancel c := by
  rw [readStep] at h
  split at h
  · cases h
  · rintro rfl
    cases h
  · rintro rfl
    cases h
  · rintro rfl
    cases h
  · rintro rfl
    cases reply <;> cases h
  · rintro rfl
    split at h <;> cases h
  · exact not_tryCancel_of_contextStep h c
  · rintro rfl
    cases h
  · rintro rfl
    cases h
  · cases h

/-- Only `stop()` cancels, and it cancels what is published. -/
theorem activeCtx_of_tryCancel {a : ConnectionAction} {ctx : Nat}
    (h : s.step a = some (.tryCancel ctx, s')) : s.activeCtx = some ctx := by
  cases a with
  | start =>
      rw [step] at h
      split at h <;> cases h
  | read reply => exact absurd rfl (not_tryCancel_of_readStep h ctx)
  | stop i =>
      rw [step, stopStep] at h
      split at h
      · cases h
      · split at h <;> cases h
      · split at h
        · cases h
        · obtain ⟨hevent, -⟩ := Prod.mk.inj (Option.some.inj h)
          rw [← ConnectionEvent.tryCancel.inj hevent]
          assumption
      · cases h
      · cases h
      · split at h <;> cases h
      · cases h

/-- A stop is never missed: when a call of `stop()` has given `ctxMutex_` up again, the reader
waits in no RPC whose context has not been cancelled.  Nobody cancels a context that does
not exist. -/
theorem stop_never_missed {conn : ReliableSubscriberConnection} {evs : List ConnectionEvent}
    (h : Trace (Steps step) { conn } evs s) :
    (∀ (i ctx : Nat) (rest : List Bytes) (p : ContextPoint),
      (s.stoppers i).hasReleased = true → s.reader = .context ctx rest p → p.inRpc = true →
        ctx ∈ s.cancelled) ∧
    ∀ (a : ConnectionAction) (ctx : Nat) (s' : ConnectionThreads),
      s.step a = some (.tryCancel ctx, s') → ctx < s.made ∧ ctx ∉ s.destroyed := by
  have hinv := inv_of_trace h
  constructor
  · intro i ctx rest p hreleased hreader hrpc
    apply (hinv.hasCancelled i (StopPoint.hasCancelled_of_hasReleased hreleased)).2
    rw [hreader, ReaderPoint.active?, ContextPoint.active_of_inRpc hrpc, if_pos rfl]
  · intro a ctx s' hstep
    apply hinv.live
    apply ReaderPoint.ctx?_of_active?
    rw [← hinv.active]
    exact activeCtx_of_tryCancel hstep

/-- `stop()` is called when the reader has found `stop_` unset and has not published its
context yet. -/
def stoppedMidway : List ConnectionAction :=
  .start :: (List.replicate 6 (.read (some {})) ++
    .stop 0 :: (List.replicate 2 (.read (some {})) ++ List.replicate 3 (.stop 0)))

theorem stop_never_missed_midway :
    ∃ evs s, exec step { conn := ⟨⟨4, 5, 6⟩, [[49]], 1, 2, 3, []⟩ } stoppedMidway =
        some (evs, s) ∧
      s.stoppers 0 = .released ∧ s.reader = .context 0 [] .opening ∧ 0 ∈ s.cancelled := by
  have hend : (exec step { conn := ⟨⟨4, 5, 6⟩, [[49]], 1, 2, 3, []⟩ } stoppedMidway).map
      (fun p => (p.2.stoppers 0, p.2.reader)) =
        some (.released, .context 0 [] .opening) := by
    rfl
  obtain ⟨⟨evs, s⟩, hrun, hpoints⟩ := Option.map_eq_some_iff.mp hend
  obtain ⟨hstopper, hreader⟩ := Prod.mk.inj hpoints
  have htrace := trace_of_exec (fun _ _ _ => trivial) hrun
  refine ⟨evs, s, hrun, hstopper, hreader, ?_⟩
  exact (stop_never_missed htrace).1 0 0 [] .opening (by rw [hstopper]; rfl) hreader rfl

end ConnectionThreads

end Edriel
