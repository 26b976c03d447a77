import Edriel.Server

namespace Edriel

open Std Interleaving

universe u

def Task.registers {F : Type u} : Task F → Bool
  | .gate => true
  | .register => true
  | _ => false

namespace Rpc
variable {F : Type u}

/-- Only a stream whose dialer has named itself is on its way into the table. -/
def Named (s : Rpc F) : Prop :=
  s.reactor.initialised = false → ∀ t ∈ s.tasks, t.registers = false

theorem reactor_enqueue_identity (r : SubscriberReactor F) (f : F) :
    (r.enqueue f).2.initialised = r.initialised ∧ (r.enqueue f).2.key = r.key := by
  rw [SubscriberReactor.enqueue]
  split_ifs <;> exact ⟨rfl, rfl⟩

theorem identity_runTask (s : Rpc F) (rest : List (Task F)) (answer : Answer F) (t : Task F) :
    (s.runTask rest answer t).2.reactor.initialised = s.reactor.initialised ∧
      (s.runTask rest answer t).2.reactor.key = s.reactor.key ∧
      ∀ t' ∈ (s.runTask rest answer t).2.tasks, t'.registers = true →
        t.registers = true ∨ t' ∈ rest := by
  have hafter : ∀ (after : After F), ∀ t' ∈ after.tasks ++ rest, t'.registers = true →
      t.registers = true ∨ t' ∈ rest := by
    intro after t' ht' hreg
    rcases List.mem_append.mp ht' with ht' | ht'
    · cases after with
      | done => cases ht'
      | resume => obtain rfl := List.mem_singleton.mp ht'; cases hreg
      | presence fs => obtain rfl := List.mem_singleton.mp ht'; cases hreg
    · exact .inr ht'
  have hcons : ∀ x : Task F, x.registers = false → ∀ t' ∈ x :: rest, t'.registers = true →
      t.registers = true ∨ t' ∈ rest := by
    intro x hx t' ht' hreg
    rcases List.mem_cons.mp ht' with rfl | ht'
    · rw [hx] at hreg
      cases hreg
    · exact .inr ht'
  cases t with
  | startWrite after =>
      cases hw : s.reactor.startWrite with
      | none =>
          simp only [runTask, hw]
          exact ⟨trivial, trivial, hafter after⟩
      | some p =>
          obtain ⟨f, r⟩ := p
          obtain ⟨-, -, fs, -, rfl⟩ := startWrite_eq_some hw
          simp only [runTask, hw]
          exact ⟨trivial, trivial, hcons _ rfl⟩
  | issueWrite after => exact ⟨rfl, rfl, hafter after⟩
  | resume =>
      refine ⟨?_, ?_, ?_⟩
      · rw [runTask, SubscriberReactor.resume]
        dsimp only
        split <;> rfl
      · rw [runTask, SubscriberReactor.resume]
        dsimp only
        split <;> rfl
      · rw [runTask]
        dsimp only
        split
        · exact hcons _ rfl
        · exact fun t' ht' _ => .inr ht'
  | gate => exact ⟨rfl, rfl, fun _ _ _ => .inl rfl⟩
  | register => exact ⟨rfl, rfl, fun _ _ _ => .inl rfl⟩
  | snapshot => exact ⟨rfl, rfl, hcons _ rfl⟩
  | presence frames =>
      cases frames with
      | nil => exact ⟨rfl, rfl, fun t' ht' _ => .inr ht'⟩
      | cons f fs =>
          obtain ⟨hinit, hkey⟩ := reactor_enqueue_identity s.reactor f
          refine ⟨hinit, hkey, ?_⟩
          rw [runTask, afterEnqueue]
          dsimp only
          split
          · exact hcons _ rfl
          · exact hafter _
  | teardownStatus => exact ⟨rfl, rfl, hcons _ rfl⟩
  | finish status =>
      rw [runTask]
      split
      · exact ⟨rfl, rfl, fun t' ht' _ => .inr ht'⟩
      · exact ⟨rfl, rfl, hcons _ rfl⟩
  | issueFinish status => exact ⟨rfl, rfl, fun t' ht' _ => .inr ht'⟩
  | unregister => exact ⟨rfl, rfl, fun t' ht' _ => .inr ht'⟩

theorem registers_of_register (s : Rpc F) (rest : List (Task F)) (answer : Answer F)
    {t : Task F} {sk : SubscriberKey} (h : (s.runTask rest answer t).1 = .register sk) :
    t.registers = true ∧ sk = s.reactor.key := by
  cases t with
  | register => exact ⟨rfl, (RpcEvent.register.inj h).symm⟩
  | startWrite after =>
      rw [runTask] at h
      split at h <;> cases h
  | presence frames => cases frames <;> cases h
  | finish status =>
      rw [runTask] at h
      split at h <;> cases h
  | _ => cases h

theorem Named.quiet {s s' : Rpc F} (hnamed : s.Named) (tasks : List (Task F))
    (hinit : s'.reactor.initialised = s.reactor.initialised)
    (hkey : s'.reactor.key = s.reactor.key) (htasks : s'.tasks = tasks ++ s.tasks)
    (hnone : ∀ t ∈ tasks, t.registers = false) :
    s'.Named ∧ (s.reactor.initialised = true →
      s'.reactor.initialised = true ∧ s'.reactor.key = s.reactor.key) := by
  refine ⟨fun hnew t ht => ?_, fun hold => ⟨hinit.trans hold, hkey⟩⟩
  rw [htasks] at ht
  rcases List.mem_append.mp ht with ht | ht
  · exact hnone t ht
  · exact hnamed (hinit.symm.trans hnew) t ht

/-- A stream keeps the identity that its first heartbeat gave it, and registers
under no other. -/
theorem named_of_step {s s' : Rpc F} {a : RpcAction F} {e : RpcEvent F}
    (h : s.step a = some (e, s')) (hnamed : s.Named) :
    (s'.Named ∧ (s.reactor.initialised = true →
      s'.reactor.initialised = true ∧ s'.reactor.key = s.reactor.key)) ∧
    ∀ sk, e = .register sk → s.reactor.initialised = true ∧ sk = s.reactor.key := by
  cases stepped_of_step h with
  | enqueue f =>
      obtain ⟨hinit, hkey⟩ := reactor_enqueue_identity s.reactor f
      refine ⟨hnamed.quiet _ hinit hkey rfl ?_, by simp⟩
      rw [afterEnqueue]
      split <;> simp [Task.registers, After.tasks]
  | onWriteDone ok hwrites =>
      refine ⟨hnamed.quiet _ rfl rfl rfl ?_, by simp⟩
      split_ifs <;> simp [Task.registers]
  | onReadFailed hreads =>
      refine ⟨?_, by simp⟩
      rw [onReadFailed]
      split_ifs
      · exact hnamed.quiet [] rfl rfl rfl (List.forall_mem_nil _)
      · exact hnamed.quiet [] rfl rfl rfl (List.forall_mem_nil _)
      · exact hnamed.quiet [.teardownStatus] rfl rfl rfl (by simp [Task.registers])
      · exact hnamed.quiet [.startWrite .done] rfl rfl rfl (by simp [Task.registers])
  | onHeartbeat key hreads =>
      refine ⟨?_, by simp⟩
      rw [onHeartbeat]
      split
      · exact hnamed.quiet [.presence []] rfl rfl rfl (by simp [Task.registers])
      · rename_i hfirst
        exact ⟨(fun hnew => by cases hnew), fun hold => absurd hold hfirst⟩
  | onCancel =>
      refine ⟨?_, by simp⟩
      rw [onCancel]
      split
      · exact hnamed.quiet [] rfl rfl rfl (List.forall_mem_nil _)
      · refine hnamed.quiet _ rfl rfl rfl ?_
        split <;> simp [Task.registers]
  | onDone hfinishes hreads =>
      refine ⟨hnamed.quiet _ rfl rfl rfl ?_, by simp⟩
      split <;> simp [Task.registers]
  | supersede => exact ⟨hnamed.quiet [] rfl rfl rfl (List.forall_mem_nil _), by simp⟩
  | @run i t rest answer hpick =>
      obtain ⟨hinit, hkey, htasks⟩ := identity_runTask s rest answer t
      refine ⟨⟨fun hnew t' ht' => ?_, fun hold => ⟨hinit.trans hold, hkey⟩⟩, fun sk he => ?_⟩
      · have hold := hnamed (hinit.symm.trans hnew)
        by_contra hreg
        rcases htasks t' ht' (by simpa using hreg) with ht | hrest
        · have := hold t ((mem_of_pick hpick).mpr (.inl rfl))
          rw [ht] at this
          cases this
        · exact hreg (hold t' ((mem_of_pick hpick).mpr (.inr hrest)))
      · obtain ⟨hreg, hsk⟩ := registers_of_register s rest answer he
        refine ⟨?_, hsk⟩
        by_contra hnew
        have := hnamed (by simpa using hnew) t ((mem_of_pick hpick).mpr (.inl rfl))
        rw [hreg] at this
        cases this

theorem named_of_trace {s s' : Rpc F} {evs : List (RpcEvent F)}
    (h : Trace (Steps step) s evs s') (hnamed : s.Named) :
    s'.Named ∧
      (s.reactor.initialised = true →
        s'.reactor.initialised = true ∧ s'.reactor.key = s.reactor.key) ∧
      ∀ sk, .register sk ∈ evs →
        s'.reactor.initialised = true ∧ s'.reactor.key = sk := by
  induction h with
  | nil => exact ⟨hnamed, fun hold => ⟨hold, rfl⟩, fun sk h => absurd h List.not_mem_nil⟩
  | snoc _ hR ih =>
      obtain ⟨hnamed', hkeeps, hregister⟩ := ih
      obtain ⟨a, -, hstep⟩ := hR
      obtain ⟨⟨hnext, hkeep⟩, hnew⟩ := named_of_step hstep hnamed'
      refine ⟨hnext, fun hold => ?_, fun sk hmem => ?_⟩
      · obtain ⟨hinit, hkey⟩ := hkeeps hold
        exact ⟨(hkeep hinit).1, (hkeep hinit).2.trans hkey⟩
      · rcases List.mem_append.mp hmem with hmem | hmem
        · obtain ⟨hinit, hkey⟩ := hregister sk hmem
          exact ⟨(hkeep hinit).1, (hkeep hinit).2.trans hkey⟩
        · obtain ⟨hinit, rfl⟩ := hnew sk (List.mem_singleton.mp hmem).symm
          exact hkeep hinit

end Rpc
namespace Server

variable {N : Nat}

/-- Every entry of the table names the identity of its stream. -/
structure TableInv (s : Server N) : Prop where
  named : ∀ i, (s.rpcs i).Named
  keyed : ∀ (sk : SubscriberKey) (i : Nat), s.subscribers[sk]? = some i →
    (s.rpcs i).reactor.initialised = true ∧ (s.rpcs i).reactor.key = sk

def KeepsIdentity (s s' : Server N) : Prop :=
  ∀ i, (s.rpcs i).reactor.initialised = true →
    (s'.rpcs i).reactor.initialised = true ∧
      (s'.rpcs i).reactor.key = (s.rpcs i).reactor.key

def TableEffect (s s' : Server N) : ServerEvent → Prop
  | .registered i sk _ => s'.subscribers = s.subscribers.insert sk i
  | _ => ∀ (sk : SubscriberKey) (i : Nat),
      s'.subscribers[sk]? = some i → s.subscribers[sk]? = some i

theorem subscribers_registerSubscriber (s : Server N) (sk : SubscriberKey) (i : Nat) :
    (s.registerSubscriber sk i).2.subscribers = s.subscribers.insert sk i := by
  rw [registerSubscriber]
  split
  · rfl
  · split <;> rfl

theorem subscribers_unregisterSubscriber (s : Server N) (sk : SubscriberKey) (i : Nat)
    {sk' : SubscriberKey} {j : Nat}
    (h : (s.unregisterSubscriber sk i).subscribers[sk']? = some j) :
    s.subscribers[sk']? = some j := by
  rw [unregisterSubscriber] at h
  split at h
  · rw [ExtTreeMap.getElem?_erase] at h
    split at h
    · cases h
    · exact h
  · exact h

theorem tableEffect_react (s : Server N) (i : Nat) (e : RpcEvent OutFrame)
    (r : Rpc OutFrame) : TableEffect s (s.react i e r).2 (s.react i e r).1 := by
  cases e with
  | register sk => exact subscribers_registerSubscriber _ _ _
  | unregister sk =>
      exact fun sk' j h => subscribers_unregisterSubscriber (s.setRpc i r) sk i h
  | _ => exact fun _ _ h => h

theorem tableEffect_of_stepped [NeZero N] {s s' : Server N} {e : ServerEvent}
    (h : Stepped s e s') : TableEffect s s' e := by
  cases h with
  | reactor hstep => exact tableEffect_react s _ _ _
  | cleared serving =>
      intro sk i hnone
      rw [ExtTreeMap.getElem?_empty] at hnone
      cases hnone
  | @pushed c sub rest hcall hremaining target htarget =>
      intro sk i h
      cases target <;> exact h
  | _ => exact fun _ _ h => h

theorem keepsIdentity_of_step [NeZero N] {s s' : Server N} {a : ServerAction}
    {e : ServerEvent} (h : s.step a = some (e, s')) (hinv : s.TableInv) :
    KeepsIdentity s s' :=
  fun i => (Rpc.named_of_trace (trace_rpc_of_stepped (stepped_of_step h) i) (hinv.named i)).2.1

theorem identity_of_registered [NeZero N] {s s' : Server N} {a : ServerAction} {i : Nat}
    {sk : SubscriberKey} {superseded : Option Nat}
    (h : s.step a = some (.registered i sk superseded, s')) (hinv : s.TableInv) :
    (s'.rpcs i).reactor.initialised = true ∧ (s'.rpcs i).reactor.key = sk :=
  (Rpc.named_of_trace (trace_rpc_of_stepped (stepped_of_step h) i) (hinv.named i)).2.2 sk
    (by simp [ServerEvent.view])

theorem kept_or_registered_of_step [NeZero N] {s s' : Server N} {a : ServerAction}
    {e : ServerEvent} {sk : SubscriberKey} {i : Nat} (h : s.step a = some (e, s'))
    (hentry : s'.subscribers[sk]? = some i) :
    s.subscribers[sk]? = some i ∨ ∃ superseded, e = .registered i sk superseded := by
  have heffect := tableEffect_of_stepped (stepped_of_step h)
  cases e with
  | registered j sk' superseded =>
      have htable : s'.subscribers = s.subscribers.insert sk' j := heffect
      rw [htable, ExtTreeMap.getElem?_insert] at hentry
      split at hentry
      · rename_i hsk
        obtain rfl := LawfulEqOrd.compare_eq_iff_eq.mp hsk
        obtain rfl := Option.some.inj hentry
        exact .inr ⟨superseded, rfl⟩
      · exact .inl hentry
  | _ => exact .inl (heffect sk i hentry)

theorem tableInv_step [NeZero N] {s s' : Server N} {a : ServerAction} {e : ServerEvent}
    (h : s.step a = some (e, s')) (hinv : s.TableInv) : s'.TableInv := by
  have hkeeps := keepsIdentity_of_step h hinv
  have hold : ∀ (sk : SubscriberKey) (i : Nat), s.subscribers[sk]? = some i →
      (s'.rpcs i).reactor.initialised = true ∧ (s'.rpcs i).reactor.key = sk := by
    intro sk i hentry
    obtain ⟨hinit, hkey⟩ := hinv.keyed sk i hentry
    obtain ⟨hinit', hkey'⟩ := hkeeps i hinit
    exact ⟨hinit', hkey'.trans hkey⟩
  constructor
  case named =>
    exact fun i => (Rpc.named_of_trace (trace_rpc_of_stepped (stepped_of_step h) i) (hinv.named i)).1
  case keyed =>
    intro sk i hentry
    rcases kept_or_registered_of_step h hentry with hkept | ⟨superseded, rfl⟩
    · exact hold sk i hkept
    · exact identity_of_registered h hinv

theorem tableInv_of_trace [NeZero N] {ok : Server N → ServerAction → Prop} {node : Node N}
    {maxFrames hwm lwm : Nat} {evs : List ServerEvent} {s : Server N}
    (h : Trace (StepsWhere ok step) (init node maxFrames hwm lwm) evs s) : s.TableInv := by
  refine Trace.invariant (P := fun _ s => s.TableInv) ?_ ?_ h
  · refine ⟨fun i _ t ht => absurd ht List.not_mem_nil, fun sk i hentry => ?_⟩
    exact absurd hentry (by simp [init])
  · rintro evs s e s' - hinv ⟨a, -, hstep⟩
    exact tableInv_step hstep hinv

end Server

end Edriel
