import Edriel.SubscriberReactor

namespace Edriel

open Interleaving

universe u

namespace Rpc

variable {F : Type u}

def acceptedBy : RpcEvent F → Option F
  | .enqueued f .accepted => some f
  | _ => none

def movedBy : RpcEvent F → Option F
  | .moved f => some f
  | _ => none

def startedBy : RpcEvent F → Option (Option F)
  | .startWrite frame => some frame
  | _ => none

def accepted (evs : List (RpcEvent F)) : List F :=
  evs.filterMap acceptedBy

def moved (evs : List (RpcEvent F)) : List F :=
  evs.filterMap movedBy

def started (evs : List (RpcEvent F)) : List (Option F) :=
  evs.filterMap startedBy

theorem accepted_concat (evs : List (RpcEvent F)) (e : RpcEvent F) :
    accepted (evs ++ [e]) = accepted evs ++ (acceptedBy e).toList := by
  rw [accepted, List.filterMap_append, accepted]
  cases h : acceptedBy e <;> simp [h]

theorem moved_concat (evs : List (RpcEvent F)) (e : RpcEvent F) :
    moved (evs ++ [e]) = moved evs ++ (movedBy e).toList := by
  rw [moved, List.filterMap_append, moved]
  cases h : movedBy e <;> simp [h]

theorem started_concat (evs : List (RpcEvent F)) (e : RpcEvent F) :
    started (evs ++ [e]) = started evs ++ (startedBy e).toList := by
  rw [started, List.filterMap_append, started]
  cases h : startedBy e <;> simp [h]

theorem accepted_concat_none (evs : List (RpcEvent F)) {e : RpcEvent F}
    (h : acceptedBy e = none) : accepted (evs ++ [e]) = accepted evs := by
  rw [accepted_concat, h, Option.toList_none, List.append_nil]

theorem moved_concat_none (evs : List (RpcEvent F)) {e : RpcEvent F}
    (h : movedBy e = none) : moved (evs ++ [e]) = moved evs := by
  rw [moved_concat, h, Option.toList_none, List.append_nil]

theorem started_concat_none (evs : List (RpcEvent F)) {e : RpcEvent F}
    (h : startedBy e = none) : started (evs ++ [e]) = started evs := by
  rw [started_concat, h, Option.toList_none, List.append_nil]

theorem acceptedBy_enqueued_of_ne {f : F} {status : OutboxStatus}
    (h : status ≠ .accepted) : acceptedBy (.enqueued f status) = none := by
  cases status with
  | accepted => exact absurd rfl h
  | backpressured => rfl
  | notConnected => rfl

/-- The buffer of a thread between moving a frame and its `StartWrite`. -/
def claimed (s : Rpc F) : List (Option F) :=
  if s.issues = 0 then [] else [s.reactor.writeBuffer]

structure StreamInv (evs : List (RpcEvent F)) (w : WriteSide F) : Prop where
  outstanding : w.issues + w.pendingWrites = if w.writing then 1 else 0
  carried : moved evs ++ w.outbox = accepted evs
  handed : started evs ++ (if w.issues = 0 then [] else [w.writeBuffer]) =
    (moved evs).map some

theorem streamInv_init (maxFrames hwm lwm : Nat) :
    StreamInv [] (init maxFrames hwm lwm : Rpc F).writeSide :=
  ⟨rfl, rfl, rfl⟩

theorem enqueue_eq_accepted_iff (r : SubscriberReactor F) (f : F) :
    (r.enqueue f).1 = .accepted ↔ r.isSendable = true := by
  rw [SubscriberReactor.enqueue, SubscriberReactor.isSendable]
  by_cases hroom : r.hwmFrames ≤ r.outbox.length
  · have hfull : ¬ r.outbox.length < r.hwmFrames := Nat.not_lt.mpr hroom
    cases r.finished <;> cases r.cancelled <;> simp [hroom, hfull]
  · have hfree : r.outbox.length < r.hwmFrames := Nat.not_le.mp hroom
    cases r.finished <;> cases r.cancelled <;> cases r.backpressured <;>
      simp [hroom, hfree]

theorem enqueue_of_accepted {r : SubscriberReactor F} {f : F}
    (h : (r.enqueue f).1 = .accepted) :
    r.outbox.length < r.hwmFrames ∧ r.backpressured = false ∧
      (r.enqueue f).2 = { r with outbox := r.outbox ++ [f] } := by
  have hsend := (enqueue_eq_accepted_iff r f).mp h
  simp only [SubscriberReactor.isSendable, Bool.and_eq_true, Bool.not_eq_true',
    decide_eq_true_eq] at hsend
  obtain ⟨⟨⟨hfinished, hcancelled⟩, hlatch⟩, hroom⟩ := hsend
  refine ⟨hroom, hlatch, ?_⟩
  simp [SubscriberReactor.enqueue, hfinished, hcancelled, hlatch, Nat.not_le.mpr hroom]

theorem enqueue_of_backpressured {r : SubscriberReactor F} {f : F}
    (h : (r.enqueue f).1 = .backpressured) :
    (r.enqueue f).2 = { r with backpressured := true } := by
  revert h
  rw [SubscriberReactor.enqueue]
  split_ifs <;> simp

theorem enqueue_of_not_accepted {r : SubscriberReactor F} {f : F}
    (h : (r.enqueue f).1 ≠ .accepted) : (r.enqueue f).2.outbox = r.outbox := by
  revert h
  rw [SubscriberReactor.enqueue]
  split_ifs <;> simp

theorem backpressured_enqueue {r : SubscriberReactor F} (f : F)
    (h : r.backpressured = true) : (r.enqueue f).2.backpressured = true := by
  rw [SubscriberReactor.enqueue]
  split_ifs <;> simp [h]

theorem StreamInv.quiet {evs : List (RpcEvent F)} {w w' : WriteSide F} {e : RpcEvent F}
    (h : StreamInv evs w) (haccepted : acceptedBy e = none) (hmoved : movedBy e = none)
    (hstarted : startedBy e = none) (houtbox : w'.outbox = w.outbox)
    (hissues : w'.issues = w.issues) (hbuffer : w'.writeBuffer = w.writeBuffer)
    (houtstanding : w'.issues + w'.pendingWrites = if w'.writing then 1 else 0) :
    StreamInv (evs ++ [e]) w' := by
  constructor
  case outstanding => exact houtstanding
  case carried =>
    rw [moved_concat_none evs hmoved, accepted_concat_none evs haccepted, houtbox]
    exact h.carried
  case handed =>
    rw [started_concat_none evs hstarted, moved_concat_none evs hmoved, hissues, hbuffer]
    exact h.handed

theorem StreamInv.enqueued {evs : List (RpcEvent F)} {s : Rpc F}
    (h : StreamInv evs s.writeSide) (f : F) :
    StreamInv (evs ++ [.enqueued f (s.reactor.enqueue f).1])
      { s.writeSide with
        outbox := (s.reactor.enqueue f).2.outbox
        backpressured := (s.reactor.enqueue f).2.backpressured } := by
  by_cases hok : (s.reactor.enqueue f).1 = .accepted
  · obtain ⟨-, -, hr⟩ := enqueue_of_accepted hok
    have hcarried : moved evs ++ s.reactor.outbox = accepted evs := h.carried
    constructor
    case outstanding => exact h.outstanding
    case carried =>
      rw [moved_concat, accepted_concat, hok, hr, ← hcarried]
      simp [movedBy, acceptedBy]
    case handed =>
      rw [started_concat_none evs rfl, moved_concat_none evs rfl]
      exact h.handed
  · exact h.quiet (acceptedBy_enqueued_of_ne hok) rfl rfl (enqueue_of_not_accepted hok) rfl rfl
      h.outstanding

/-- An idle reactor has no write to issue, so a frame may take the buffer. -/
theorem StreamInv.moved {evs : List (RpcEvent F)} {w : WriteSide F} {f : F} {fs : List F}
    (h : StreamInv evs w) (hidle : w.writing = false) (houtbox : w.outbox = f :: fs) :
    StreamInv (evs ++ [.moved f])
      { w with outbox := fs, writeBuffer := some f, writing := true, issues := w.issues + 1 } := by
  have hsum : w.issues + w.pendingWrites = 0 := by
    simpa [hidle] using h.outstanding
  have hnone : w.issues = 0 := by omega
  constructor
  case outstanding =>
    change w.issues + 1 + w.pendingWrites = 1
    omega
  case carried =>
    rw [moved_concat, accepted_concat, ← h.carried, houtbox]
    simp [movedBy, acceptedBy]
  case handed =>
    have hhanded := h.handed
    rw [hnone, if_pos rfl, List.append_nil] at hhanded
    rw [started_concat, moved_concat, hhanded]
    simp [startedBy, movedBy]

/-- The one thread that had a write to issue hands the buffer over. -/
theorem StreamInv.startWrite {evs : List (RpcEvent F)} {w : WriteSide F} {k : Nat}
    (h : StreamInv evs w) (hissues : w.issues = k + 1) :
    StreamInv (evs ++ [.startWrite w.writeBuffer])
      { w with issues := k, pendingWrites := w.pendingWrites + 1 } := by
  have hsum := h.outstanding
  have hzero : k = 0 := by
    split at hsum <;> omega
  constructor
  case outstanding =>
    change k + (w.pendingWrites + 1) = if w.writing then 1 else 0
    omega
  case carried =>
    rw [moved_concat_none evs rfl, accepted_concat_none evs rfl]
    exact h.carried
  case handed =>
    have hhanded := h.handed
    rw [if_neg (by omega)] at hhanded
    rw [started_concat, moved_concat_none evs rfl, hzero, ← hhanded]
    simp [startedBy]

/-- One step keeps the stream invariant. -/
theorem streamInv_step {evs : List (RpcEvent F)} {s s' : Rpc F} {e : RpcEvent F}
    (hinv : StreamInv evs s.writeSide) (heffect : Effect s s' e) :
    StreamInv (evs ++ [e]) s'.writeSide := by
  cases e with
  | enqueued f status =>
      obtain ⟨rfl, hs'⟩ := heffect
      rw [hs']
      exact hinv.enqueued f
  | moved f =>
      obtain ⟨hidle, fs, hout, hs'⟩ := heffect
      rw [hs']
      exact hinv.moved hidle hout
  | startWrite frame =>
      obtain ⟨rfl, k, hk, hs'⟩ := heffect
      rw [hs']
      exact hinv.startWrite hk
  | writeDone ok =>
      obtain ⟨k, hk, hs'⟩ := heffect
      have hsum : s.issues + s.pendingWrites = if s.reactor.writing then 1 else 0 :=
        hinv.outstanding
      -- the write in flight was the only one
      have hzero : s.issues + k = 0 := by
        split at hsum <;> omega
      rw [hs']
      exact hinv.quiet rfl rfl rfl rfl rfl rfl hzero
  | observed depth =>
      obtain ⟨-, hs'⟩ := heffect
      rw [hs']
      exact hinv.quiet rfl rfl rfl rfl rfl rfl hinv.outstanding
  | _ =>
      have hs' : s'.writeSide = s.writeSide := heffect
      rw [hs']
      exact hinv.quiet rfl rfl rfl rfl rfl rfl hinv.outstanding

theorem streamInv_of_trace {maxFrames hwm lwm : Nat} {evs : List (RpcEvent F)} {s : Rpc F}
    (h : Trace (Steps step) (init maxFrames hwm lwm) evs s) : StreamInv evs s.writeSide := by
  refine Trace.invariant (P := fun evs s => StreamInv evs s.writeSide)
    (streamInv_init maxFrames hwm lwm) ?_ h
  rintro evs s e s' - hinv ⟨a, -, hstep⟩
  exact streamInv_step hinv (effect_of_step hstep)

theorem writeBuffer_of_writing {s s' : Rpc F} {e : RpcEvent F} (heffect : Effect s s' e)
    (hwriting : s.reactor.writing = true) :
    s'.reactor.writeBuffer = s.reactor.writeBuffer := by
  have hside : s'.writeSide.writeBuffer = s.writeSide.writeBuffer := by
    cases e with
    | enqueued f status => rw [heffect.2]
    | moved f => exact absurd (heffect.1.symm.trans hwriting) Bool.false_ne_true
    | startWrite frame =>
        obtain ⟨-, k, -, hs'⟩ := heffect
        rw [hs']
    | writeDone ok =>
        obtain ⟨k, -, hs'⟩ := heffect
        rw [hs']
    | observed depth => rw [heffect.2]
    | _ => exact congrArg WriteSide.writeBuffer heffect
  exact hside

/-- The stream carries exactly the accepted frames, in acceptance order: in every
interleaving at most one `StartWrite` is outstanding, a frame in flight is never
overwritten, the frames moved so far and the outbox are the accepted ones, and
what the `StartWrite` calls handed over are the moved ones. -/
theorem stream_carries_accepted {maxFrames hwm lwm : Nat} {evs : List (RpcEvent F)}
    {s : Rpc F} (h : Trace (Steps step) (init maxFrames hwm lwm) evs s) :
    s.pendingWrites ≤ 1 ∧
    (∀ a e s', s.step a = some (e, s') → 0 < s.issues + s.pendingWrites →
      s'.reactor.writeBuffer = s.reactor.writeBuffer) ∧
    moved evs ++ s.reactor.outbox = accepted evs ∧
    started evs ++ s.claimed = (moved evs).map some := by
  obtain ⟨houtstanding, hcarried, hhanded⟩ := streamInv_of_trace h
  have hsum : s.issues + s.pendingWrites = if s.reactor.writing then 1 else 0 :=
    houtstanding
  refine ⟨by split at hsum <;> omega, ?_, hcarried, hhanded⟩
  intro a e s' hstep hflight
  refine writeBuffer_of_writing (effect_of_step hstep) ?_
  by_contra hidle
  rw [if_neg hidle] at hsum
  omega

/-- Two frames: the first one is moved and handed to gRPC, the second one waits
for the completion. -/
def twoFrames : List (RpcAction Nat) :=
  [.enqueue 5, .run 0 {}, .run 0 {}, .enqueue 6, .onWriteDone true]

theorem isSome_exec_twoFrames : (exec step (init 4 3 1) twoFrames).isSome = true :=
  rfl

theorem stream_carries_accepted_two_frames :
    ∃ evs s, exec step (init 4 3 1) twoFrames = some (evs, s) ∧
      s.pendingWrites ≤ 1 ∧
      (∀ a e s', s.step a = some (e, s') → 0 < s.issues + s.pendingWrites →
        s'.reactor.writeBuffer = s.reactor.writeBuffer) ∧
      moved evs ++ s.reactor.outbox = accepted evs ∧
      started evs ++ s.claimed = (moved evs).map some := by
  obtain ⟨⟨evs, s⟩, h⟩ := Option.isSome_iff_exists.mp isSome_exec_twoFrames
  exact ⟨evs, s, h, stream_carries_accepted (trace_of_exec (fun _ _ _ => trivial) h)⟩

/-- The thresholds stay, and the outbox never passes the high-water mark. -/
structure BoundInv (hwm lwm : Nat) (w : WriteSide F) : Prop where
  hwm_eq : w.hwmFrames = hwm
  lwm_eq : w.lwmFrames = lwm
  length_le : w.outbox.length ≤ hwm

theorem boundInv_step {hwm lwm : Nat} {s s' : Rpc F} {e : RpcEvent F}
    (hinv : BoundInv hwm lwm s.writeSide) (heffect : Effect s s' e) :
    BoundInv hwm lwm s'.writeSide := by
  obtain ⟨hhwm, hlwm, hlen⟩ := hinv
  cases e with
  | enqueued f status =>
      obtain ⟨rfl, hs'⟩ := heffect
      rw [hs']
      refine ⟨hhwm, hlwm, ?_⟩
      by_cases hok : (s.reactor.enqueue f).1 = .accepted
      · obtain ⟨hroom, -, hr⟩ := enqueue_of_accepted hok
        have hhwm : s.reactor.hwmFrames = hwm := hhwm
        rw [hr]
        simpa [hhwm] using hroom
      · rw [enqueue_of_not_accepted hok]
        exact hlen
  | moved f =>
      obtain ⟨-, fs, hout, hs'⟩ := heffect
      rw [hs']
      have hlen : s.reactor.outbox.length ≤ hwm := hlen
      rw [hout] at hlen
      exact ⟨hhwm, hlwm, Nat.le_of_succ_le hlen⟩
  | startWrite frame =>
      obtain ⟨-, k, -, hs'⟩ := heffect
      rw [hs']
      exact ⟨hhwm, hlwm, hlen⟩
  | writeDone ok =>
      obtain ⟨k, -, hs'⟩ := heffect
      rw [hs']
      exact ⟨hhwm, hlwm, hlen⟩
  | observed depth =>
      rw [heffect.2]
      exact ⟨hhwm, hlwm, hlen⟩
  | _ =>
      have hs' : s'.writeSide = s.writeSide := heffect
      rw [hs']
      exact ⟨hhwm, hlwm, hlen⟩

theorem boundInv_of_trace {maxFrames hwm lwm : Nat} {evs : List (RpcEvent F)} {s : Rpc F}
    (h : Trace (Steps step) (init maxFrames hwm lwm) evs s) :
    BoundInv (SubscriberReactor.clampHwm maxFrames hwm)
      (SubscriberReactor.clampLwm (SubscriberReactor.clampHwm maxFrames hwm) lwm)
      s.writeSide := by
  refine Trace.invariant (P := fun _ s => BoundInv _ _ s.writeSide)
    ⟨rfl, rfl, Nat.zero_le _⟩ ?_ h
  rintro evs s e s' - hinv ⟨a, -, hstep⟩
  exact boundInv_step hinv (effect_of_step hstep)

theorem clampHwm_lt {maxFrames : Nat} (hwm : Nat) (hpos : 1 ≤ maxFrames)
    (hlt : maxFrames < 2 ^ 64) : SubscriberReactor.clampHwm maxFrames hwm < maxFrames := by
  rw [SubscriberReactor.clampHwm]
  split <;> omega

/-- Once latched, a reactor stays latched until an `OnWriteDone` sees the outbox
at or below the low-water mark. -/
theorem backpressured_of_trace {lwm : Nat} {s s' : Rpc F} {evs : List (RpcEvent F)}
    (h : Trace (Steps step) s evs s') (hlwm : s.reactor.lwmFrames = lwm)
    (hlatch : s.reactor.backpressured = true)
    (hquiet : ∀ depth, .observed depth ∈ evs → lwm < depth) :
    s'.reactor.backpressured = true ∧ s'.reactor.lwmFrames = lwm := by
  induction h with
  | nil => exact ⟨hlatch, hlwm⟩
  | snoc _ hR ih =>
      rename_i evs s₁ e s₂ _
      obtain ⟨hlatch, hlwm⟩ := ih fun depth hd => hquiet depth (by simp [hd])
      obtain ⟨a, -, hstep⟩ := hR
      have heffect := effect_of_step hstep
      have hside : s₂.writeSide.backpressured = true ∧ s₂.writeSide.lwmFrames = lwm := by
        cases e with
        | enqueued f status =>
            rw [heffect.2]
            exact ⟨backpressured_enqueue f hlatch, hlwm⟩
        | moved f =>
            obtain ⟨-, fs, -, hs'⟩ := heffect
            rw [hs']
            exact ⟨hlatch, hlwm⟩
        | startWrite frame =>
            obtain ⟨-, k, -, hs'⟩ := heffect
            rw [hs']
            exact ⟨hlatch, hlwm⟩
        | writeDone ok =>
            obtain ⟨k, -, hs'⟩ := heffect
            rw [hs']
            exact ⟨hlatch, hlwm⟩
        | observed depth =>
            have habove : lwm < depth := hquiet depth (by simp)
            rw [heffect.2]
            refine ⟨?_, hlwm⟩
            change (s₁.reactor.backpressured && decide (s₁.reactor.lwmFrames < depth)) = true
            simp [hlatch, hlwm, habove]
        | _ =>
            have hs' : s₂.writeSide = s₁.writeSide := heffect
            rw [hs']
            exact ⟨hlatch, hlwm⟩
      exact hside

/-- Between a refused frame and a later accepted one an `OnWriteDone` has seen
the outbox at or below the low-water mark. -/
theorem observed_between {maxFrames hwm lwm : Nat} {before between after : List (RpcEvent F)}
    {f g : F} {s : Rpc F}
    (h : Trace (Steps step) (init maxFrames hwm lwm)
      (before ++ .enqueued f .backpressured :: between ++ .enqueued g .accepted :: after) s) :
    ∃ depth, .observed depth ∈ between ∧
      depth ≤ SubscriberReactor.clampLwm (SubscriberReactor.clampHwm maxFrames hwm) lwm := by
  by_contra hnone
  push Not at hnone
  have hcut : before ++ .enqueued f .backpressured :: between ++
      .enqueued g .accepted :: after =
        (before ++ [.enqueued f .backpressured]) ++
          (between ++ ([.enqueued g .accepted] ++ after)) := by simp
  rw [hcut] at h
  obtain ⟨s₁, hrefused, h⟩ := h.split
  obtain ⟨s₂, hbetween, h⟩ := h.split
  obtain ⟨s₃, haccepted, -⟩ := h.split
  -- the refusal has latched the reactor
  have hlwm := (boundInv_of_trace hrefused).lwm_eq
  obtain ⟨s₀, -, hrefusal⟩ := hrefused.split
  obtain ⟨a, -, hstep⟩ := hrefusal.of_single
  obtain ⟨hstatus, hside⟩ := effect_of_step hstep
  have hlatch : s₁.writeSide.backpressured = true := by
    rw [hside, enqueue_of_backpressured hstatus.symm]
  -- so the later frame cannot be accepted
  obtain ⟨hstill, -⟩ := backpressured_of_trace hbetween hlwm hlatch hnone
  obtain ⟨b, -, hstep⟩ := haccepted.of_single
  obtain ⟨hstatus, -⟩ := effect_of_step hstep
  obtain ⟨-, hopen, -⟩ := enqueue_of_accepted hstatus.symm
  exact Bool.noConfusion (hopen.symm.trans hstill)

/-- Bounded memory with hysteresis: in every interleaving the outbox stays within
the high-water mark and, with the frame in flight, within the bound; between a
refusal and the next acceptance an `OnWriteDone` sees the outbox at or below the
low-water mark; and `isSendable` says whether an `enqueue` would be accepted. -/
theorem outbox_bounded {maxFrames hwm lwm : Nat} (hpos : 1 ≤ maxFrames)
    (hlt : maxFrames < 2 ^ 64) {evs : List (RpcEvent F)} {s : Rpc F}
    (h : Trace (Steps step) (init maxFrames hwm lwm) evs s) :
    s.reactor.outbox.length ≤ s.reactor.hwmFrames ∧
    s.reactor.outbox.length + (if s.reactor.writing then 1 else 0) ≤ maxFrames ∧
    (∀ before between after f g,
      evs = before ++ .enqueued f .backpressured :: between ++ .enqueued g .accepted :: after →
        ∃ depth, .observed depth ∈ between ∧ depth ≤ s.reactor.lwmFrames) ∧
    ∀ f, s.reactor.isSendable = true ↔ (s.reactor.enqueue f).1 = .accepted := by
  obtain ⟨hhwm, hlwm, hlen⟩ := boundInv_of_trace h
  have hhwm : s.reactor.hwmFrames = SubscriberReactor.clampHwm maxFrames hwm := hhwm
  have hlwm : s.reactor.lwmFrames =
      SubscriberReactor.clampLwm (SubscriberReactor.clampHwm maxFrames hwm) lwm := hlwm
  have hlen : s.reactor.outbox.length ≤ SubscriberReactor.clampHwm maxFrames hwm := hlen
  have hbound := clampHwm_lt hwm hpos hlt
  refine ⟨by rw [hhwm]; exact hlen, ?_, ?_, fun f => (enqueue_eq_accepted_iff _ f).symm⟩
  · split <;> omega
  · rintro before between after f g rfl
    rw [hlwm]
    exact observed_between h

theorem outbox_bounded_two_frames :
    ∃ evs s, exec step (init 4 3 1) twoFrames = some (evs, s) ∧
      s.reactor.outbox.length ≤ s.reactor.hwmFrames ∧
      s.reactor.outbox.length + (if s.reactor.writing then 1 else 0) ≤ 4 ∧
      (∀ before between after f g,
        evs = before ++ .enqueued f .backpressured :: between ++
          .enqueued g .accepted :: after →
            ∃ depth, .observed depth ∈ between ∧ depth ≤ s.reactor.lwmFrames) ∧
      ∀ f, s.reactor.isSendable = true ↔ (s.reactor.enqueue f).1 = .accepted := by
  obtain ⟨⟨evs, s⟩, h⟩ := Option.isSome_iff_exists.mp isSome_exec_twoFrames
  exact ⟨evs, s, h, outbox_bounded (by decide) (by decide)
    (trace_of_exec (fun _ _ _ => trivial) h)⟩

end Rpc

end Edriel
