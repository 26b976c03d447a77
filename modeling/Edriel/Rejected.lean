import Edriel.Generations

namespace Edriel

open Std Interleaving

universe u

namespace Rpc

variable {F : Type u}

theorem accepted_of_mute {evs : List (RpcEvent F)} (h : ∀ e ∈ evs, e.Mute) :
    accepted evs = [] := by
  refine List.filterMap_eq_nil_iff.mpr fun e he => ?_
  have hmute := h e he
  cases e with
  | enqueued f status => exact hmute.elim
  | _ => rfl

theorem started_of_mute {evs : List (RpcEvent F)} (h : ∀ e ∈ evs, e.Mute) :
    started evs = [] := by
  refine List.filterMap_eq_nil_iff.mpr fun e he => ?_
  have hmute := h e he
  cases e with
  | startWrite frame => exact hmute.elim
  | _ => rfl

inductive Barred (s : Rpc F) : Prop
  | waiting (h : s.Waiting)
  | gated (h : s.Joining .gate)
  | silent (h : s.Silent)

theorem Barred.outbox {s : Rpc F} (h : s.Barred) : s.reactor.outbox = [] := by
  rcases h with h | h | h <;> exact h.quiet.outbox

theorem Barred.not_register {s s' : Rpc F} {a : RpcAction F} {sk : SubscriberKey}
    (hs : s.Barred) : s.step a ≠ some (.register sk, s') := by
  intro h
  obtain ⟨i, answer, rest, -, hpick, -, -⟩ := register_of_step h
  have hmem : .register ∈ s.tasks := (mem_of_pick hpick).mpr (.inl rfl)
  rcases hs with hs | hs | hs
  · rw [hs.tasks] at hmem
    cases hmem
  · rcases hs.tasks _ hmem with h | h <;> cases h
  · cases hs.tasks _ hmem

theorem Silent.served {s : Rpc F} (hs : s.Silent) (hnamed : s.reactor.initialised = true) :
    s.Served := by
  refine ⟨hnamed, fun t ht => ?_⟩
  have hcloses := hs.tasks t ht
  cases t with
  | gate => cases hcloses
  | register => cases hcloses
  | _ => rfl

/-- The dial has passed the gate, or has been turned away there. -/
def PastGate (s : Rpc F) : Prop :=
  s.Joining .register ∨ s.Served

theorem barred_of_stage {s : Rpc F} (hs : s.Stage) : s.Barred ∨ s.PastGate := by
  rcases hs with hs | hs | hs | hs | hs
  · exact .inl (.waiting hs)
  · exact .inl (.gated hs)
  · exact .inr (.inl hs)
  · exact .inr (.inr hs)
  · exact .inl (.silent hs)

theorem pastGate_of_step {s s' : Rpc F} {a : RpcAction F} {e : RpcEvent F}
    (h : s.step a = some (e, s')) (hs : s.PastGate) (hadmitted : s.Admitted a) :
    s'.PastGate := by
  rcases hs with hs | hs
  · rcases joining_of_step rfl h hs hadmitted with ⟨h, -⟩ | ⟨i, rest, answer, rfl, hpick, hrest, hrun⟩
    · exact .inl h
    · obtain ⟨rfl, rfl⟩ := Prod.mk.inj hrun
      exact .inr (joining_of_register (.joining hs) h).2
  · exact .inr (served_of_step h hs)

theorem not_pastGate_of_gate {s : Rpc F} (hgate : .gate ∈ s.tasks) : ¬ s.PastGate := by
  rintro (hs | hs)
  · rcases hs.tasks _ hgate with h | h <;> cases h
  · cases hs.tasks _ hgate

/-- Until a dial passes the gate its stream shows nothing. -/
theorem mute_of_step {s s' : Rpc F} {a : RpcAction F} {e : RpcEvent F}
    (h : s.step a = some (e, s')) (hs : s.Barred) (hopen : ¬ s.PastGate)
    (hadmitted : s.Admitted a) : e.Mute := by
  rcases hs with hs | hs | hs
  · exact (waiting_of_step h hs hadmitted).2
  · rcases joining_of_step rfl h hs hadmitted with ⟨-, hmute⟩ | ⟨i, rest, answer, rfl, -, -, hrun⟩
    · exact hmute
    · obtain ⟨rfl, -⟩ := Prod.mk.inj hrun
      trivial
  · refine (silent_of_step h hs ?_).2
    rintro f rfl
    exact hopen (.inr hadmitted)

end Rpc

namespace Server

variable {N : Nat} [NeZero N]

/-- Reactor `i` is not in the table and holds no frame, and none of its steps
changes the table. -/
structure Outsider (i : Nat) (s : Server N) : Prop where
  absent : ∀ sk : SubscriberKey, s.subscribers[sk]? ≠ some i
  empty : (s.rpcs i).reactor.outbox = []
  harmless : ∀ a e s', s.step (.reactor i a) = some (e, s') → s'.subscribers = s.subscribers

theorem outsider_of_barred {i : Nat} {s : Server N} (hs : (s.rpcs i).Barred)
    (habsent : ∀ sk : SubscriberKey, s.subscribers[sk]? ≠ some i) : s.Outsider i := by
  refine ⟨habsent, hs.outbox, fun a e s' h => ?_⟩
  obtain ⟨e', r, hstep, -, rfl⟩ := react_of_step h
  cases e' with
  | register sk => exact absurd hstep hs.not_register
  | unregister sk =>
      have hnot : ¬ (s.setRpc i r).subscribers[sk]? = some i := habsent sk
      rw [react, unregisterSubscriber]
      dsimp only
      rw [if_neg hnot]
      rfl
  | _ => rfl

theorem pastGate_of_trace {s s' : Server N} {evs : List ServerEvent} {i : Nat}
    (h : Trace (Steps step) s evs s') (hs : s.Dials) (hpast : (s.rpcs i).PastGate) :
    (s'.rpcs i).PastGate := by
  have hall : s'.Dials ∧ (s'.rpcs i).PastGate := by
    refine Trace.invariant (P := fun _ s => s.Dials ∧ (s.rpcs i).PastGate) ⟨hs, hpast⟩ ?_ h
    rintro evs s e s' - ⟨hs, hpast⟩ ⟨a, -, hstep⟩
    refine ⟨dials_step hstep hs, ?_⟩
    rcases hs.admitted (moved_of_step hstep i) with ⟨hrpc, -⟩ | ⟨b, e', hrpc, hadmitted, -⟩
    · rwa [hrpc]
    · exact Rpc.pastGate_of_step hrpc hpast hadmitted
  exact hall.2

def shown (i : Nat) (evs : List ServerEvent) : List (RpcEvent OutFrame) :=
  evs.flatMap (ServerEvent.view i)

theorem shown_append (i : Nat) (evs evs' : List ServerEvent) :
    shown i (evs ++ evs') = shown i evs ++ shown i evs' := by
  rw [shown, List.flatMap_append, shown, shown]

theorem shown_concat (i : Nat) (evs : List ServerEvent) (e : ServerEvent) :
    shown i (evs ++ [e]) = shown i evs ++ e.view i := by
  rw [shown_append, shown, shown, List.flatMap_singleton]

theorem mute_of_trace {ok : Server N → ServerAction → Prop} {node : Node N}
    {maxFrames hwm lwm : Nat} {evs : List ServerEvent} {s : Server N} {i : Nat}
    (h : Trace (StepsWhere ok step) (init node maxFrames hwm lwm) evs s)
    (hopen : ¬ (s.rpcs i).PastGate) : ∀ e ∈ shown i evs, e.Mute := by
  revert hopen
  refine Trace.invariant (P := fun evs s => ¬ (s.rpcs i).PastGate →
    ∀ e ∈ shown i evs, e.Mute) (fun _ _ => nofun) ?_ h
  rintro evs s e s' hprev hold ⟨a, -, hstep⟩ hopen x hx
  have hs := dials_of_trace hprev
  rw [shown_concat] at hx
  rcases hs.admitted (moved_of_step hstep i) with ⟨hrpc, hview⟩ | ⟨b, e', hrpc, hadmitted, hview⟩
  · rw [hrpc] at hopen
    rw [hview, List.append_nil] at hx
    exact hold hopen x hx
  · have hwas : ¬ (s.rpcs i).PastGate := fun hpast =>
      hopen (Rpc.pastGate_of_step hrpc hpast hadmitted)
    rw [hview] at hx
    rcases List.mem_append.mp hx with hx | hx
    · exact hold hwas x hx
    · rw [List.mem_singleton.mp hx]
      exact Rpc.mute_of_step hrpc ((Rpc.barred_of_stage (hs.stage i)).resolve_right hwas) hwas
        hadmitted

theorem silent_of_trace {s s' : Server N} {evs : List ServerEvent} {i : Nat}
    (h : Trace (Steps step) s evs s') (hs : (s.rpcs i).Silent)
    (habsent : ∀ sk : SubscriberKey, s.subscribers[sk]? ≠ some i) :
    ((s'.rpcs i).Silent ∧ ∀ sk : SubscriberKey, s'.subscribers[sk]? ≠ some i) ∧
      ∀ e ∈ shown i evs, e.Mute := by
  refine Trace.invariant (P := fun evs s => ((s.rpcs i).Silent ∧
    ∀ sk : SubscriberKey, s.subscribers[sk]? ≠ some i) ∧ ∀ e ∈ shown i evs, e.Mute)
    ⟨⟨hs, habsent⟩, nofun⟩ ?_ h
  rintro evs s e s' - ⟨⟨hs, habsent⟩, hmute⟩ ⟨a, -, hstep⟩
  have hrpc : ((s'.rpcs i).Silent ∧ ∀ x ∈ e.view i, x.Mute) := by
    cases moved_of_step hstep i with
    | still hrpc hview =>
        rw [hrpc, hview]
        exact ⟨hs, nofun⟩
    | @reactor b e' ha hrpc hview =>
        obtain ⟨hsilent, he'⟩ := Rpc.silent_of_step hrpc hs (by cases b <;> exact nofun)
        rw [hview]
        exact ⟨hsilent, by simpa using he'⟩
    | entry hentry _ _ _ => exact absurd hentry (habsent _)
  refine ⟨⟨hrpc.1, fun sk hentry => ?_⟩, fun x hx => ?_⟩
  · rcases kept_or_registered_of_step hstep hentry with hkept | ⟨superseded, rfl⟩
    · exact habsent sk hkept
    · obtain ⟨b, -, hregister⟩ := registers_of_step hstep
      exact (Rpc.Barred.silent hs).not_register hregister
  · rw [shown_concat] at hx
    rcases List.mem_append.mp hx with hx | hx
    · exact hmute x hx
    · exact hrpc.2 x hx

/-- The gate turns away a dialer that the registry does not know. -/
theorem silent_of_rejected {s s' : Server N} {i k : Nat} {presence : List Participant}
    {rest : List (Task OutFrame)} {e : ServerEvent} (hs : (s.rpcs i).Joining .gate)
    (hgate : pick k (s.rpcs i).tasks = some (.gate, rest))
    (h : s.step (.reactor i (.run k false presence)) = some (e, s')) :
    (s'.rpcs i).Silent ∧ s'.subscribers = s.subscribers ∧ e.view i = [.internal] := by
  obtain ⟨e', r, hrpc, rfl, rfl⟩ := react_of_step h
  have hrun : (s.rpcs i).runTask rest ⟨false, presence.map .presence⟩ .gate = (e', r) := by
    simp only [ReactorAction.toRpc, Rpc.step, hgate] at hrpc
    exact Option.some.inj hrpc
  obtain ⟨rfl, rfl⟩ := Prod.mk.inj hrun
  refine ⟨?_, rfl, if_pos rfl⟩
  rw [react_internal, rpcs_setRpc, if_pos rfl]
  refine ⟨hs.quiet.keep rfl rfl rfl, hs.reads, fun x hx => ?_⟩
  rcases List.mem_cons.mp hx with rfl | hx
  · rfl
  · rw [hs.rest rfl hgate x hx]
    rfl

/-- What a dialer gets and does that has been turned away. -/
structure TurnedAway (i : Nat) (evs : List ServerEvent) (s : Server N) : Prop where
  outsider : s.Outsider i
  accepted : Rpc.accepted (shown i evs) = []
  started : Rpc.started (shown i evs) = []
  finish_le : (Rpc.finishCalls (shown i evs)).length ≤ 1
  finish : (s.rpcs i).tasks = [] → (Rpc.finishCalls (shown i evs)).length = 1

/-- A dialer that the registry does not know at its first heartbeat is an outsider at
every moment before and after; its stream carries nothing and is finished once. -/
theorem rejected_dialer {node : Node N} {maxFrames hwm lwm : Nat}
    {evs₁ evs₂ : List ServerEvent} {s₁ s₂ s₃ : Server N} {e : ServerEvent} {i k : Nat}
    {presence : List Participant} {rest : List (Task OutFrame)}
    (h₁ : Trace (Steps step) (init node maxFrames hwm lwm) evs₁ s₁)
    (hgate : pick k (s₁.rpcs i).tasks = some (.gate, rest))
    (hrejected : s₁.step (.reactor i (.run k false presence)) = some (e, s₂))
    (h₂ : Trace (Steps step) s₂ evs₂ s₃) :
    TurnedAway i (evs₁ ++ [e] ++ evs₂) s₃ ∧
      ∀ evs m evs', Trace (Steps step) (init node maxFrames hwm lwm) evs m →
        Trace (Steps step) m evs' s₁ → m.Outsider i := by
  have hdials := dials_of_trace h₁
  have hopen : ¬ (s₁.rpcs i).PastGate :=
    Rpc.not_pastGate_of_gate ((mem_of_pick hgate).mpr (.inl rfl))
  have habsent : ∀ m : Server N, m.Dials → ¬ (m.rpcs i).PastGate →
      ∀ sk : SubscriberKey, m.subscribers[sk]? ≠ some i :=
    fun m hm hnot sk hentry => hnot (.inr (hm.entered sk i hentry))
  constructor
  · have hjoining : (s₁.rpcs i).Joining .gate := by
      have hmem : .gate ∈ (s₁.rpcs i).tasks := (mem_of_pick hgate).mpr (.inl rfl)
      rcases (Rpc.barred_of_stage (hdials.stage i)).resolve_right hopen with hs | hs | hs
      · rw [hs.tasks] at hmem
        cases hmem
      · exact hs
      · cases hs.tasks _ hmem
    obtain ⟨hsilent, htable, hview⟩ := silent_of_rejected hjoining hgate hrejected
    have hout : ∀ sk : SubscriberKey, s₂.subscribers[sk]? ≠ some i := by
      rw [htable]
      exact habsent s₁ hdials hopen
    obtain ⟨⟨hsilent₃, hout₃⟩, hmute₂⟩ := silent_of_trace h₂ hsilent hout
    have hmute : ∀ x ∈ shown i (evs₁ ++ [e] ++ evs₂), x.Mute := by
      rw [shown_append, shown_concat, hview]
      intro x hx
      rcases List.mem_append.mp hx with hx | hx
      · rcases List.mem_append.mp hx with hx | hx
        · exact mute_of_trace h₁ hopen x hx
        · rw [List.mem_singleton.mp hx]
          trivial
      · exact hmute₂ x hx
    have hrun : Trace (Steps Rpc.step) (Rpc.init maxFrames hwm lwm)
        (shown i (evs₁ ++ [e] ++ evs₂)) (s₃.rpcs i) :=
      trace_rpc ((h₁.snoc ⟨_, trivial, hrejected⟩).append h₂) i
    exact ⟨outsider_of_barred (.silent hsilent₃) hout₃, Rpc.accepted_of_mute hmute,
      Rpc.started_of_mute hmute, Rpc.length_finishCalls_le_one hrun,
      Rpc.length_finishCalls_of_idle hrun hsilent₃.reads hsilent₃.quiet.writes⟩
  · intro evs m evs' hm hrest
    have hdials' := dials_of_trace hm
    have hnot : ¬ (m.rpcs i).PastGate := fun hpast =>
      hopen (pastGate_of_trace hrest hdials' hpast)
    exact outsider_of_barred ((Rpc.barred_of_stage (hdials'.stage i)).resolve_right hnot)
      (habsent m hdials' hnot)

/-- Subscriber `⟨4, 5, 6⟩` has registered, and another dial presents its key. -/
def impostor : List ServerAction :=
  [.startGrpcServer true, .streamParticipants, .streamParticipants,
    .reactor 0 (.onReadDone (some ⟨4, 5, 6⟩)), .reactor 0 (.run 0 true []),
    .reactor 0 (.run 0 true []), .reactor 1 (.onReadDone (some ⟨4, 5, 6⟩))]

/-- The impostor is turned away, cancels, and its stream ends. -/
def turnedAway : List ServerAction :=
  [.reactor 1 .onCancel, .reactor 1 (.run 0 true []), .reactor 1 (.run 0 true []),
    .reactor 1 (.run 0 true []), .reactor 1 .onDone, .reactor 1 (.run 0 true [])]

theorem rejected_dialer_impostor :
    ∃ evs₁ s₁ e s₂ evs₂ s₃,
      exec step (init (Node.fresh ⟨1, 2, 3⟩ {}) 4 3 1 : Server 1) impostor = some (evs₁, s₁) ∧
      s₁.step (.reactor 1 (.run 0 false [])) = some (e, s₂) ∧
      exec step s₂ turnedAway = some (evs₂, s₃) ∧
      TurnedAway 1 (evs₁ ++ [e] ++ evs₂) s₃ ∧
      ∀ evs m evs', Trace (Steps step) (init (Node.fresh ⟨1, 2, 3⟩ {}) 4 3 1) evs m →
        Trace (Steps step) m evs' s₁ → m.Outsider 1 := by
  have hrun : ((exec step (init (Node.fresh ⟨1, 2, 3⟩ {}) 4 3 1 : Server 1) impostor).map
      fun p => (pick 0 (p.2.rpcs 1).tasks,
        ((p.2.step (.reactor 1 (.run 0 false []))).map fun q =>
          (exec step q.2 turnedAway).isSome))) = some (some (.gate, []), some true) := rfl
  obtain ⟨⟨evs₁, s₁⟩, h₁, hp⟩ := Option.map_eq_some_iff.mp hrun
  obtain ⟨hgate, hstep⟩ := Prod.mk.inj hp
  obtain ⟨⟨e, s₂⟩, hrejected, hrest⟩ := Option.map_eq_some_iff.mp hstep
  obtain ⟨⟨evs₂, s₃⟩, h₂⟩ := Option.isSome_iff_exists.mp hrest
  exact ⟨evs₁, s₁, e, s₂, evs₂, s₃, h₁, hrejected, h₂,
    rejected_dialer (trace_of_exec (fun _ _ _ => trivial) h₁) hgate hrejected
      (trace_of_exec (fun _ _ _ => trivial) h₂)⟩

end Server

end Edriel
