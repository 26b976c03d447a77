import Edriel.Dial
import Edriel.Ledger

namespace Edriel

open Proto3 Std Interleaving

def Registered (i : Nat) (evs : List ServerEvent) : Prop :=
  ∃ sk superseded, .registered i sk superseded ∈ evs

theorem registered_concat {i : Nat} {evs : List ServerEvent} {e : ServerEvent} :
    Registered i (evs ++ [e]) ↔
      Registered i evs ∨ ∃ sk superseded, e = .registered i sk superseded := by
  simp only [Registered, List.mem_append, List.mem_singleton, exists_or, eq_comm]

theorem registered_concat_other {i : Nat} {evs : List ServerEvent} {e : ServerEvent}
    (hother : ∀ sk superseded, e ≠ .registered i sk superseded) :
    Registered i (evs ++ [e]) ↔ Registered i evs := by
  rw [registered_concat]
  refine or_iff_left ?_
  rintro ⟨sk, superseded, he⟩
  exact hother sk superseded he

theorem Rpc.evicts_of_unregister {F : Type*} {s s' : Rpc F} {a : RpcAction F}
    {sk : SubscriberKey} (h : s.step a = some (.unregister sk, s')) :
    ∃ t ∈ s.tasks, t.evicts = true := by
  generalize he : RpcEvent.unregister sk = e at h
  cases stepped_of_step h with
  | @run i t rest answer hpick =>
      refine ⟨t, (mem_of_pick hpick).mpr (.inl rfl), ?_⟩
      cases t with
      | unregister => rfl
      | startWrite after =>
          rw [runTask] at he
          split at he <;> cases he
      | presence frames => cases frames <;> cases he
      | finish status =>
          rw [runTask] at he
          split at he <;> cases he
      | _ => cases he
  | _ => cases he

namespace Server

variable {N : Nat}

/-- What a step of the node does to reactor `i`: only a reactor of the table is
pushed to or superseded. -/
inductive Moved (s : Server N) (a : ServerAction) (e : ServerEvent) (s' : Server N)
    (i : Nat) : Prop
  | still (hrpc : s'.rpcs i = s.rpcs i) (hview : e.view i = [])
  | reactor {b : ReactorAction} {e' : RpcEvent OutFrame} (ha : a = .reactor i b)
      (hstep : (s.rpcs i).step b.toRpc = some (e', s'.rpcs i)) (hview : e.view i = [e'])
  | entry {b : RpcAction OutFrame} {e' : RpcEvent OutFrame} {sk : SubscriberKey}
      (hentry : s.subscribers[sk]? = some i)
      (hb : (b = .supersede ∧ ∃ j, e = .registered j sk (some i)) ∨ ∃ f, b = .enqueue f)
      (hstep : (s.rpcs i).step b = some (e', s'.rpcs i)) (hview : e.view i = [e'])

theorem superseded_of_registerSubscriber {s : Server N} {sk : SubscriberKey} {i j : Nat}
    (h : (s.registerSubscriber sk j).1 = some i) : s.subscribers[sk]? = some i := by
  rw [registerSubscriber] at h
  split at h
  · cases h
  · split at h
    · cases h
    · rename_i hentry _
      rw [hentry]
      exact h

theorem moved_react {s : Server N} {j : Nat} {b : ReactorAction} {e : RpcEvent OutFrame}
    {r : Rpc OutFrame} (h : (s.rpcs j).step b.toRpc = some (e, r)) (i : Nat) :
    Moved s (.reactor j b) (s.react j e r).1 (s.react j e r).2 i := by
  have hself : ∀ {s' : Server N} {e' : ServerEvent}, (s'.rpcs i = (s.setRpc j r).rpcs i) →
      (e'.view i = if j = i then [e] else []) → Moved s (.reactor j b) e' s' i := by
    intro s' e' hrpc hview
    by_cases hji : j = i
    · subst hji
      rw [rpcs_setRpc, if_pos rfl] at hrpc
      rw [if_pos rfl] at hview
      exact .reactor rfl (hrpc ▸ h) hview
    · rw [rpcs_setRpc, if_neg hji] at hrpc
      rw [if_neg hji] at hview
      exact .still hrpc hview
  cases e with
  | register sk =>
      by_cases hsup : ((s.setRpc j r).registerSubscriber sk j).1 = some i
      · have hji : j ≠ i := by
          rintro rfl
          exact registerSubscriber_ne_self _ sk j hsup
        have hentry : (s.setRpc j r).subscribers[sk]? = some i :=
          superseded_of_registerSubscriber hsup
        have hrpc : ((s.setRpc j r).registerSubscriber sk j).2.rpcs i =
            (s.rpcs i).supersede := by
          rw [rpcs_registerSubscriber, if_pos hsup, rpcs_setRpc, if_neg hji]
        have hstep : (s.rpcs i).step .supersede =
            some (.superseded, ((s.setRpc j r).registerSubscriber sk j).2.rpcs i) := by
          rw [hrpc]
          rfl
        refine .entry hentry (.inl ⟨rfl, j, ?_⟩) hstep ?_
        · simp only [react, hsup]
        · simp only [react, ServerEvent.view, if_neg hji, if_pos hsup]
      · refine hself ?_ ?_
        · simp only [react, rpcs_registerSubscriber, if_neg hsup]
        · simp only [react, ServerEvent.view, if_neg hsup]
  | unregister sk => exact hself (rpcs_unregisterSubscriber _ _ _ _) rfl
  | _ => exact hself rfl rfl

theorem service_react (s : Server N) (j : Nat) (e : RpcEvent OutFrame) (r : Rpc OutFrame) :
    (s.react j e r).2.serving = s.serving ∧ (s.react j e r).2.dials = s.dials := by
  cases e with
  | register sk =>
      rw [react, registerSubscriber]
      dsimp only
      split
      · exact ⟨rfl, rfl⟩
      · split <;> exact ⟨rfl, rfl⟩
  | unregister sk =>
      rw [react, unregisterSubscriber]
      dsimp only
      split <;> exact ⟨rfl, rfl⟩
  | _ => exact ⟨rfl, rfl⟩

structure Dials (s : Server N) : Prop where
  stage : ∀ i, (s.rpcs i).Stage
  entered : ∀ (sk : SubscriberKey) (i : Nat), s.subscribers[sk]? = some i → (s.rpcs i).Served
  undialed : ∀ i, s.dials ≤ i → (s.rpcs i).Waiting
  idle : s.serving = false → ∀ i < s.dials, (s.rpcs i).done = true

theorem Dials.admitted {s s' : Server N} {a : ServerAction} {e : ServerEvent} {i : Nat}
    (hs : s.Dials) (hmoved : Moved s a e s' i) :
    s'.rpcs i = s.rpcs i ∧ e.view i = [] ∨ ∃ b e', (s.rpcs i).step b = some (e', s'.rpcs i) ∧
      (s.rpcs i).Admitted b ∧ e.view i = [e'] := by
  cases hmoved with
  | still hrpc hview => exact .inl ⟨hrpc, hview⟩
  | @reactor b e' ha hstep hview =>
      refine .inr ⟨_, _, hstep, ?_, hview⟩
      cases b <;> exact trivial
  | entry hentry hb hstep hview =>
      refine .inr ⟨_, _, hstep, ?_, hview⟩
      rcases hb with ⟨rfl, -⟩ | ⟨f, rfl⟩ <;> exact hs.entered _ i hentry

variable [NeZero N]

theorem moved_of_step {s s' : Server N} {a : ServerAction} {e : ServerEvent}
    (h : s.step a = some (e, s')) (i : Nat) : Moved s a e s' i := by
  cases a with
  | registry op =>
      obtain ⟨rfl, rfl⟩ := Prod.mk.inj (Option.some.inj h)
      exact .still rfl rfl
  | startGrpcServer bound =>
      simp only [step] at h
      split_ifs at h <;> obtain ⟨rfl, rfl⟩ := Prod.mk.inj (Option.some.inj h) <;>
        exact .still rfl rfl
  | stopGrpcServer =>
      simp only [step] at h
      split_ifs at h
      obtain ⟨rfl, rfl⟩ := Prod.mk.inj (Option.some.inj h)
      exact .still rfl rfl
  | streamParticipants =>
      simp only [step] at h
      split_ifs at h
      obtain ⟨rfl, rfl⟩ := Prod.mk.inj (Option.some.inj h)
      exact .still rfl rfl
  | reactor j b =>
      obtain ⟨e', r, hstep, rfl, rfl⟩ := react_of_step h
      exact moved_react hstep i
  | tryPublishReliable topicName messageType payload now =>
      simp only [step] at h
      split_ifs at h
      have hsend := Option.some.inj h
      rw [tryPublishReliable] at hsend
      split at hsend <;> obtain ⟨rfl, rfl⟩ := Prod.mk.inj hsend <;> exact .still rfl rfl
  | resume =>
      obtain ⟨c, -, hresume⟩ := Option.map_eq_some_iff.mp h
      rw [resume] at hresume
      split at hresume
      · obtain ⟨rfl, rfl⟩ := Prod.mk.inj hresume
        exact .still rfl rfl
      · rename_i sub rest hremaining
        obtain rfl := congrArg Prod.fst hresume
        obtain rfl := congrArg Prod.snd hresume
        by_cases htarget : s.subscribers[sub.subscriberKey]? = some i
        · have hstep : (s.rpcs i).step (.enqueue (.data c.number c.data)) =
              some (.enqueued (.data c.number c.data)
                (s.pushStatus c (s.subscribers[sub.subscriberKey]?)),
                (s.pushData c (s.subscribers[sub.subscriberKey]?)).rpcs i) := by
            rw [rpcs_pushData, if_pos htarget, htarget]
            rfl
          exact .entry htarget (.inr ⟨_, rfl⟩) hstep (if_pos htarget)
        · refine .still ?_ ?_
          · simp only [rpcs_pushData, if_neg htarget]
          · simp only [ServerEvent.view, if_neg htarget]

/-- An entry stays until its reactor unregisters or another one registers under the
key; the table is cleared only when every stream is over. -/
theorem entry_of_step {s s' : Server N} {a : ServerAction} {e : ServerEvent}
    {sk : SubscriberKey} {i : Nat} (h : s.step a = some (e, s'))
    (hentry : s.subscribers[sk]? = some i) :
    s'.subscribers[sk]? = some i ∨ (∃ j, j ≠ i ∧ e = .registered j sk (some i)) ∨
      e = .reactor i (.unregister sk) ∨
        e = .internal ∧ (s.serving = false ∨ ∀ j < s.dials, (s.rpcs j).done = true) := by
  cases a with
  | registry op =>
      obtain ⟨rfl, rfl⟩ := Prod.mk.inj (Option.some.inj h)
      exact .inl hentry
  | startGrpcServer bound =>
      simp only [step] at h
      split_ifs at h with _ hnew
      · obtain ⟨rfl, rfl⟩ := Prod.mk.inj (Option.some.inj h)
        exact .inl hentry
      · obtain ⟨rfl, rfl⟩ := Prod.mk.inj (Option.some.inj h)
        simp only [Bool.or_eq_true, not_or, Bool.not_eq_true] at hnew
        exact .inr (.inr (.inr ⟨rfl, .inl hnew.1⟩))
  | stopGrpcServer =>
      simp only [step] at h
      split_ifs at h with hopen
      obtain ⟨rfl, rfl⟩ := Prod.mk.inj (Option.some.inj h)
      simp only [Bool.or_eq_true, not_or, Bool.not_eq_true, Bool.not_eq_false',
        List.all_eq_true, List.mem_range] at hopen
      exact .inr (.inr (.inr ⟨rfl, .inr hopen.2⟩))
  | streamParticipants =>
      simp only [step] at h
      split_ifs at h
      obtain ⟨rfl, rfl⟩ := Prod.mk.inj (Option.some.inj h)
      exact .inl hentry
  | reactor j b =>
      obtain ⟨e', r, -, rfl, rfl⟩ := react_of_step h
      cases e' with
      | register sk' =>
          have htable : ((s.setRpc j r).registerSubscriber sk' j).2.subscribers =
              s.subscribers.insert sk' j := subscribers_registerSubscriber _ _ _
          by_cases hsk : sk' = sk
          · subst hsk
            by_cases hji : j = i
            · refine .inl ?_
              rw [react, htable, hji]
              exact ExtTreeMap.getElem?_insert_self
            · refine .inr (.inl ⟨j, hji, ?_⟩)
              have hold : (s.setRpc j r).subscribers[sk']? = some i := hentry
              rw [react, registerSubscriber, hold]
              dsimp only
              rw [if_neg (Ne.symm hji)]
          · refine .inl ?_
            rw [react, htable, ExtTreeMap.getElem?_insert, if_neg]
            · exact hentry
            · exact fun heq => hsk (LawfulEqOrd.compare_eq_iff_eq.mp heq)
      | unregister sk' =>
          have hold : (s.setRpc j r).subscribers[sk]? = some i := hentry
          rw [react, unregisterSubscriber]
          dsimp only
          split
          · rename_i hown
            by_cases hsk : sk' = sk
            · subst hsk
              obtain rfl : i = j := Option.some.inj (hold.symm.trans hown)
              exact .inr (.inr (.inl rfl))
            · refine .inl ?_
              rw [ExtTreeMap.getElem?_erase, if_neg]
              · exact hold
              · exact fun heq => hsk (LawfulEqOrd.compare_eq_iff_eq.mp heq)
          · exact .inl hold
      | _ => exact .inl hentry
  | tryPublishReliable topicName messageType payload now =>
      simp only [step] at h
      split_ifs at h
      have hsend := Option.some.inj h
      rw [tryPublishReliable] at hsend
      split at hsend <;> obtain ⟨rfl, rfl⟩ := Prod.mk.inj hsend <;> exact .inl hentry
  | resume =>
      obtain ⟨c, -, hresume⟩ := Option.map_eq_some_iff.mp h
      rw [resume] at hresume
      split at hresume
      · obtain ⟨rfl, rfl⟩ := Prod.mk.inj hresume
        exact .inl hentry
      · obtain rfl := congrArg Prod.snd hresume
        refine .inl ?_
        rename_i sub rest hremaining
        change (s.pushData c _).subscribers[sk]? = some i
        cases s.subscribers[sub.subscriberKey]? <;> exact hentry

/-- The service takes dials while it exists and waits for all of them to end. -/
theorem service_of_step {s s' : Server N} {a : ServerAction} {e : ServerEvent}
    (h : s.step a = some (e, s')) :
    (s'.serving = s.serving ∧ s'.dials = s.dials) ∨
      (s.serving = true ∧ s'.serving = true ∧ s.dials ≤ s'.dials) ∨
      s'.dials = s.dials ∧ (s'.serving = true ∨ ∀ j < s.dials, (s.rpcs j).done = true) := by
  cases a with
  | registry op =>
      obtain ⟨rfl, rfl⟩ := Prod.mk.inj (Option.some.inj h)
      exact .inl ⟨rfl, rfl⟩
  | startGrpcServer bound =>
      simp only [step] at h
      split_ifs at h
      · obtain ⟨rfl, rfl⟩ := Prod.mk.inj (Option.some.inj h)
        exact .inl ⟨rfl, rfl⟩
      · obtain ⟨rfl, rfl⟩ := Prod.mk.inj (Option.some.inj h)
        exact .inr (.inr ⟨rfl, .inl rfl⟩)
  | stopGrpcServer =>
      simp only [step] at h
      split_ifs at h with hopen
      obtain ⟨rfl, rfl⟩ := Prod.mk.inj (Option.some.inj h)
      simp only [Bool.or_eq_true, not_or, Bool.not_eq_true, Bool.not_eq_false',
        List.all_eq_true, List.mem_range] at hopen
      exact .inr (.inr ⟨rfl, .inr hopen.2⟩)
  | streamParticipants =>
      simp only [step] at h
      split_ifs at h with hserving
      obtain ⟨rfl, rfl⟩ := Prod.mk.inj (Option.some.inj h)
      exact .inr (.inl ⟨hserving, hserving, Nat.le_succ _⟩)
  | reactor j b =>
      obtain ⟨e', r, -, -, rfl⟩ := react_of_step h
      exact .inl (service_react s j e' r)
  | tryPublishReliable topicName messageType payload now =>
      simp only [step] at h
      split_ifs at h
      have hsend := Option.some.inj h
      rw [tryPublishReliable] at hsend
      split at hsend <;> obtain ⟨rfl, rfl⟩ := Prod.mk.inj hsend <;> exact .inl ⟨rfl, rfl⟩
  | resume =>
      obtain ⟨c, -, hresume⟩ := Option.map_eq_some_iff.mp h
      rw [resume] at hresume
      split at hresume
      · obtain ⟨rfl, rfl⟩ := Prod.mk.inj hresume
        exact .inl ⟨rfl, rfl⟩
      · obtain rfl := congrArg Prod.snd hresume
        rename_i sub rest hremaining
        refine .inl ?_
        change (s.pushData c _).serving = s.serving ∧ (s.pushData c _).dials = s.dials
        cases s.subscribers[sub.subscriberKey]? <;> exact ⟨rfl, rfl⟩

theorem lt_dials_of_step {s s' : Server N} {i : Nat} {b : ReactorAction} {e : ServerEvent}
    (h : s.step (.reactor i b) = some (e, s')) : i < s.dials := by
  simp only [step] at h
  split_ifs at h with hdialed
  exact hdialed

theorem dials_le_of_step {s s' : Server N} {a : ServerAction} {e : ServerEvent}
    (h : s.step a = some (e, s')) : s.dials ≤ s'.dials := by
  rcases service_of_step h with ⟨-, hdials⟩ | ⟨-, -, hle⟩ | ⟨hdials, -⟩
  · exact hdials.ge
  · exact hle
  · exact hdials.ge

theorem done_of_step {s s' : Server N} {a : ServerAction} {e : ServerEvent}
    (h : s.step a = some (e, s')) {i : Nat} (hdone : (s.rpcs i).done = true) :
    (s'.rpcs i).done = true := by
  cases moved_of_step h i with
  | still hrpc _ => rw [hrpc]; exact hdone
  | reactor _ hstep _ => exact (Rpc.lifecycle_of_step hstep).done hdone
  | entry _ _ hstep _ => exact (Rpc.lifecycle_of_step hstep).done hdone

theorem served_of_step {s s' : Server N} {a : ServerAction} {e : ServerEvent}
    (h : s.step a = some (e, s')) {i : Nat} (hs : (s.rpcs i).Served) : (s'.rpcs i).Served := by
  cases moved_of_step h i with
  | still hrpc _ => rw [hrpc]; exact hs
  | reactor _ hstep _ => exact Rpc.served_of_step hstep hs
  | entry _ _ hstep _ => exact Rpc.served_of_step hstep hs

theorem registers_of_step {s s' : Server N} {a : ServerAction} {i : Nat} {sk : SubscriberKey}
    {superseded : Option Nat} (h : s.step a = some (.registered i sk superseded, s')) :
    ∃ b : ReactorAction, a = .reactor i b ∧
      (s.rpcs i).step b.toRpc = some (.register sk, s'.rpcs i) := by
  have hview : (ServerEvent.registered i sk superseded).view i = [.register sk] := if_pos rfl
  cases moved_of_step h i with
  | still _ hnone => cases hview.symm.trans hnone
  | @reactor b e' ha hstep hsome =>
      obtain rfl := List.singleton_inj.mp (hview.symm.trans hsome)
      exact ⟨b, ha, hstep⟩
  | @entry b e' sk' hentry hb hstep hsome =>
      obtain rfl := List.singleton_inj.mp (hview.symm.trans hsome)
      rcases hb with ⟨rfl, -⟩ | ⟨f, rfl⟩ <;> cases hstep

theorem dials_step {s s' : Server N} {a : ServerAction} {e : ServerEvent}
    (h : s.step a = some (e, s')) (hs : s.Dials) : s'.Dials := by
  have hdone : ∀ i < s.dials, (s.rpcs i).done = true → (s'.rpcs i).done = true :=
    fun _ _ => done_of_step h
  constructor
  case stage =>
    intro i
    rcases hs.admitted (moved_of_step h i) with ⟨hrpc, -⟩ | ⟨b, e', hstep, hadmitted, -⟩
    · rw [hrpc]
      exact hs.stage i
    · exact Rpc.stage_of_step hstep (hs.stage i) hadmitted
  case entered =>
    intro sk i hentry
    rcases kept_or_registered_of_step h hentry with hkept | ⟨superseded, rfl⟩
    · exact served_of_step h (hs.entered sk i hkept)
    · obtain ⟨b, -, hstep⟩ := registers_of_step h
      exact (Rpc.joining_of_register (hs.stage i) hstep).2
  case undialed =>
    intro i hi
    have hwaiting := hs.undialed i ((dials_le_of_step h).trans hi)
    cases moved_of_step h i with
    | still hrpc _ => rw [hrpc]; exact hwaiting
    | reactor ha hstep _ =>
        subst ha
        exact absurd (lt_dials_of_step h) (Nat.not_lt.mpr ((dials_le_of_step h).trans hi))
    | entry hentry _ _ _ =>
        cases (hs.entered _ i hentry).named.symm.trans hwaiting.unnamed
  case idle =>
    intro hserving i hi
    rcases service_of_step h with ⟨hsame, hdials⟩ | ⟨-, hon, -⟩ | ⟨hdials, hon | hall⟩
    · rw [hdials] at hi
      exact hdone i hi (hs.idle (hsame.symm.trans hserving) i hi)
    · cases hserving.symm.trans hon
    · cases hserving.symm.trans hon
    · rw [hdials] at hi
      exact hdone i hi (hall i hi)

theorem dials_of_trace {ok : Server N → ServerAction → Prop} {node : Node N}
    {maxFrames hwm lwm : Nat} {evs : List ServerEvent} {s : Server N}
    (h : Trace (StepsWhere ok step) (init node maxFrames hwm lwm) evs s) : s.Dials := by
  refine Trace.invariant (P := fun _ s => s.Dials) ?_ ?_ h
  · have hwaiting : ∀ i, ((init node maxFrames hwm lwm).rpcs i).Waiting :=
      fun _ => ⟨⟨rfl, rfl, rfl⟩, rfl, rfl, rfl, rfl⟩
    refine ⟨fun i => .waiting (hwaiting i), fun sk i hentry => ?_, fun i _ => hwaiting i, ?_⟩
    · exact absurd hentry (by simp [init])
    · exact fun _ i hi => absurd hi (Nat.not_lt_zero i)
  · rintro evs s e s' - hs ⟨a, -, hstep⟩
    exact dials_step hstep hs

theorem live_of_step {s s' : Server N} {a : ServerAction} {e : ServerEvent}
    (h : s.step a = some (e, s')) {i : Nat} (hlive : (s'.rpcs i).reactor.isLive = true) :
    (s.rpcs i).reactor.isLive = true := by
  cases moved_of_step h i with
  | still hrpc _ => rwa [hrpc] at hlive
  | reactor _ hstep _ => exact Rpc.live_of_step hstep hlive
  | entry _ _ hstep _ => exact Rpc.live_of_step hstep hlive

/-- A reactor that another one has superseded is not live. -/
theorem not_live_of_superseded {s s' : Server N} {a : ServerAction} {i j : Nat}
    {sk : SubscriberKey} (h : s.step a = some (.registered j sk (some i), s')) :
    (s'.rpcs i).reactor.isLive = false := by
  obtain ⟨b, rfl, -⟩ := registers_of_step h
  obtain ⟨e', r, -, he, rfl⟩ := react_of_step h
  cases e' with
  | register sk' =>
      obtain ⟨-, -, hsup⟩ := ServerEvent.registered.inj he
      rw [react, rpcs_registerSubscriber, if_pos hsup]
      exact Bool.and_false _
  | _ => cases he

theorem evicts_of_unregistered {s s' : Server N} {a : ServerAction} {i : Nat}
    {sk : SubscriberKey} (h : s.step a = some (.reactor i (.unregister sk), s')) :
    ∃ t ∈ (s.rpcs i).tasks, t.evicts = true := by
  have hview : (ServerEvent.reactor i (.unregister sk)).view i = [.unregister sk] := if_pos rfl
  cases moved_of_step h i with
  | still _ hnone => cases hview.symm.trans hnone
  | reactor _ hstep hsome =>
      obtain rfl := List.singleton_inj.mp (hview.symm.trans hsome)
      exact Rpc.evicts_of_unregister hstep
  | entry _ _ hstep hsome =>
      obtain rfl := List.singleton_inj.mp (hview.symm.trans hsome)
      exact Rpc.evicts_of_unregister hstep

omit [NeZero N] in
theorem Dials.over {s : Server N} (hs : s.Dials) {sk : SubscriberKey} {i : Nat}
    (hentry : s.subscribers[sk]? = some i)
    (hover : s.serving = false ∨ ∀ j < s.dials, (s.rpcs j).done = true) :
    (s.rpcs i).done = true := by
  have hdialed : i < s.dials := by
    by_contra hi
    have hwaiting := hs.undialed i (Nat.not_lt.mp hi)
    cases (hs.entered sk i hentry).named.symm.trans hwaiting.unnamed
  rcases hover with hserving | hall
  · exact hs.idle hserving i hdialed
  · exact hall i hdialed

/-- The live reactor among those registered is the one in the table. -/
def Owned (evs : List ServerEvent) (s : Server N) : Prop :=
  ∀ i, Registered i evs → (s.rpcs i).reactor.isLive = true →
    s.subscribers[(s.rpcs i).reactor.key]? = some i

theorem owned_step {ok : Server N → ServerAction → Prop} {node : Node N}
    {maxFrames hwm lwm : Nat} {evs : List ServerEvent} {s s' : Server N} {a : ServerAction}
    {e : ServerEvent} (h : Trace (StepsWhere ok step) (init node maxFrames hwm lwm) evs s)
    (hstep : s.step a = some (e, s')) (howned : s.Owned evs) : s'.Owned (evs ++ [e]) := by
  intro i hregistered hlive
  have htable := tableInv_of_trace h
  have hdials := dials_of_trace h
  by_cases hnew : ∃ sk superseded, e = .registered i sk superseded
  · obtain ⟨sk, superseded, rfl⟩ := hnew
    obtain ⟨-, hkey⟩ := identity_of_registered hstep htable
    have heffect : s'.subscribers = s.subscribers.insert sk i :=
      tableEffect_of_stepped (stepped_of_step hstep)
    rw [hkey, heffect]
    exact ExtTreeMap.getElem?_insert_self
  · have hold := (registered_concat.mp hregistered).resolve_right hnew
    have hwas := live_of_step hstep hlive
    have hentry := howned i hold hwas
    obtain ⟨-, hkey⟩ := keepsIdentity_of_step hstep htable i (hdials.entered _ i hentry).named
    rw [hkey]
    rcases entry_of_step hstep hentry with hkept | ⟨j, -, rfl⟩ | rfl | ⟨-, hover⟩
    · exact hkept
    · cases hlive.symm.trans (not_live_of_superseded hstep)
    · have hevicts := evicts_of_unregistered hstep
      cases hwas.symm.trans (Rpc.not_live_of_evicts (trace_rpc h i) hevicts)
    · have hdone : (s.rpcs i).done = true := hdials.over hentry hover
      cases hwas.symm.trans (Rpc.not_live_of_done (trace_rpc h i) hdone)

theorem owned_of_trace {ok : Server N → ServerAction → Prop} {node : Node N}
    {maxFrames hwm lwm : Nat} {evs : List ServerEvent} {s : Server N}
    (h : Trace (StepsWhere ok step) (init node maxFrames hwm lwm) evs s) : s.Owned evs := by
  refine Trace.invariant (P := fun evs s => s.Owned evs) ?_ ?_ h
  · rintro i ⟨sk, superseded, hmem⟩
    cases hmem
  · rintro evs s e s' hprev howned ⟨a, -, hstep⟩
    exact owned_step hprev hstep howned

theorem entry_of_unregistered {s s' : Server N} {a : ServerAction} {i j : Nat}
    {sk sk' : SubscriberKey} (h : s.step a = some (.reactor j (.unregister sk'), s'))
    (hji : j ≠ i) (hentry : s.subscribers[sk]? = some i) : s'.subscribers[sk]? = some i := by
  rcases entry_of_step h hentry with hkept | ⟨k, -, he⟩ | he | ⟨he, -⟩
  · exact hkept
  · cases he
  · exact absurd (ServerEvent.reactor.inj he).1 hji
  · cases he

/-- The pushes of a send go to different subscribers, each of them once. -/
structure Once (evs : List ServerEvent) (p : ReliablePublisher) : Prop where
  distinct : ∀ c, p.call = some c → (c.remaining.map Identity.subscriberKey).Nodup
  passed : ∀ c, p.call = some c → ∀ c' sk target status,
    .pushed c' sk target status ∈ evs → c'.number = c.number →
      sk ∉ c.remaining.map Identity.subscriberKey
  once : ∀ c c' sk target target' status status', .pushed c sk target status ∈ evs →
    .pushed c' sk target' status' ∈ evs → c.number = c'.number → target = target'

theorem once_quiet {evs : List ServerEvent} {p p' : ReliablePublisher} {e : ServerEvent}
    (hinv : Once evs p) (hcall : ∀ c, p'.call = some c → p.call = some c)
    (he : ∀ c sk target status, e ≠ .pushed c sk target status) : Once (evs ++ [e]) p' := by
  have hmem : ∀ {c sk target status}, .pushed c sk target status ∈ evs ++ [e] →
      .pushed c sk target status ∈ evs := by
    intro c sk target status h
    refine (List.mem_append.mp h).resolve_right fun h => ?_
    exact he c sk target status (List.mem_singleton.mp h).symm
  exact ⟨fun c hc => hinv.distinct c (hcall c hc),
    fun c hc c' sk target status h => hinv.passed c (hcall c hc) c' sk target status (hmem h),
    fun c c' sk target target' status status' h h' =>
      hinv.once c c' sk target target' status status' (hmem h) (hmem h')⟩

theorem once_step {evs : List ServerEvent} {s s' : Server N} {e : ServerEvent}
    (hinv : Once evs s.publisher) (htid : TidInv evs s.publisher) (hwire : s.node.WirePids)
    (h : Stepped s e s') : Once (evs ++ [e]) s'.publisher := by
  have heffect := publisherEffect_of_stepped h
  cases e with
  | refused call why =>
      refine once_quiet hinv (fun c hc => ?_) (fun _ _ _ _ => by simp)
      rw [heffect.2.2.1] at hc
      cases hc
  | begun c =>
      obtain ⟨-, ⟨topicName, messageType, payload, hopening⟩, hcall, -, -⟩ := heffect
      have hmem : ∀ {c' sk target status}, .pushed c' sk target status ∈ evs ++ [.begun c] →
          .pushed c' sk target status ∈ evs := by simp
      have honly : ∀ c', s'.publisher.call = some c' → c' = c := fun c' hc' =>
        Option.some.inj (hc'.symm.trans hcall)
      constructor
      case distinct =>
        intro c' hc'
        rw [honly c' hc']
        exact distinct_of_opening hwire hopening
      case passed =>
        intro c' hc' c₀ sk target status h hnumber
        rw [honly c' hc', hopening.number] at hnumber
        have := htid.pushed_lt c₀ sk target status (hmem h)
        omega
      case once =>
        exact fun c₁ c₂ sk target target' status status' h h' =>
          hinv.once c₁ c₂ sk target target' status status' (hmem h) (hmem h')
  | pushed c sk target status =>
      obtain ⟨hcall, ⟨sub, rest, hremaining, rfl⟩, -, -, hs'⟩ := heffect
      have honly : ∀ c', s'.publisher.call = some c' →
          c'.remaining = rest ∧ c'.number = c.number := by
        intro c' hc'
        rw [hs'] at hc'
        obtain rfl := Option.some.inj hc'
        exact ⟨by rw [Call.noted, hremaining, List.tail_cons], rfl⟩
      have hdistinct := hinv.distinct c hcall
      rw [hremaining, List.map_cons] at hdistinct
      have hpassed := hinv.passed c hcall
      rw [hremaining, List.map_cons] at hpassed
      have hcases : ∀ {c' sk' target' status'},
          .pushed c' sk' target' status' ∈ evs ++ [.pushed c sub.subscriberKey target status] →
            .pushed c' sk' target' status' ∈ evs ∨
              c' = c ∧ sk' = sub.subscriberKey ∧ target' = target := by
        intro c' sk' target' status' h
        refine (List.mem_append.mp h).imp_right fun h => ?_
        obtain ⟨rfl, rfl, rfl, rfl⟩ := ServerEvent.pushed.inj (List.mem_singleton.mp h)
        exact ⟨rfl, rfl, rfl⟩
      constructor
      case distinct =>
        intro c' hc'
        rw [(honly c' hc').1]
        exact hdistinct.of_cons
      case passed =>
        intro c' hc' c₀ sk target' status' h hnumber
        rw [(honly c' hc').1]
        rw [(honly c' hc').2] at hnumber
        rcases hcases h with h | ⟨-, rfl, -⟩
        · exact fun hmem => hpassed c₀ sk target' status' h hnumber (List.mem_cons_of_mem _ hmem)
        · exact (List.nodup_cons.mp hdistinct).1
      case once =>
        intro c₁ c₂ sk target₁ target₂ status₁ status₂ h₁ h₂ hnumber
        rcases hcases h₁ with hold₁ | ⟨rfl, rfl, rfl⟩
        · rcases hcases h₂ with hold₂ | ⟨rfl, rfl, rfl⟩
          · exact hinv.once c₁ c₂ sk target₁ target₂ status₁ status₂ hold₁ hold₂ hnumber
          · exact absurd List.mem_cons_self (hpassed c₁ _ target₁ status₁ hold₁ hnumber)
        · rcases hcases h₂ with hold₂ | ⟨-, -, rfl⟩
          · exact absurd List.mem_cons_self (hpassed c₂ _ target₂ status₂ hold₂ hnumber.symm)
          · rfl
  | returned c result =>
      refine once_quiet hinv (fun c' hc' => ?_) (fun _ _ _ _ => by simp)
      obtain ⟨-, -, -, hs'⟩ := heffect
      rw [hs'] at hc'
      cases hc'
  | _ =>
      have hcall : s'.publisher.call = s.publisher.call :=
        congrArg ReliablePublisher.call heffect
      exact once_quiet hinv (fun c hc => hcall.symm.trans hc) (fun _ _ _ _ => by simp)

theorem once_of_trace {ok : Server N → ServerAction → Prop} {me : Identity} {config : Config}
    {maxFrames hwm lwm : Nat} {evs : List ServerEvent} {s : Server N}
    (h : Trace (StepsWhere ok step) (init (Node.fresh me config) maxFrames hwm lwm) evs s) :
    s.node.WirePids ∧ Once evs s.publisher := by
  refine Trace.invariant (P := fun evs s => s.node.WirePids ∧ Once evs s.publisher)
    ⟨Node.wirePids_fresh me config, ?_, ?_, ?_⟩ ?_ h
  · exact fun c hc => by cases hc
  · exact fun c hc => by cases hc
  · exact fun _ _ _ _ _ _ _ hmem => absurd hmem List.not_mem_nil
  rintro evs s e s' hprev ⟨hwire, hinv⟩ ⟨a, -, hstep⟩
  have hstepped := stepped_of_step hstep
  refine ⟨?_, once_step hinv (tidInv_of_trace hprev) hwire hstepped⟩
  rcases node_of_stepped hstepped with hnode | ⟨op, hnode⟩
  · rwa [hnode]
  · rw [hnode]
    exact Node.wirePids_apply hwire

/-- One live generation for each subscriber. -/
structure OneGeneration (evs : List ServerEvent) (s : Server N) : Prop where
  unique : ∀ i j, Registered i evs → Registered j evs →
    (s.rpcs i).reactor.key = (s.rpcs j).reactor.key →
      (s.rpcs i).reactor.isLive = true → (s.rpcs j).reactor.isLive = true → i = j
  owned : ∀ i, Registered i evs → (s.rpcs i).reactor.isLive = true →
    s.subscribers[(s.rpcs i).reactor.key]? = some i
  kept : ∀ i j a sk s', Registered i evs → (s.rpcs i).reactor.isLive = true → j ≠ i →
    s.step a = some (.reactor j (.unregister sk), s') →
      s'.subscribers[(s.rpcs i).reactor.key]? = some i
  once : ∀ c c' sk i j, .pushed c sk (some i) .accepted ∈ evs →
    .pushed c' sk (some j) .accepted ∈ evs → c.number = c'.number → i = j

/-- At every moment at most one of the registered reactors of a subscriber is live,
and the table points at it; the unregistration of another reactor leaves its entry
in place, and no frame is accepted by two streams of the subscriber. -/
theorem live_generation {me : Identity} {config : Config} {maxFrames hwm lwm : Nat}
    {evs : List ServerEvent} {s : Server N}
    (h : Trace (Steps step) (init (Node.fresh me config) maxFrames hwm lwm) evs s) :
    OneGeneration evs s := by
  have howned := owned_of_trace h
  constructor
  case unique =>
    intro i j hi hj hkey hlivei hlivej
    have hentry := howned i hi hlivei
    rw [hkey, howned j hj hlivej] at hentry
    exact (Option.some.inj hentry).symm
  case owned => exact howned
  case kept =>
    intro i j a sk s' hi hlive hji hstep
    exact entry_of_unregistered hstep hji (howned i hi hlive)
  case once =>
    intro c c' sk i j hi hj hnumber
    exact Option.some.inj ((once_of_trace h).2.once c c' sk _ _ _ _ hi hj hnumber)

/-- A subscriber dials twice; the second dial registers before the first is over. -/
def redial : List ServerAction :=
  [.startGrpcServer true, .streamParticipants, .streamParticipants,
    .reactor 0 (.onReadDone (some ⟨4, 5, 6⟩)), .reactor 0 (.run 0 true []),
    .reactor 0 (.run 0 true []), .reactor 1 (.onReadDone (some ⟨4, 5, 6⟩)),
    .reactor 1 (.run 0 true []), .reactor 1 (.run 0 true [])]

theorem live_generation_redial :
    ∃ evs s, exec step (init (Node.fresh ⟨1, 2, 3⟩ {}) 4 3 1 : Server 1) redial =
        some (evs, s) ∧
      (s.rpcs 0).reactor.isLive = false ∧ (s.rpcs 1).reactor.isLive = true ∧
      OneGeneration evs s := by
  have hrun : (exec step (init (Node.fresh ⟨1, 2, 3⟩ {}) 4 3 1 : Server 1) redial).map
      (fun p => ((p.2.rpcs 0).reactor.isLive, (p.2.rpcs 1).reactor.isLive)) =
        some (false, true) := rfl
  obtain ⟨⟨evs, s⟩, h, hp⟩ := Option.map_eq_some_iff.mp hrun
  obtain ⟨hold, hnew⟩ := Prod.mk.inj hp
  exact ⟨evs, s, h, hold, hnew, live_generation (trace_of_exec (fun _ _ _ => trivial) h)⟩

end Server

end Edriel
