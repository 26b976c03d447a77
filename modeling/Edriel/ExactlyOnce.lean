import Edriel.Delivery
import Edriel.Generations

namespace Edriel

open Proto3 Std Interleaving ReliableReceiver

def ServerEvent.push? : ServerEvent → Option (Nat × OutboxStatus)
  | .pushed c _ _ status => some (c.number, status)
  | _ => none

theorem pushedWith_iff_mem {status : OutboxStatus} {call : Nat} {evs : List ServerEvent} :
    PushedWith status call evs ↔ (call, status) ∈ evs.filterMap ServerEvent.push? := by
  rw [List.mem_filterMap]
  constructor
  · rintro ⟨c, sk, target, hmem, rfl⟩
    exact ⟨_, hmem, rfl⟩
  · rintro ⟨e, hmem, he⟩
    cases e with
    | pushed c sk target status' =>
        have hpush := Option.some.inj he
        obtain rfl : c.number = call := congrArg Prod.fst hpush
        obtain rfl : status' = status := congrArg Prod.snd hpush
        exact ⟨c, sk, target, hmem, rfl⟩
    | _ => cases he

instance (status : OutboxStatus) (call : Nat) (evs : List ServerEvent) :
    Decidable (PushedWith status call evs) :=
  decidable_of_iff _ pushedWith_iff_mem.symm

/-- No send was accepted by one subscriber and refused by another. -/
def Unmixed (evs : List ServerEvent) : Prop :=
  ∀ call, ¬ (PushedWith .accepted call evs ∧ PushedWith .backpressured call evs)

theorem unmixed_iff_all (evs : List ServerEvent) :
    (∀ p ∈ evs.filterMap ServerEvent.push?,
      ¬ (PushedWith .accepted p.1 evs ∧ PushedWith .backpressured p.1 evs)) ↔ Unmixed evs := by
  constructor
  · intro hall call hmixed
    exact hall _ (pushedWith_iff_mem.mp hmixed.1) hmixed
  · exact fun hunmixed p _ => hunmixed p.1

instance (evs : List ServerEvent) : Decidable (Unmixed evs) :=
  decidable_of_iff _ (unmixed_iff_all evs)

theorem Unmixed.of_concat {evs : List ServerEvent} {e : ServerEvent}
    (h : Unmixed (evs ++ [e])) : Unmixed evs := by
  rintro call ⟨haccepted, hrefused⟩
  exact h call ⟨pushedWith_concat.mpr (.inl haccepted), pushedWith_concat.mpr (.inl hrefused)⟩

def ServerEvent.registers (i : Nat) : ServerEvent → Bool
  | .registered j _ _ => j = i
  | _ => false

def ServerEvent.sentPayload? : ServerEvent → Option Bytes
  | .returned c .sent => some c.data.payload
  | _ => none

/-- The payloads whose send has returned `Sent` since subscriber `i` registered. -/
def sentSince (i : Nat) (evs : List ServerEvent) : List Bytes :=
  (evs.dropWhile fun e => !e.registers i).filterMap ServerEvent.sentPayload?

def Ledger.inFlight (l : Ledger) : Option Call → List Bytes
  | none => []
  | some c => if l.taken then [c.data.payload] else []

/-- Whether the node has a subscriber of the topic recorded. -/
def Node.records {N : Nat} [NeZero N] (n : Node N) (key : Bytes) (sk : SubscriberKey) : Bool :=
  match n.topic? key with
  | none => false
  | some entry => entry.subscribers.toList.any fun p => p.subscriberKey = sk

namespace Server

variable {N : Nat} [NeZero N]

/-- While the table points at stream `i`, its subscriber is recorded for the topic. -/
def recorded (topicName messageType : Bytes) (i : Nat) (s : Server N) : Bool :=
  !decide (s.subscribers[(s.rpcs i).reactor.key]? = some i) ||
    s.node.records (makeCompositeKey topicName messageType) (s.rpcs i).reactor.key

theorem registered_of_trace {ok : Server N → ServerAction → Prop} {node : Node N}
    {maxFrames hwm lwm : Nat} {evs : List ServerEvent} {s : Server N}
    (h : Trace (StepsWhere ok step) (init node maxFrames hwm lwm) evs s) :
    ∀ (sk : SubscriberKey) (i : Nat), s.subscribers[sk]? = some i → Registered i evs := by
  refine Trace.invariant (P := fun evs s => ∀ (sk : SubscriberKey) (i : Nat),
    s.subscribers[sk]? = some i → Registered i evs) ?_ ?_ h
  · intro sk i hentry
    exact absurd hentry (by simp [init])
  · rintro evs s e s' - ih ⟨a, -, hstep⟩ sk i hentry
    rw [registered_concat]
    rcases kept_or_registered_of_step hstep hentry with hkept | hregistered
    · exact .inl (ih sk i hkept)
    · exact .inr ⟨sk, hregistered⟩

theorem key_of_step {ok : Server N → ServerAction → Prop} {node : Node N}
    {maxFrames hwm lwm : Nat} {evs : List ServerEvent} {s s' : Server N} {a : ServerAction}
    {e : ServerEvent} {i : Nat}
    (h : Trace (StepsWhere ok step) (init node maxFrames hwm lwm) evs s)
    (hstep : s.step a = some (e, s')) (hregistered : Registered i evs)
    (hlive : (s.rpcs i).reactor.isLive = true) :
    (s'.rpcs i).reactor.key = (s.rpcs i).reactor.key := by
  have htable := tableInv_of_trace h
  have hentry := owned_of_trace h i hregistered hlive
  exact (keepsIdentity_of_step hstep htable i (htable.keyed _ i hentry).1).2

omit [NeZero N] in
theorem pushStatus_of_live {s : Server N} {c : Call} {i : Nat}
    (hlive : (s.rpcs i).reactor.isLive = true) (hrejected : s.pushStatus c (some i) ≠ .accepted) :
    s.pushStatus c (some i) = .backpressured := by
  obtain ⟨hfinished, hcancelled⟩ := (Rpc.isLive_eq_true_iff _).mp hlive
  rw [pushStatus, SubscriberReactor.enqueue, hfinished, hcancelled, if_neg (by simp)] at hrejected ⊢
  split at hrejected
  · rename_i hfull
    rw [if_pos hfull]
  · exact absurd rfl hrejected

/-- The account of a live stream whose subscriber stays recorded: it has accepted
all that was sent to it.  `pending` says what a send that counts for the
subscriber and that its stream has not taken is waiting for. -/
structure Matched (i : Nat) (evs : List ServerEvent) (s : Server N) : Prop where
  connected : (ledger i evs).connected = true ↔ Registered i evs
  offered : (ledger i evs).offered = true → Registered i evs
  accepted : (ledger i evs).accepted ≠ [] → Registered i evs ∧ (ledger i evs).missed = 0
  gaps : ∀ g ∈ (ledger i evs).gaps, g = 0
  sent : (ledger i evs).accepted = (ledger i evs).sent ++ (ledger i evs).inFlight s.publisher.call
  begun : ∀ c, s.publisher.call = some c → (ledger i evs).accepted ≠ [] →
    (ledger i evs).offered = true
  pending : ∀ c, s.publisher.call = some c → (ledger i evs).offered = true →
    (ledger i evs).taken = false →
      (s.rpcs i).reactor.key ∈ c.remaining.map Identity.subscriberKey ∨
        PushedWith .backpressured c.number evs

variable {ok : Server N → ServerAction → Prop} {me : Identity} {config : Config}
  {maxFrames hwm lwm : Nat} {topicName messageType : Bytes} {i : Nat}
  {evs : List ServerEvent} {s s' : Server N} {a : ServerAction}

omit [NeZero N] in
theorem Matched.keep {e : ServerEvent} (connected : Bool) (hmatched : Matched i evs s)
    (hnote : (ledger i evs).note i e = { ledger i evs with connected })
    (hconnected : connected = true ↔ Registered i (evs ++ [e]))
    (hinFlight : (ledger i evs).inFlight s'.publisher.call =
      (ledger i evs).inFlight s.publisher.call)
    (hcarry : ∀ c', s'.publisher.call = some c' → ∃ c, s.publisher.call = some c ∧
      (Registered i evs →
        (s.rpcs i).reactor.key ∈ c.remaining.map Identity.subscriberKey ∨
          PushedWith .backpressured c.number evs →
        (s'.rpcs i).reactor.key ∈ c'.remaining.map Identity.subscriberKey ∨
          PushedWith .backpressured c'.number (evs ++ [e]))) : Matched i (evs ++ [e]) s' := by
  have hold : Registered i evs → Registered i (evs ++ [e]) := fun hregistered =>
    registered_concat.mpr (.inl hregistered)
  constructor
  all_goals rw [ledger_concat, hnote]
  case connected => exact hconnected
  case offered => exact fun hoffered => hold (hmatched.offered hoffered)
  case accepted => exact fun hsome => (hmatched.accepted hsome).imp_left hold
  case gaps => exact hmatched.gaps
  case sent => exact hmatched.sent.trans (congrArg _ hinFlight.symm)
  case begun =>
    intro c' hc' hsome
    obtain ⟨c, hc, -⟩ := hcarry c' hc'
    exact hmatched.begun c hc hsome
  case pending =>
    intro c' hc' hoffered hfree
    obtain ⟨c, hc, hcarry⟩ := hcarry c' hc'
    exact hcarry (hmatched.offered hoffered) (hmatched.pending c hc hoffered hfree)

omit [NeZero N] in
theorem matched_quiet {e : ServerEvent} (connected : Bool) (hmatched : Matched i evs s)
    (hkey : Registered i evs → (s'.rpcs i).reactor.key = (s.rpcs i).reactor.key)
    (hcall : s'.publisher.call = s.publisher.call)
    (hnote : (ledger i evs).note i e = { ledger i evs with connected })
    (hconnected : connected = true ↔ Registered i (evs ++ [e])) :
    Matched i (evs ++ [e]) s' := by
  refine hmatched.keep connected hnote hconnected (by rw [hcall]) fun c hc => ?_
  refine ⟨c, hcall ▸ hc, fun hin hpending => ?_⟩
  rw [hkey hin]
  exact hpending.imp_right fun hrefused => pushedWith_concat.mpr (.inl hrefused)

theorem matched_begun {c : Call}
    (h : Trace (StepsWhere ok step) (init (Node.fresh me config) maxFrames hwm lwm) evs s)
    (hmatched : Matched i evs s) (hstep : s.step a = some (.begun c, s'))
    (hrecorded : s.recorded topicName messageType i = true)
    (htopic : c.data.topicName = topicName ∧ c.data.messageType = messageType)
    (hlive : (s.rpcs i).reactor.isLive = true) : Matched i (evs ++ [.begun c]) s' := by
  obtain ⟨hwas, ⟨t, m, payload, hopening⟩, hcall, -, -⟩ :=
    publisherEffect_of_stepped (stepped_of_step hstep)
  have hregistered : Registered i (evs ++ [.begun c]) ↔ Registered i evs :=
    registered_concat_other (by simp)
  have honly : ∀ c', s'.publisher.call = some c' → c' = c := fun c' hc' =>
    Option.some.inj (hc'.symm.trans hcall)
  have hsent := hmatched.sent
  rw [hwas] at hsent
  constructor
  case connected =>
    rw [ledger_concat, hregistered]
    exact hmatched.connected
  case offered =>
    rw [ledger_concat, hregistered]
    exact hmatched.connected.mp
  case accepted =>
    rw [ledger_concat, hregistered]
    exact hmatched.accepted
  case gaps =>
    rw [ledger_concat]
    exact hmatched.gaps
  case sent =>
    rw [ledger_concat, hcall]
    exact hsent
  case begun =>
    intro c' hc' hsome
    rw [ledger_concat] at hsome ⊢
    exact hmatched.connected.mpr (hmatched.accepted hsome).1
  case pending =>
    intro c' hc' hoffered hfree
    rw [ledger_concat] at hoffered
    have hin : Registered i evs := hmatched.connected.mp hoffered
    rw [honly c' hc', key_of_step h hstep hin hlive]
    refine .inl ?_
    rw [recorded, decide_eq_true (owned_of_trace h i hin hlive), Bool.not_true, Bool.false_or,
      Node.records] at hrecorded
    obtain ⟨entry, hentry, hremaining⟩ := hopening.recorded
    rw [DataMessage.key, htopic.1, htopic.2] at hentry
    rw [hentry] at hrecorded
    obtain ⟨p, hp, hkey⟩ := List.any_eq_true.mp hrecorded
    rw [hremaining]
    exact List.mem_map.mpr ⟨p, hp, of_decide_eq_true hkey⟩

theorem matched_hit {c : Call} {sk : SubscriberKey} {status : OutboxStatus}
    (h : Trace (StepsWhere ok step) (init (Node.fresh me config) maxFrames hwm lwm) evs s)
    (hmatched : Matched i evs s) (hstep : s.step a = some (.pushed c sk (some i) status, s'))
    (hledger : StreamLedger me topicName messageType i evs s)
    (hlive : (s.rpcs i).reactor.isLive = true) :
    Matched i (evs ++ [.pushed c sk (some i) status]) s' := by
  obtain ⟨hcall, ⟨sub, rest, hremaining, rfl⟩, htarget, hstatus, hs'⟩ :=
    publisherEffect_of_stepped (stepped_of_step hstep)
  obtain ⟨hfree, -, -⟩ :=
    not_taken_of_target hledger (tableInv_of_trace h) hcall hremaining htarget.symm
  have hin : Registered i evs := registered_of_trace h _ i htarget.symm
  have hregistered : Registered i
      (evs ++ [.pushed c sub.subscriberKey (some i) status]) := registered_concat.mpr (.inl hin)
  have hcall' : s'.publisher.call = some (c.noted sub.subscriberKey status) := by rw [hs']
  have hsent := hmatched.sent
  rw [hcall, Ledger.inFlight, hfree, if_neg (by simp), List.append_nil] at hsent
  by_cases haccepted : status = .accepted
  · have hnote : ledger i (evs ++ [.pushed c sub.subscriberKey (some i) status]) =
        (ledger i evs).accept c.data.payload := by
      rw [ledger_concat, Ledger.note, if_pos rfl, if_pos haccepted]
    constructor
    all_goals rw [hnote]
    case connected => exact iff_of_true (hmatched.connected.mpr hin) hregistered
    case offered => exact fun _ => hregistered
    case accepted => exact fun _ => ⟨hregistered, rfl⟩
    case gaps =>
      intro g hg
      rw [Ledger.accept] at hg
      split at hg
      · exact hmatched.gaps g hg
      · rename_i hsome
        rcases List.mem_append.mp hg with hg | hg
        · exact hmatched.gaps g hg
        · rw [List.mem_singleton.mp hg]
          exact (hmatched.accepted hsome).2
    case sent =>
      rw [hcall']
      exact congrArg (· ++ [c.data.payload]) hsent
    case begun => exact fun _ _ _ => rfl
    case pending => exact fun _ _ _ hfree' => absurd hfree' Bool.noConfusion
  · have hnote : ledger i (evs ++ [.pushed c sub.subscriberKey (some i) status]) =
        { ledger i evs with offered := true } := by
      rw [ledger_concat, Ledger.note, if_pos rfl, if_neg haccepted]
    have hrefused : status = .backpressured := by
      rw [hstatus]
      exact pushStatus_of_live hlive (hstatus ▸ haccepted)
    constructor
    all_goals rw [hnote]
    case connected => exact iff_of_true (hmatched.connected.mpr hin) hregistered
    case offered => exact fun _ => hregistered
    case accepted => exact fun hsome => ⟨hregistered, (hmatched.accepted hsome).2⟩
    case gaps => exact hmatched.gaps
    case sent =>
      rw [hcall', Ledger.inFlight, hfree, if_neg (by simp), List.append_nil]
      exact hsent
    case begun => exact fun _ _ _ => rfl
    case pending =>
      intro c' hc' _ _
      obtain rfl := Option.some.inj (hcall'.symm.trans hc')
      exact .inr (pushedWith_concat.mpr (.inr ⟨c, _, _, by rw [hrefused], rfl⟩))

theorem matched_miss {c : Call} {sk : SubscriberKey} {target : Option Nat}
    {status : OutboxStatus}
    (h : Trace (StepsWhere ok step) (init (Node.fresh me config) maxFrames hwm lwm) evs s)
    (hmatched : Matched i evs s) (hstep : s.step a = some (.pushed c sk target status, s'))
    (hlive : (s.rpcs i).reactor.isLive = true) (hmiss : target ≠ some i) :
    Matched i (evs ++ [.pushed c sk target status]) s' := by
  obtain ⟨hcall, ⟨sub, rest, hremaining, rfl⟩, htarget, -, hs'⟩ :=
    publisherEffect_of_stepped (stepped_of_step hstep)
  have hcall' : s'.publisher.call = some (c.noted sub.subscriberKey status) := by rw [hs']
  refine hmatched.keep (ledger i evs).connected (if_neg hmiss) ?_ (by rw [hcall', hcall]; rfl)
    fun c' hc' => ?_
  · rw [hmatched.connected]
    exact (registered_concat_other (by simp)).symm
  · obtain rfl := Option.some.inj (hcall'.symm.trans hc')
    refine ⟨c, hcall, fun hin hpending => ?_⟩
    rw [key_of_step h hstep hin hlive, Call.noted, hremaining, List.tail_cons]
    rcases hpending with hkey | hrefused
    · refine .inl ?_
      rw [hremaining, List.map_cons] at hkey
      refine (List.mem_cons.mp hkey).resolve_left fun hkey => hmiss ?_
      rw [htarget, ← hkey]
      exact owned_of_trace h i hin hlive
    · exact .inr (pushedWith_concat.mpr (.inl hrefused))

/-- A send that returns `Sent` has been taken by the stream if it counts for the
subscriber: the only other way past the pushes is a refusal. -/
theorem matched_sent {c : Call}
    (h : Trace (StepsWhere ok step) (init (Node.fresh me config) maxFrames hwm lwm) evs s)
    (hmatched : Matched i evs s) (hcall : s.publisher.call = some c)
    (hremaining : c.remaining = []) (hany : c.acceptedAny = true) (hunmixed : Unmixed evs)
    (hcall' : s'.publisher.call = none) : Matched i (evs ++ [.returned c .sent]) s' := by
  have haccepted := ((tidInv_of_trace h).call c hcall).accepted_iff.mp hany
  have htook : (ledger i evs).offered = true → (ledger i evs).taken = true := by
    intro hoffered
    by_contra hfree
    rcases hmatched.pending c hcall hoffered (by simpa using hfree) with hkey | hrefused
    · rw [hremaining] at hkey
      cases hkey
    · exact hunmixed c.number ⟨haccepted, hrefused⟩
  have hregistered : Registered i (evs ++ [.returned c .sent]) ↔ Registered i evs :=
    registered_concat_other (by simp)
  have hnone : ∀ c', s'.publisher.call ≠ some c' := by simp [hcall']
  have hnote : ledger i (evs ++ [.returned c .sent]) =
      (ledger i evs).commit c.data.payload := by
    rw [ledger_concat]
    rfl
  constructor
  all_goals rw [hnote]
  case connected => exact hmatched.connected.trans hregistered.symm
  case offered => exact fun hoffered => hregistered.mpr (hmatched.offered hoffered)
  case accepted =>
    intro hsome
    obtain ⟨hin, hmissed⟩ := hmatched.accepted hsome
    refine ⟨hregistered.mpr hin, ?_⟩
    rw [Ledger.commit, if_pos (htook (hmatched.begun c hcall hsome))]
    exact hmissed
  case gaps => exact hmatched.gaps
  case sent =>
    have hsent := hmatched.sent
    rw [hcall, Ledger.inFlight] at hsent
    rw [hcall', Ledger.inFlight, List.append_nil, Ledger.commit]
    cases hoffered : (ledger i evs).offered with
    | true =>
        rw [if_pos (htook hoffered)] at hsent
        rw [if_pos rfl]
        exact hsent
    | false =>
        have hempty : (ledger i evs).accepted = [] := by
          by_contra hsome
          rw [hmatched.begun c hcall hsome] at hoffered
          cases hoffered
        rw [hempty] at hsent
        rw [if_neg (by simp)]
        exact hempty.trans (List.append_eq_nil_iff.mp hsent.symm).1.symm
  case begun => exact fun c' hc' => absurd hc' (hnone c')
  case pending => exact fun c' hc' => absurd hc' (hnone c')

theorem matched_returned {c : Call} {result : ReliableSendResult}
    (h : Trace (StepsWhere ok step) (init (Node.fresh me config) maxFrames hwm lwm) evs s)
    (hmatched : Matched i evs s) (hstep : s.step a = some (.returned c result, s'))
    (hledger : StreamLedger me topicName messageType i evs s) (hunmixed : Unmixed evs) :
    Matched i (evs ++ [.returned c result]) s' := by
  obtain ⟨hcall, hremaining, rfl, hs'⟩ := publisherEffect_of_stepped (stepped_of_step hstep)
  have hcall' : s'.publisher.call = none := by rw [hs']; rfl
  cases hany : c.acceptedAny with
  | true =>
      rw [Call.result, if_pos hany]
      exact matched_sent h hmatched hcall hremaining hany hunmixed hcall'
  | false =>
      have hfree : (ledger i evs).taken = false := by
        by_contra htook
        have := (hledger.taken c hcall (by simpa using htook)).1
        rw [hany] at this
        cases this
      refine hmatched.keep (ledger i evs).connected ?_ ?_ ?_ (by simp [hcall'])
      · rw [Call.result, hany]
        cases c.anyLiveBackpressured <;> rfl
      · rw [hmatched.connected]
        exact (registered_concat_other (by simp)).symm
      · rw [hcall, hcall', Ledger.inFlight, Ledger.inFlight, hfree, if_neg (by simp)]

/-- One step keeps the account of a live stream. -/
theorem matched_step {e : ServerEvent}
    (h : Trace (StepsWhere ok step) (init (Node.fresh me config) maxFrames hwm lwm) evs s)
    (hmatched : Matched i evs s) (hstep : s.step a = some (e, s'))
    (hrecorded : s.recorded topicName messageType i = true)
    (hledger : StreamLedger me topicName messageType i evs s)
    (htopic : OnTopic topicName messageType (evs ++ [e])) (hunmixed : Unmixed evs)
    (hlive : (s.rpcs i).reactor.isLive = true) : Matched i (evs ++ [e]) s' := by
  have heffect := publisherEffect_of_stepped (stepped_of_step hstep)
  have hkey : Registered i evs → (s'.rpcs i).reactor.key = (s.rpcs i).reactor.key :=
    fun hin => key_of_step h hstep hin hlive
  have hquiet : s'.publisher.call = s.publisher.call →
      (ledger i evs).note i e = ledger i evs →
        (∀ sk superseded, e ≠ .registered i sk superseded) → Matched i (evs ++ [e]) s' := by
    intro hcall hnote hother
    refine matched_quiet (ledger i evs).connected hmatched hkey hcall hnote ?_
    rw [hmatched.connected]
    exact (registered_concat_other hother).symm
  cases e with
  | refused call why =>
      exact hquiet (heffect.2.2.1.trans heffect.1.symm) rfl (by simp)
  | begun c =>
      exact matched_begun h hmatched hstep hrecorded (htopic c (by simp)) hlive
  | pushed c sk target status =>
      by_cases hhit : target = some i
      · subst hhit
        exact matched_hit h hmatched hstep hledger hlive
      · exact matched_miss h hmatched hstep hlive hhit
  | returned c result => exact matched_returned h hmatched hstep hledger hunmixed
  | registered j sk superseded =>
      by_cases hj : j = i
      · subst hj
        refine matched_quiet true hmatched hkey (congrArg _ heffect) ?_ ?_
        · rw [Ledger.note, if_pos rfl]
        · exact iff_of_true rfl (registered_concat.mpr (.inr ⟨sk, superseded, rfl⟩))
      · refine hquiet (congrArg _ heffect) ?_ ?_
        · rw [Ledger.note, if_neg hj]
        · rintro sk' superseded' he
          exact hj (ServerEvent.registered.inj he).1
  | reactor j e => exact hquiet (congrArg _ heffect) rfl (by simp)
  | internal => exact hquiet (congrArg _ heffect) rfl (by simp)

theorem matched_of_trace
    (h : Trace (StepsWhere (fun s _ => s.recorded topicName messageType i = true) step)
      (init (Node.fresh me config) maxFrames hwm lwm) evs s)
    (htopic : OnTopic topicName messageType evs)
    (hfew : (sents (makeCompositeKey topicName messageType) evs).length + 1 < 2 ^ 64)
    (hunmixed : Unmixed evs) (hlive : (s.rpcs i).reactor.isLive = true) : Matched i evs s := by
  refine Trace.invariant (P := fun evs s => OnTopic topicName messageType evs →
    (sents (makeCompositeKey topicName messageType) evs).length + 1 < 2 ^ 64 → Unmixed evs →
      (s.rpcs i).reactor.isLive = true → Matched i evs s) ?_ ?_ h htopic hfew hunmixed hlive
  · intro _ _ _ _
    constructor
    case connected =>
      refine iff_of_false (by simp [ledger]) ?_
      rintro ⟨sk, superseded, hmem⟩
      cases hmem
    case sent => rfl
    all_goals simp [ledger, init]
  · rintro evs s e s' hprev ih ⟨a, hrecorded, hstep⟩ htopic hfew hunmixed hlive
    have hbefore : OnTopic topicName messageType evs := fun c hc => htopic c (by simp [hc])
    have hless : (sents (makeCompositeKey topicName messageType) evs).length + 1 < 2 ^ 64 := by
      rw [sents_concat, List.length_append] at hfew
      omega
    have hwas := live_of_step hstep hlive
    exact matched_step hprev (ih hbefore hless hunmixed.of_concat hwas) hstep hrecorded
      (streamLedger_of_trace hprev hbefore hless) htopic hunmixed.of_concat hwas

end Server

namespace Network

variable {N : Nat} [NeZero N] {me : Identity} {config : Config} {maxFrames hwm lwm : Nat}
  {earlier : Nat → ReliableReceiver} {topicName messageType : Bytes} {i : Nat}
  {evs : List NetworkEvent} {w : Network N}

/-- What the stream of a live and recorded subscriber has accepted comes out at its
client in order, up to what is still on the way. -/
theorem delivered_prefix_accepted
    (h : Trace (StepsWhere (fun w _ => w.server.recorded topicName messageType i = true) step)
      (init me config maxFrames hwm lwm
        fun i => (earlier i).noteReliableStreamEstablished me.uid) evs w)
    (htopic : OnTopic topicName messageType (served evs))
    (hfew : (sents (makeCompositeKey topicName messageType) (served evs)).length + 2 < 2 ^ 64)
    (hgaps : ∀ g ∈ (ledger i (served evs)).gaps, g = 0) :
    delivered i evs <+: (ledger i (served evs)).accepted := by
  have hledger := Server.streamLedger_of_trace (i := i) (trace_served h) htopic (by omega)
  by_cases hnames : Readable topicName messageType
  · have hread := messages_readFrames_prefix h i
    have hlt : ∀ d ∈ messages (readFrames i evs), d.tid < 2 ^ 64 - 1 := by
      intro d hd
      have := hledger.balanced.tid_le d (hread.subset hd)
      omega
    have hnear : (messages (readFrames i evs)).IsChain DataMessage.Near := by
      obtain ⟨rest, hrest⟩ := hread
      have hall := hledger.balanced.near.mpr fun g hg => .inl (hgaps g hg)
      rw [← hrest] at hall
      exact hall.left_of_append
    have hreceived := received_of_trace h (windowMet_note_self _ _ _) hnames hledger.frames
    rw [hreceived.delivered, (ReliableRxWindow.fed_of_near hlt hnear).1,
      hledger.balanced.payloads]
    exact hread.map _
  · rw [delivered_eq_nil_of_not_readable h hnames hledger.frames]
    exact List.nil_prefix

/-- Exactly once, in order.  At every moment a live subscriber that stays recorded
has delivered the beginning of what was sent to it: the payloads of the sends that
returned `Sent`, as far as they started after it had registered or pushed to its
stream, and then that of the send in progress once its stream has accepted it. -/
theorem delivered_prefix_sent
    (h : Trace (StepsWhere (fun w _ => w.server.recorded topicName messageType i = true) step)
      (init me config maxFrames hwm lwm
        fun i => (earlier i).noteReliableStreamEstablished me.uid) evs w)
    (htopic : OnTopic topicName messageType (served evs))
    (hfew : (sents (makeCompositeKey topicName messageType) (served evs)).length + 2 < 2 ^ 64)
    (hunmixed : Unmixed (served evs)) (hlive : (w.server.rpcs i).reactor.isLive = true) :
    delivered i evs <+: (ledger i (served evs)).sent ++
      (ledger i (served evs)).inFlight w.server.publisher.call := by
  have hserver : Trace (StepsWhere (fun s _ => s.recorded topicName messageType i = true)
      Server.step) (.init (.fresh me config) maxFrames hwm lwm) (served evs) w.server :=
    trace_server (fun _ _ hok => hok) h
  have hmatched := Server.matched_of_trace hserver htopic (by omega) hunmixed hlive
  rw [← hmatched.sent]
  exact delivered_prefix_accepted h htopic hfew hmatched.gaps

/-- Subscriber 1 registers while the first send is under way, and the third one has
not returned when its frame is on the wire to subscriber 0. -/
def sendsUnderWay : List ServerAction :=
  [.registry ⟨.announcement ⟨4, 5, 6⟩ [116] [84] false, onWire_four⟩,
    .registry ⟨.announcement ⟨7, 8, 9⟩ [116] [84] false, onWire_seven⟩,
    .startGrpcServer true] ++ connect 0 ⟨4, 5, 6⟩ ++
    [.tryPublishReliable [116] [84] [1] 0, .resume, .resume] ++ connect 1 ⟨7, 8, 9⟩ ++
    [.resume] ++ flush 0 ++ sendToTwo [2] ++ flush 0 ++ flush 1 ++
    [.tryPublishReliable [116] [84] [3] 0, .resume] ++ flush 0

def readUnderWay : List NetworkAction :=
  sendsUnderWay.map .server ++ [.read 0, .read 0, .read 0, .read 1]

set_option maxRecDepth 4000 in
/-- A payload may come out before its send has returned, and a send that had passed
a subscriber by before it registered returns `Sent` without reaching it. -/
theorem delivered_under_way_fails :
    ∃ evs w, exec (guarded (fun w _ => w.server.recorded [116] [84] 0 &&
        w.server.recorded [116] [84] 1) step) twoClients readUnderWay = some (evs, w) ∧
      OnTopic [116] [84] (served evs) ∧ Unmixed (served evs) ∧
      (w.server.rpcs 0).reactor.isLive = true ∧ (w.server.rpcs 1).reactor.isLive = true ∧
      ¬ delivered 0 evs <+: sentSince 0 (served evs) ∧
      ¬ delivered 1 evs <+: sentSince 1 (served evs) := by
  have hrun : (exec (guarded (fun w _ => w.server.recorded [116] [84] 0 &&
      w.server.recorded [116] [84] 1) step) twoClients readUnderWay).map (fun p =>
        (decide (OnTopic [116] [84] (served p.1)), decide (Unmixed (served p.1)),
          (p.2.server.rpcs 0).reactor.isLive, (p.2.server.rpcs 1).reactor.isLive,
          delivered 0 p.1, sentSince 0 (served p.1), delivered 1 p.1,
          sentSince 1 (served p.1))) =
            some (true, true, true, true, [[1], [2], [3]], [[1], [2]], [[2]], [[1], [2]]) := rfl
  obtain ⟨⟨evs, w⟩, h, hp⟩ := Option.map_eq_some_iff.mp hrun
  simp only [Prod.mk.injEq] at hp
  obtain ⟨htopic, hunmixed, hlive₀, hlive₁, hd₀, hs₀, hd₁, hs₁⟩ := hp
  refine ⟨evs, w, h, of_decide_eq_true htopic, of_decide_eq_true hunmixed, hlive₀, hlive₁,
    ?_, ?_⟩
  · rw [hd₀, hs₀]
    decide
  · rw [hd₁, hs₁]
    decide

set_option maxRecDepth 4000 in
theorem delivered_prefix_sent_under_way :
    ∃ evs w, exec (guarded (fun w _ => w.server.recorded [116] [84] 0) step) twoClients
        readUnderWay = some (evs, w) ∧
      delivered 0 evs <+: (ledger 0 (served evs)).sent ++
        (ledger 0 (served evs)).inFlight w.server.publisher.call := by
  have hrun : (exec (guarded (fun w _ => w.server.recorded [116] [84] 0) step) twoClients
      readUnderWay).map (fun p => (decide (OnTopic [116] [84] (served p.1)),
        decide (Unmixed (served p.1)), (p.2.server.rpcs 0).reactor.isLive,
        (served p.1).length)) = some (true, true, true, 45) := rfl
  obtain ⟨⟨evs, w⟩, h, hp⟩ := Option.map_eq_some_iff.mp hrun
  simp only [Prod.mk.injEq] at hp
  obtain ⟨htopic, hunmixed, hlive, hlength⟩ := hp
  have hfew : (sents (makeCompositeKey [116] [84]) (served evs)).length + 2 < 2 ^ 64 := by
    have := (length_sents_le (makeCompositeKey [116] [84]) (served evs)).trans hlength.le
    omega
  exact ⟨evs, w, h, delivered_prefix_sent
    (Trace.of_guarded (trace_of_exec (fun _ _ _ => trivial) h)) (of_decide_eq_true htopic) hfew
    (of_decide_eq_true hunmixed) hlive⟩

end Network

end Edriel
