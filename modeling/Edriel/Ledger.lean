import Edriel.FanOut
import Edriel.WindowOrder

namespace Edriel

open Proto3 Std Interleaving

/-- `offered` says that the send in progress counts for the subscriber: it began
after the subscriber connected or has pushed to its stream.  `taken` says that
the stream has accepted its frame. -/
structure Ledger where
  connected : Bool := false
  offered : Bool := false
  taken : Bool := false
  sent : List Bytes := []
  accepted : List Bytes := []
  missed : Nat := 0
  gaps : List Nat := []

namespace Ledger

def accept (l : Ledger) (payload : Bytes) : Ledger :=
  { l with
    offered := true
    taken := true
    accepted := l.accepted ++ [payload]
    missed := 0
    gaps := if l.accepted = [] then l.gaps else l.gaps ++ [l.missed] }

def commit (l : Ledger) (payload : Bytes) : Ledger :=
  { l with
    sent := if l.offered then l.sent ++ [payload] else l.sent
    missed := if l.taken then l.missed else l.missed + 1 }

def note (i : Nat) (l : Ledger) : ServerEvent → Ledger
  | .registered j _ _ => if j = i then { l with connected := true } else l
  | .begun _ => { l with offered := l.connected, taken := false }
  | .pushed c _ target status =>
      if target = some i then
        if status = .accepted then l.accept c.data.payload else { l with offered := true }
      else l
  | .returned c .sent => l.commit c.data.payload
  | _ => l

end Ledger

/-- The account of the subscriber on stream `i`. -/
def ledger (i : Nat) (evs : List ServerEvent) : Ledger :=
  evs.foldl (Ledger.note i) {}

theorem ledger_concat (i : Nat) (evs : List ServerEvent) (e : ServerEvent) :
    ledger i (evs ++ [e]) = (ledger i evs).note i e := by
  rw [ledger, List.foldl_append, ledger]
  rfl

def ServerEvent.taken? (i : Nat) : ServerEvent → Option DataMessage
  | .pushed c _ target .accepted => if target = some i then some c.data else none
  | _ => none

def takenData (i : Nat) (evs : List ServerEvent) : List DataMessage :=
  evs.filterMap (ServerEvent.taken? i)

theorem takenData_concat (i : Nat) (evs : List ServerEvent) (e : ServerEvent) :
    takenData i (evs ++ [e]) = takenData i evs ++ (e.taken? i).toList := by
  rw [takenData, List.filterMap_append, takenData]
  cases h : e.taken? i <;> simp [h]

/-- The tids on a stream against its account, `n` sends having been committed:
the last one lies behind the counter by the sends missed since. -/
structure Balanced (l : Ledger) (ds : List DataMessage) (n : Nat) (busy : Bool) : Prop where
  payloads : l.accepted = ds.map (·.payload)
  tid_le : ∀ d ∈ ds, d.tid ≤ n + 1
  last : ∀ d ∈ ds.getLast?, d.tid + l.missed = n + if busy && l.taken then 1 else 0
  grow : ds.IsChain DataMessage.Before
  near : ds.IsChain DataMessage.Near ↔
    ∀ g ∈ l.gaps, g = 0 ∨ kReliableWindowSize ≤ g

namespace Balanced

variable {l : Ledger} {ds : List DataMessage} {n : Nat}

theorem begun (h : Balanced l ds n false) (offered : Bool) :
    Balanced { l with offered, taken := false } ds n true :=
  ⟨h.payloads, h.tid_le, h.last, h.grow, h.near⟩

theorem abandoned (h : Balanced l ds n true) (htaken : l.taken = false) :
    Balanced l ds n false := by
  refine ⟨h.payloads, h.tid_le, fun d hd => ?_, h.grow, h.near⟩
  have hlast := h.last d hd
  rwa [htaken] at hlast

theorem committed (h : Balanced l ds n true) (payload : Bytes) :
    Balanced (l.commit payload) ds (n + 1) false := by
  refine ⟨h.payloads, fun d hd => ?_, fun d hd => ?_, h.grow, h.near⟩
  · exact (h.tid_le d hd).trans (Nat.le_succ _)
  · have hlast := h.last d hd
    change d.tid + (if l.taken then l.missed else l.missed + 1) = n + 1 + 0
    cases htaken : l.taken with
    | true =>
        rw [htaken] at hlast
        exact hlast
    | false =>
        rw [htaken] at hlast
        exact congrArg (· + 1) hlast

theorem accepted (h : Balanced l ds n true) (htaken : l.taken = false) {d : DataMessage}
    (hd : d.tid = n + 1) : Balanced (l.accept d.payload) (ds ++ [d]) n true := by
  have hlast : ∀ a ∈ ds.getLast?, a.tid + l.missed = n := by
    intro a ha
    have := h.last a ha
    rwa [htaken] at this
  have hempty : l.accepted = [] ↔ ds = [] := by rw [h.payloads, List.map_eq_nil_iff]
  have hnear : ∀ a ∈ ds.getLast?, (a.Near d ↔ l.missed = 0 ∨ kReliableWindowSize ≤ l.missed) := by
    intro a ha
    have := hlast a ha
    rw [DataMessage.Near, hd]
    omega
  constructor
  case payloads => simp [Ledger.accept, h.payloads]
  case tid_le =>
    intro x hx
    rcases List.mem_append.mp hx with hx | hx
    · exact h.tid_le x hx
    · rw [List.mem_singleton.mp hx, hd]
  case last =>
    intro x hx
    obtain rfl : d = x := by simpa using hx
    exact hd
  case grow =>
    refine List.isChain_append.mpr ⟨h.grow, .singleton d, fun a ha y hy => ?_⟩
    obtain rfl : d = y := by simpa using hy
    have := hlast a ha
    change a.tid < d.tid
    omega
  case near =>
    rw [List.isChain_append, h.near]
    simp only [List.IsChain.singleton, List.head?_cons, Option.mem_def, Option.some.injEq,
      forall_eq', true_and, Ledger.accept, hempty]
    cases hlist : ds.getLast? with
    | none =>
        rw [if_pos (List.getLast?_eq_none_iff.mp hlist)]
        simp
    | some a =>
        rw [if_neg (by rintro rfl; cases hlist)]
        have hgap := hnear a hlist
        simp only [Option.some.injEq, forall_eq', hgap, List.mem_append, List.mem_singleton]
        constructor
        · rintro ⟨hall, hmissed⟩ g (hg | rfl)
          · exact hall g hg
          · exact hmissed
        · exact fun hall => ⟨fun g hg => hall g (.inl hg), hall _ (.inr rfl)⟩

end Balanced

/-- A frame of the topic as the publisher stamps it, small enough to be sent. -/
structure Stamped (me : Identity) (topicName messageType : Bytes) (d : DataMessage) :
    Prop where
  frame : ∃ payload nextSeq, d = reliableData me topicName messageType payload nextSeq
  fits : (serialize d.toFields).length ≤ recvBufferSize

theorem Stamped.key {me : Identity} {topicName messageType : Bytes} {d : DataMessage}
    (h : Stamped me topicName messageType d) :
    d.key = makeCompositeKey topicName messageType := by
  obtain ⟨payload, nextSeq, rfl⟩ := h.frame
  rfl

def OnTopic (topicName messageType : Bytes) (evs : List ServerEvent) : Prop :=
  ∀ c, .begun c ∈ evs → c.data.topicName = topicName ∧ c.data.messageType = messageType

def ServerEvent.onTopic (topicName messageType : Bytes) : ServerEvent → Bool
  | .begun c => decide (c.data.topicName = topicName ∧ c.data.messageType = messageType)
  | _ => true

theorem onTopic_iff_all (topicName messageType : Bytes) (evs : List ServerEvent) :
    evs.all (·.onTopic topicName messageType) = true ↔ OnTopic topicName messageType evs := by
  rw [List.all_eq_true]
  constructor
  · exact fun hall c hc => of_decide_eq_true (hall _ hc)
  · intro honly e he
    cases e with
    | begun c => exact decide_eq_true (honly c he)
    | _ => rfl

instance (topicName messageType : Bytes) (evs : List ServerEvent) :
    Decidable (OnTopic topicName messageType evs) :=
  decidable_of_iff _ (onTopic_iff_all topicName messageType evs)

theorem Node.wirePids_fresh {N : Nat} [NeZero N] (me : Identity) (config : Config) :
    (fresh me config : Node N).WirePids := by
  rintro key p ⟨entry, hentry, -⟩
  rw [topic?] at hentry
  cases ExtTreeMap.getElem?_empty.symm.trans hentry

namespace Server

variable {N : Nat} [NeZero N]

structure StreamLedger (me : Identity) (topicName messageType : Bytes) (i : Nat)
    (evs : List ServerEvent) (s : Server N) : Prop where
  wirePids : s.node.WirePids
  selfParticipant : s.node.selfParticipant = me
  stamped : ∀ c, s.publisher.call = some c → Stamped me topicName messageType c.data
  distinct : ∀ c, s.publisher.call = some c →
    (c.remaining.map Identity.subscriberKey).Nodup
  taken : ∀ c, s.publisher.call = some c → (ledger i evs).taken = true →
    c.acceptedAny = true ∧ (s.rpcs i).reactor.initialised = true ∧
      (s.rpcs i).reactor.key ∉ c.remaining.map Identity.subscriberKey
  frames : ∀ d ∈ takenData i evs, Stamped me topicName messageType d
  balanced : Balanced (ledger i evs) (takenData i evs)
    (sents (makeCompositeKey topicName messageType) evs).length s.publisher.call.isSome

variable {me : Identity} {topicName messageType : Bytes} {i : Nat}
  {evs : List ServerEvent} {s s' : Server N} {e : ServerEvent}

theorem node_step (hinv : StreamLedger me topicName messageType i evs s)
    (h : Stepped s e s') : s'.node.WirePids ∧ s'.node.selfParticipant = me := by
  rcases node_of_stepped h with hnode | ⟨op, hnode⟩
  · rw [hnode]
    exact ⟨hinv.wirePids, hinv.selfParticipant⟩
  · rw [hnode, Node.selfParticipant_apply]
    exact ⟨Node.wirePids_apply hinv.wirePids, hinv.selfParticipant⟩

theorem streamLedger_quiet (hinv : StreamLedger me topicName messageType i evs s)
    (h : Stepped s e s') (hkeeps : KeepsIdentity s s')
    (hcall : s'.publisher.call = s.publisher.call)
    (hnote : (ledger i evs).note i e = ledger i evs ∨
      (ledger i evs).note i e = { ledger i evs with connected := true })
    (htaken : e.taken? i = none)
    (hsent : e.sent? (makeCompositeKey topicName messageType) = none) :
    StreamLedger me topicName messageType i (evs ++ [e]) s' := by
  obtain ⟨hwire, hself⟩ := node_step hinv h
  have hdata : takenData i (evs ++ [e]) = takenData i evs := by
    rw [takenData_concat, htaken, Option.toList_none, List.append_nil]
  have hsents : sents (makeCompositeKey topicName messageType) (evs ++ [e]) =
      sents (makeCompositeKey topicName messageType) evs := by
    rw [sents_concat, hsent, Option.toList_none, List.append_nil]
  have hflag : (ledger i (evs ++ [e])).taken = (ledger i evs).taken := by
    rw [ledger_concat]
    rcases hnote with hnote | hnote <;> rw [hnote]
  constructor
  case wirePids => exact hwire
  case selfParticipant => exact hself
  case stamped => exact fun c hc => hinv.stamped c (hcall ▸ hc)
  case distinct => exact fun c hc => hinv.distinct c (hcall ▸ hc)
  case taken =>
    intro c hc htook
    rw [hflag] at htook
    obtain ⟨hany, hinit, hkey⟩ := hinv.taken c (hcall ▸ hc) htook
    obtain ⟨hinit', hkey'⟩ := hkeeps i hinit
    exact ⟨hany, hinit', hkey' ▸ hkey⟩
  case frames => exact hdata ▸ hinv.frames
  case balanced =>
    rw [hdata, hsents, hcall, ledger_concat]
    obtain ⟨hpayloads, hle, hlast, hgrow, hnear⟩ := hinv.balanced
    rcases hnote with hnote | hnote
    · rw [hnote]
      exact hinv.balanced
    · rw [hnote]
      exact ⟨hpayloads, hle, hlast, hgrow, hnear⟩

theorem streamLedger_begun {c : Call}
    (hinv : StreamLedger me topicName messageType i evs s)
    (h : Stepped s (.begun c) s')
    (htopic : c.data.topicName = topicName ∧ c.data.messageType = messageType) :
    StreamLedger me topicName messageType i (evs ++ [.begun c]) s' := by
  obtain ⟨hwire, hself⟩ := node_step hinv h
  obtain ⟨hwas, ⟨t, m, payload, hopening⟩, hcall, -, -⟩ := publisherEffect_of_stepped h
  have hdata : takenData i (evs ++ [.begun c]) = takenData i evs := by
    rw [takenData_concat]
    exact List.append_nil _
  have honly : ∀ c', s'.publisher.call = some c' → c' = c := fun c' hc' =>
    Option.some.inj (hc'.symm.trans hcall)
  constructor
  case wirePids => exact hwire
  case selfParticipant => exact hself
  case stamped =>
    intro c' hc'
    rw [honly c' hc']
    refine ⟨⟨payload, c.nextSeq, ?_⟩, hopening.fits⟩
    have hframe := hopening.data
    rw [hinv.selfParticipant] at hframe
    rw [hframe] at htopic
    obtain ⟨rfl, rfl⟩ := htopic
    exact hframe
  case distinct =>
    intro c' hc'
    rw [honly c' hc']
    exact distinct_of_opening hinv.wirePids hopening
  case taken =>
    intro c' hc' htook
    rw [ledger_concat] at htook
    cases htook
  case frames => exact hdata ▸ hinv.frames
  case balanced =>
    have hbalanced := hinv.balanced
    rw [hwas] at hbalanced
    have hsents : sents (makeCompositeKey topicName messageType) (evs ++ [.begun c]) =
        sents (makeCompositeKey topicName messageType) evs := by
      rw [sents_concat]
      exact List.append_nil _
    rw [hdata, hcall, ledger_concat, hsents]
    exact hbalanced.begun _

theorem not_taken_of_target {c : Call} {sub : Identity} {rest : List Identity}
    (hinv : StreamLedger me topicName messageType i evs s) (htable : s.TableInv)
    (hcall : s.publisher.call = some c) (hremaining : c.remaining = sub :: rest)
    (htarget : s.subscribers[sub.subscriberKey]? = some i) :
    (ledger i evs).taken = false ∧ (s.rpcs i).reactor.initialised = true ∧
      (s.rpcs i).reactor.key = sub.subscriberKey := by
  obtain ⟨hinit, hkey⟩ := htable.keyed _ _ htarget
  refine ⟨?_, hinit, hkey⟩
  by_contra htook
  obtain ⟨-, -, hpassed⟩ := hinv.taken c hcall (by simpa using htook)
  rw [hkey, hremaining] at hpassed
  exact hpassed List.mem_cons_self

omit [NeZero N] in
theorem taken?_of_not_accepted {c : Call} {sk : SubscriberKey} {target : Option Nat}
    {status : OutboxStatus} (h : ¬ (target = some i ∧ status = .accepted)) :
    (ServerEvent.pushed c sk target status).taken? i = none := by
  cases status with
  | accepted => rw [ServerEvent.taken?, if_neg fun htarget => h ⟨htarget, rfl⟩]
  | backpressured => rfl
  | notConnected => rfl

theorem taken_of_note {l : Ledger} {c : Call} {sk : SubscriberKey} {target : Option Nat}
    {status : OutboxStatus} (htook : (l.note i (.pushed c sk target status)).taken = true)
    (h : ¬ (target = some i ∧ status = .accepted)) : l.taken = true := by
  rw [Ledger.note] at htook
  split at htook
  · split at htook
    · rename_i htarget haccepted
      exact absurd ⟨htarget, haccepted⟩ h
    · exact htook
  · exact htook

/-- A send that the stream has taken part in will not come back to it. -/
theorem taken_pushed {c : Call} {sub : Identity} {rest : List Identity} {target : Option Nat}
    {status : OutboxStatus} (hinv : StreamLedger me topicName messageType i evs s)
    (hkeeps : KeepsIdentity s s') (htable : s.TableInv) (hcall : s.publisher.call = some c)
    (hremaining : c.remaining = sub :: rest)
    (htarget : target = s.subscribers[sub.subscriberKey]?)
    (htook : ((ledger i evs).note i (.pushed c sub.subscriberKey target status)).taken = true) :
    (c.noted sub.subscriberKey status).acceptedAny = true ∧
      (s'.rpcs i).reactor.initialised = true ∧
      (s'.rpcs i).reactor.key ∉ rest.map Identity.subscriberKey := by
  by_cases hhit : target = some i ∧ status = .accepted
  · obtain ⟨rfl, rfl⟩ := hhit
    obtain ⟨-, hinit, hkey⟩ := not_taken_of_target hinv htable hcall hremaining htarget.symm
    obtain ⟨hinit', hkey'⟩ := hkeeps i hinit
    have hdistinct := hinv.distinct c hcall
    rw [hremaining, List.map_cons] at hdistinct
    rw [hkey', hkey]
    exact ⟨by simp [Call.noted], hinit', (List.nodup_cons.mp hdistinct).1⟩
  · obtain ⟨hany, hinit, hkey⟩ := hinv.taken c hcall (taken_of_note htook hhit)
    obtain ⟨hinit', hkey'⟩ := hkeeps i hinit
    rw [hremaining, List.map_cons] at hkey
    refine ⟨by simp [Call.noted, hany], hinit', ?_⟩
    rw [hkey']
    exact fun hmem => hkey (List.mem_cons_of_mem _ hmem)

theorem balanced_pushed {c : Call} {sub : Identity} {rest : List Identity} {target : Option Nat}
    (status : OutboxStatus) (hinv : StreamLedger me topicName messageType i evs s)
    (htable : s.TableInv) (htid : TidInv evs s.publisher) (hcall : s.publisher.call = some c)
    (hremaining : c.remaining = sub :: rest)
    (htarget : target = s.subscribers[sub.subscriberKey]?)
    (hfew : (sents (makeCompositeKey topicName messageType) evs).length + 1 < 2 ^ 64) :
    Balanced ((ledger i evs).note i (.pushed c sub.subscriberKey target status))
      (takenData i evs ++
        ((ServerEvent.pushed c sub.subscriberKey target status).taken? i).toList)
      (sents (makeCompositeKey topicName messageType) evs).length true := by
  have hbalanced := hinv.balanced
  rw [hcall] at hbalanced
  rw [Ledger.note]
  by_cases hhit : target = some i
  · rw [if_pos hhit]
    subst hhit
    obtain ⟨hfree, -, -⟩ := not_taken_of_target hinv htable hcall hremaining htarget.symm
    by_cases haccepted : status = .accepted
    · rw [if_pos haccepted]
      subst haccepted
      obtain ⟨-, hd⟩ := stamped_tid htid hcall
      rw [(hinv.stamped c hcall).key, Nat.mod_eq_of_lt hfew] at hd
      rw [ServerEvent.taken?, if_pos rfl]
      exact hbalanced.accepted hfree hd
    · rw [if_neg haccepted, taken?_of_not_accepted fun h => haccepted h.2, Option.toList_none,
        List.append_nil]
      obtain ⟨hpayloads, hle, hlast, hgrow, hnear⟩ := hbalanced
      exact ⟨hpayloads, hle, hlast, hgrow, hnear⟩
  · rw [if_neg hhit, taken?_of_not_accepted fun h => hhit h.1, Option.toList_none, List.append_nil]
    exact hbalanced

theorem streamLedger_pushed {c : Call} {sk : SubscriberKey} {target : Option Nat}
    {status : OutboxStatus} (hinv : StreamLedger me topicName messageType i evs s)
    (h : Stepped s (.pushed c sk target status) s') (hkeeps : KeepsIdentity s s')
    (htable : s.TableInv) (htid : TidInv evs s.publisher)
    (hfew : (sents (makeCompositeKey topicName messageType) evs).length + 1 < 2 ^ 64) :
    StreamLedger me topicName messageType i (evs ++ [.pushed c sk target status]) s' := by
  obtain ⟨hwire, hself⟩ := node_step hinv h
  obtain ⟨hcall, ⟨sub, rest, hremaining, rfl⟩, htarget, -, hs'⟩ :=
    publisherEffect_of_stepped h
  have hcall' : s'.publisher.call = some (c.noted sub.subscriberKey status) := by rw [hs']
  have hstamped := hinv.stamped c hcall
  have hsents : sents (makeCompositeKey topicName messageType)
      (evs ++ [.pushed c sub.subscriberKey target status]) =
        sents (makeCompositeKey topicName messageType) evs := by
    rw [sents_concat]
    exact List.append_nil _
  have honly : ∀ c', s'.publisher.call = some c' → c' = c.noted sub.subscriberKey status :=
    fun c' hc' => Option.some.inj (hc'.symm.trans hcall')
  have htail : (c.noted sub.subscriberKey status).remaining = rest := by
    rw [Call.noted, hremaining, List.tail_cons]
  constructor
  case wirePids => exact hwire
  case selfParticipant => exact hself
  case stamped =>
    intro c' hc'
    rw [honly c' hc']
    exact hstamped
  case distinct =>
    intro c' hc'
    have hdistinct := hinv.distinct c hcall
    rw [hremaining, List.map_cons] at hdistinct
    rw [honly c' hc', htail]
    exact hdistinct.of_cons
  case taken =>
    intro c' hc' htook
    rw [ledger_concat] at htook
    rw [honly c' hc', htail]
    exact taken_pushed hinv hkeeps htable hcall hremaining htarget htook
  case frames =>
    intro d hd
    rw [takenData_concat] at hd
    rcases List.mem_append.mp hd with hd | hd
    · exact hinv.frames d hd
    · have htook := Option.mem_toList.mp hd
      by_cases hhit : target = some i ∧ status = .accepted
      · obtain ⟨rfl, rfl⟩ := hhit
        rw [ServerEvent.taken?, if_pos rfl] at htook
        exact Option.some.inj htook ▸ hstamped
      · rw [taken?_of_not_accepted hhit] at htook
        cases htook
  case balanced =>
    rw [hcall', hsents, ledger_concat, takenData_concat]
    exact balanced_pushed status hinv htable htid hcall hremaining htarget hfew

theorem streamLedger_returned {c : Call} {result : ReliableSendResult}
    (hinv : StreamLedger me topicName messageType i evs s)
    (h : Stepped s (.returned c result) s') :
    StreamLedger me topicName messageType i (evs ++ [.returned c result]) s' := by
  obtain ⟨hwire, hself⟩ := node_step hinv h
  obtain ⟨hcall, -, rfl, hs'⟩ := publisherEffect_of_stepped h
  have hcall' : s'.publisher.call = none := by rw [hs']; rfl
  have hdata : takenData i (evs ++ [.returned c c.result]) = takenData i evs := by
    rw [takenData_concat]
    exact List.append_nil _
  have hnone : ∀ c', s'.publisher.call ≠ some c' := fun c' hc' => by
    rw [hcall'] at hc'
    cases hc'
  have hbalanced := hinv.balanced
  rw [hcall] at hbalanced
  constructor
  case wirePids => exact hwire
  case selfParticipant => exact hself
  case stamped => exact fun c' hc' => absurd hc' (hnone c')
  case distinct => exact fun c' hc' => absurd hc' (hnone c')
  case taken => exact fun c' hc' => absurd hc' (hnone c')
  case frames => exact hdata ▸ hinv.frames
  case balanced =>
    rw [hcall', hdata, ledger_concat, sents_concat, sent?_returned, (hinv.stamped c hcall).key]
    cases hany : c.acceptedAny with
    | true =>
        have hresult : c.result = .sent := by rw [Call.result, hany, if_pos rfl]
        rw [hresult, if_pos ⟨rfl, rfl⟩, List.length_append]
        exact hbalanced.committed _
    | false =>
        have hfree : (ledger i evs).taken = false := by
          by_contra htook
          have := (hinv.taken c hcall (by simpa using htook)).1
          rw [hany] at this
          cases this
        have hnote : (ledger i evs).note i (.returned c c.result) = ledger i evs := by
          rw [Call.result, hany]
          cases c.anyLiveBackpressured <;> rfl
        rw [hnote, if_neg (by simp), Option.toList_none, List.append_nil]
        exact hbalanced.abandoned hfree

/-- One step keeps the account of a stream. -/
theorem streamLedger_step (hinv : StreamLedger me topicName messageType i evs s)
    (h : Stepped s e s') (hkeeps : KeepsIdentity s s') (htable : s.TableInv)
    (htid : TidInv evs s.publisher) (htopic : OnTopic topicName messageType (evs ++ [e]))
    (hfew : (sents (makeCompositeKey topicName messageType) evs).length + 1 < 2 ^ 64) :
    StreamLedger me topicName messageType i (evs ++ [e]) s' := by
  have heffect := publisherEffect_of_stepped h
  cases e with
  | refused call why =>
      exact streamLedger_quiet hinv h hkeeps (heffect.2.2.1.trans heffect.1.symm) (.inl rfl)
        rfl rfl
  | begun c => exact streamLedger_begun hinv h (htopic c (by simp))
  | pushed c sk target status => exact streamLedger_pushed hinv h hkeeps htable htid hfew
  | returned c result => exact streamLedger_returned hinv h
  | registered j sk superseded =>
      refine streamLedger_quiet hinv h hkeeps (congrArg _ heffect) ?_ rfl rfl
      rw [Ledger.note]
      split
      · exact .inr rfl
      · exact .inl rfl
  | reactor j e =>
      exact streamLedger_quiet hinv h hkeeps (congrArg _ heffect) (.inl rfl) rfl rfl
  | internal =>
      exact streamLedger_quiet hinv h hkeeps (congrArg _ heffect) (.inl rfl) rfl rfl

theorem streamLedger_init (config : Config) (maxFrames hwm lwm : Nat) :
    StreamLedger me topicName messageType i []
      (init (Node.fresh me config) maxFrames hwm lwm : Server N) := by
  constructor
  case wirePids => exact Node.wirePids_fresh me config
  case selfParticipant => rfl
  case balanced => exact ⟨rfl, nofun, nofun, .nil, iff_of_true .nil nofun⟩
  all_goals exact nofun

theorem streamLedger_of_trace {ok : Server N → ServerAction → Prop} {config : Config}
    {maxFrames hwm lwm : Nat}
    (h : Trace (StepsWhere ok step) (init (Node.fresh me config) maxFrames hwm lwm) evs s)
    (htopic : OnTopic topicName messageType evs)
    (hfew : (sents (makeCompositeKey topicName messageType) evs).length + 1 < 2 ^ 64) :
    StreamLedger me topicName messageType i evs s := by
  refine Trace.invariant (P := fun evs s => OnTopic topicName messageType evs →
    (sents (makeCompositeKey topicName messageType) evs).length + 1 < 2 ^ 64 →
      StreamLedger me topicName messageType i evs s)
    (fun _ _ => streamLedger_init config maxFrames hwm lwm) ?_ h htopic hfew
  rintro evs s e s' hprev ih ⟨a, -, hstep⟩ htopic hfew
  have hless : (sents (makeCompositeKey topicName messageType) evs).length + 1 < 2 ^ 64 := by
    rw [sents_concat, List.length_append] at hfew
    omega
  have htable := tableInv_of_trace hprev
  exact streamLedger_step (ih (fun c hc => htopic c (by simp [hc])) hless)
    (stepped_of_step hstep) (keepsIdentity_of_step hstep htable) htable
    (tidInv_of_trace hprev) htopic hless

end Server

end Edriel
