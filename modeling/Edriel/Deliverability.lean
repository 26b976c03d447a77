import Edriel.Delivery
import Edriel.Withdrawal

namespace Edriel

open Proto3 Std Interleaving Text

theorem colon_notMem_decimal (n : Nat) : (58 : UInt8) ∉ decimal n := by
  intro hmem
  exact absurd (isDigit_of_mem_decimal hmem).2 (by decide)

theorem SubscriberKey.text_injective : Function.Injective SubscriberKey.text := by
  intro sk sk' h
  rw [text, text, List.append_assoc, List.append_assoc] at h
  obtain ⟨hpid, hrest⟩ := cut_first (colon_notMem_decimal _) (colon_notMem_decimal _) h
  obtain ⟨htid, huid⟩ := cut_first (colon_notMem_decimal _) (colon_notMem_decimal _) hrest
  obtain ⟨pid, tid, uid⟩ := sk
  obtain rfl := UInt32.toNat_inj.mp (decimal_injective hpid)
  obtain rfl := UInt64.toNat_inj.mp (decimal_injective htid)
  obtain rfl := UInt64.toNat_inj.mp (decimal_injective huid)
  rfl

def ServerEvent.answered? (call : Nat) : ServerEvent → Option (SubscriberKey × OutboxStatus)
  | .pushed c sk _ status => if c.number = call then some (sk, status) else none
  | _ => none

def pushes (call : Nat) (evs : List ServerEvent) : List (SubscriberKey × OutboxStatus) :=
  evs.filterMap (ServerEvent.answered? call)

theorem pushes_concat (call : Nat) (evs : List ServerEvent) (e : ServerEvent) :
    pushes call (evs ++ [e]) = pushes call evs ++ (e.answered? call).toList := by
  rw [pushes, List.filterMap_append, pushes]
  cases h : e.answered? call <;> simp [h]

theorem mem_pushes {call : Nat} {evs : List ServerEvent} {p : SubscriberKey × OutboxStatus} :
    p ∈ pushes call evs ↔ ∃ c target, .pushed c p.1 target p.2 ∈ evs ∧ c.number = call := by
  rw [pushes, List.mem_filterMap]
  constructor
  · rintro ⟨e, he, hpush⟩
    cases e with
    | pushed c sk target status =>
        rw [ServerEvent.answered?] at hpush
        split at hpush
        · rename_i hnumber
          obtain rfl := Option.some.inj hpush
          exact ⟨c, target, he, hnumber⟩
        · cases hpush
    | _ => cases hpush
  · rintro ⟨c, target, he, hnumber⟩
    refine ⟨_, he, ?_⟩
    rw [ServerEvent.answered?, if_pos hnumber]

/-- The report of a send that is over.  It is cleared first, and an early return leaves it so. -/
def ServerEvent.report? : ServerEvent → Option (ExtTreeMap Bytes OutboxStatus)
  | .refused _ _ => some ∅
  | .returned c _ => some c.deliverability
  | _ => none

def reportOf (ps : List (SubscriberKey × OutboxStatus)) : ExtTreeMap Bytes OutboxStatus :=
  (∅ : ExtTreeMap Bytes OutboxStatus).insertMany (ps.map fun p => (p.1.text, p.2))

theorem reportOf_concat (ps : List (SubscriberKey × OutboxStatus)) (sk : SubscriberKey)
    (status : OutboxStatus) :
    reportOf (ps ++ [(sk, status)]) = (reportOf ps).insert sk.text status := by
  rw [reportOf, List.map_append, ExtTreeMap.insertMany_append]
  exact ExtTreeMap.insertMany_list_singleton

theorem getElem?_reportOf {ps : List (SubscriberKey × OutboxStatus)}
    (hnodup : (ps.map Prod.fst).Nodup) (text : Bytes) (status : OutboxStatus) :
    (reportOf ps)[text]? = some status ↔ ∃ sk, (sk, status) ∈ ps ∧ sk.text = text := by
  induction ps using List.reverseRecOn with
  | nil =>
      rw [reportOf, List.map_nil, ExtTreeMap.insertMany_nil, ExtTreeMap.getElem?_empty]
      simp
  | append_singleton ps p ih =>
      obtain ⟨sk, st⟩ := p
      rw [List.map_append, List.nodup_append] at hnodup
      obtain ⟨hps, -, hapart⟩ := hnodup
      rw [reportOf_concat, ExtTreeMap.getElem?_insert]
      simp only [List.mem_append, List.mem_singleton, Prod.mk.injEq,
        LawfulEqOrd.compare_eq_iff_eq]
      split_ifs with htext
      · subst htext
        constructor
        · intro hstatus
          exact ⟨sk, .inr ⟨rfl, (Option.some.inj hstatus).symm⟩, rfl⟩
        · rintro ⟨sk', hmem | ⟨rfl, rfl⟩, heq⟩
          · obtain rfl := SubscriberKey.text_injective heq
            exact absurd rfl (hapart sk' (List.mem_map_of_mem hmem) sk' (by simp))
          · rfl
      · rw [ih hps]
        constructor
        · rintro ⟨sk', hmem, heq⟩
          exact ⟨sk', .inl hmem, heq⟩
        · rintro ⟨sk', hmem | ⟨rfl, -⟩, heq⟩
          · exact ⟨sk', hmem, heq⟩
          · exact absurd heq htext

theorem size_reportOf {ps : List (SubscriberKey × OutboxStatus)}
    (hnodup : (ps.map Prod.fst).Nodup) : (reportOf ps).size = ps.length := by
  induction ps using List.reverseRecOn with
  | nil => rfl
  | append_singleton ps p ih =>
      obtain ⟨sk, st⟩ := p
      rw [List.map_append, List.nodup_append] at hnodup
      obtain ⟨hps, -, hapart⟩ := hnodup
      have hnew : sk.text ∉ reportOf ps := by
        rw [ExtTreeMap.mem_iff_isSome_getElem?]
        intro hsome
        obtain ⟨status, hstatus⟩ := Option.isSome_iff_exists.mp hsome
        obtain ⟨sk', hmem, heq⟩ := (getElem?_reportOf hps _ status).mp hstatus
        obtain rfl := SubscriberKey.text_injective heq
        exact hapart sk' (List.mem_map_of_mem hmem) sk' (by simp) rfl
      rw [reportOf_concat, ExtTreeMap.size_insert,
        if_neg (mt ExtTreeMap.contains_iff_mem.mp hnew), ih hps, List.length_append,
        List.length_singleton]

namespace Server

variable {N : Nat} [NeZero N]

theorem deliverability_of_offer {p p' : ReliablePublisher} {n : Node N} {serving : Bool}
    {topicName messageType payload : Bytes} {now : Int} {c : Call}
    (h : p.offer n serving topicName messageType payload now = (.ok c, p')) :
    c.deliverability = ∅ := by
  simp only [ReliablePublisher.offer] at h
  split at h
  · split at h
    · split at h
      · cases (Prod.mk.inj h).1
      · split at h
        · cases (Prod.mk.inj h).1
        · simp only [ReliablePublisher.stamp] at h
          split at h
          · cases (Prod.mk.inj h).1
          · split at h
            · cases (Prod.mk.inj h).1
            · obtain rfl := Except.ok.inj (Prod.mk.inj h).1
              rfl
    · cases (Prod.mk.inj h).1
  · cases (Prod.mk.inj h).1

/-- How far a send has come since it began with `c₀`. -/
structure Reported (evs : List ServerEvent) (c₀ c : Call) : Prop where
  begun : .begun c₀ ∈ evs
  number : c₀.number = c.number
  data : c₀.data = c.data
  reached : c₀.remaining.map Identity.subscriberKey =
    (pushes c.number evs).map Prod.fst ++ c.remaining.map Identity.subscriberKey
  nodup : (c₀.remaining.map Identity.subscriberKey).Nodup
  deliverability : c.deliverability = reportOf (pushes c.number evs)
  acceptedAny : c.acceptedAny = true ↔ ∃ sk, (sk, .accepted) ∈ pushes c.number evs
  backpressured : c.anyLiveBackpressured = true ↔
    ∃ sk, (sk, .backpressured) ∈ pushes c.number evs

structure Reports (evs : List ServerEvent) (s : Server N) : Prop where
  wirePids : s.node.WirePids
  call : ∀ c, s.publisher.call = some c → ∃ c₀, Reported evs c₀ c
  returned : ∀ c result, .returned c result ∈ evs →
    c.remaining = [] ∧ result = c.result ∧ ∃ c₀, Reported evs c₀ c
  refused : ∀ call why, .refused call why ∈ evs → pushes call evs = []

variable {evs : List ServerEvent} {s s' : Server N} {e : ServerEvent} {c₀ c : Call}

theorem Reported.other (h : Reported evs c₀ c) (hother : e.answered? c.number = none) :
    Reported (evs ++ [e]) c₀ c := by
  have hsame : pushes c.number (evs ++ [e]) = pushes c.number evs := by
    rw [pushes_concat, hother, Option.toList_none, List.append_nil]
  constructor
  case begun => exact List.mem_append_left _ h.begun
  case number => exact h.number
  case data => exact h.data
  case nodup => exact h.nodup
  all_goals rw [hsame]
  case reached => exact h.reached
  case deliverability => exact h.deliverability
  case acceptedAny => exact h.acceptedAny
  case backpressured => exact h.backpressured

theorem Reported.push (h : Reported evs c₀ c) {sub : Identity} {rest : List Identity}
    (hremaining : c.remaining = sub :: rest) (target : Option Nat) (status : OutboxStatus) :
    Reported (evs ++ [.pushed c sub.subscriberKey target status]) c₀
      (c.noted sub.subscriberKey status) := by
  have hpushes : pushes c.number (evs ++ [.pushed c sub.subscriberKey target status]) =
      pushes c.number evs ++ [(sub.subscriberKey, status)] := by
    rw [pushes_concat, ServerEvent.answered?, if_pos rfl, Option.toList_some]
  constructor
  case begun => exact List.mem_append_left _ h.begun
  case number => exact h.number
  case data => exact h.data
  case nodup => exact h.nodup
  case reached =>
    change _ = (pushes c.number _).map Prod.fst ++ c.remaining.tail.map Identity.subscriberKey
    rw [hpushes, h.reached, hremaining, List.map_cons, List.map_append, List.append_assoc]
    rfl
  case deliverability =>
    change c.deliverability.insert sub.subscriberKey.text status = reportOf (pushes c.number _)
    rw [hpushes, reportOf_concat, h.deliverability]
  case acceptedAny =>
    change (c.acceptedAny || decide (status = .accepted)) = true ↔
      ∃ sk, (sk, .accepted) ∈ pushes c.number _
    rw [hpushes, Bool.or_eq_true, h.acceptedAny, decide_eq_true_iff]
    simp only [List.mem_append, List.mem_singleton, Prod.mk.injEq, exists_or, exists_eq_left,
      eq_comm]
  case backpressured =>
    change (c.anyLiveBackpressured || decide (status = .backpressured)) = true ↔
      ∃ sk, (sk, .backpressured) ∈ pushes c.number _
    rw [hpushes, Bool.or_eq_true, h.backpressured, decide_eq_true_iff]
    simp only [List.mem_append, List.mem_singleton, Prod.mk.injEq, exists_or, exists_eq_left,
      eq_comm]

theorem offer_of_begun (hstep : Stepped s (.begun c) s') :
    ∃ topicName messageType payload now p,
      s.publisher.offer s.node s.serving topicName messageType payload now = (.ok c, p) := by
  generalize he : ServerEvent.begun c = e at hstep
  cases hstep with
  | @begun topicName messageType payload now c' p hidle hoffer =>
      obtain rfl := ServerEvent.begun.inj he
      exact ⟨topicName, messageType, payload, now, p, hoffer⟩
  | @reactor j a e r hreactor =>
      exact absurd he (by cases e <;> simp [react])
  | _ => cases he

theorem reported_of_begun (hinv : TidInv evs s.publisher) (hwire : s.node.WirePids)
    (hstep : Stepped s (.begun c) s') : Reported (evs ++ [.begun c]) c c := by
  obtain ⟨topicName, messageType, payload, now, p, hoffer⟩ := offer_of_begun hstep
  have hopening := ReliablePublisher.opening_of_offer hoffer
  have hnone : pushes c.number (evs ++ [.begun c]) = [] := by
    rw [pushes_concat, List.eq_nil_iff_forall_not_mem]
    intro p hp
    rw [show ServerEvent.answered? c.number (.begun c) = none from rfl, Option.toList_none,
      List.append_nil] at hp
    obtain ⟨c', target, hpushed, hnumber⟩ := mem_pushes.mp hp
    have hlt := hinv.pushed_lt _ _ _ _ hpushed
    rw [hnumber, hopening.number] at hlt
    exact Nat.lt_irrefl _ hlt
  constructor
  case begun => exact List.mem_append_right _ (List.mem_singleton_self _)
  case number => rfl
  case data => rfl
  case nodup => exact distinct_of_opening hwire hopening
  all_goals rw [hnone]
  case reached => rfl
  case deliverability => exact deliverability_of_offer hoffer
  case acceptedAny => simp [hopening.untouched.1]
  case backpressured => simp [hopening.untouched.2]

theorem answered?_of_ended (hinv : TidInv evs s.publisher) {r : Nat × ReliableSendResult}
    (hended : r ∈ results evs) (heffect : PublisherEffect s s' e) : e.answered? r.1 = none := by
  cases e with
  | pushed c' sk target status =>
      obtain ⟨hcall, -⟩ := heffect
      rw [ServerEvent.answered?, if_neg]
      intro hnumber
      refine (hinv.call c' hcall).open_ r.2 ?_
      rw [hnumber]
      exact hended
  | _ => rfl

/-- An early return has pushed nothing, and it is over. -/
theorem pushes_of_refused (hinv : TidInv evs s.publisher) (h : Reports evs s)
    (heffect : PublisherEffect s s' e) {call : Nat} {why : Refusal}
    (hrefused : .refused call why ∈ evs ++ [e]) : pushes call (evs ++ [e]) = [] := by
  rw [pushes_concat]
  rcases List.mem_append.mp hrefused with hrefused | hrefused
  · have hended : (call, why.result) ∈ results evs := List.mem_filterMap.mpr ⟨_, hrefused, rfl⟩
    rw [h.refused call why hrefused, answered?_of_ended hinv hended heffect, Option.toList_none,
      List.append_nil]
  · obtain rfl := List.mem_singleton.mp hrefused
    obtain ⟨-, rfl, -⟩ := heffect
    rw [show ServerEvent.answered? s.publisher.calls (.refused s.publisher.calls why) = none from
      rfl, Option.toList_none, List.append_nil, List.eq_nil_iff_forall_not_mem]
    intro p hp
    obtain ⟨c, target, hpushed, hnumber⟩ := mem_pushes.mp hp
    exact absurd hnumber (hinv.pushed_lt _ _ _ _ hpushed).ne

theorem reports_step (hinv : TidInv evs s.publisher) (h : Reports evs s) (hstep : Stepped s e s') :
    Reports (evs ++ [e]) s' := by
  have heffect := publisherEffect_of_stepped hstep
  have hwire : s'.node.WirePids := by
    rcases node_of_stepped hstep with hnode | ⟨op, hnode⟩
    · rw [hnode]
      exact h.wirePids
    · rw [hnode]
      exact Node.wirePids_apply h.wirePids
  have hold : ∀ c result, .returned c result ∈ evs →
      c.remaining = [] ∧ result = c.result ∧ ∃ c₀, Reported (evs ++ [e]) c₀ c := by
    intro c result hreturned
    obtain ⟨hremaining, hresult, c₀, hreported⟩ := h.returned c result hreturned
    have hended : (c.number, result) ∈ results evs := List.mem_filterMap.mpr ⟨_, hreturned, rfl⟩
    exact ⟨hremaining, hresult, c₀,
      hreported.other (answered?_of_ended hinv hended heffect)⟩
  have hquiet : (∀ c result, e ≠ .returned c result) → ∀ c result,
      .returned c result ∈ evs ++ [e] →
        c.remaining = [] ∧ result = c.result ∧ ∃ c₀, Reported (evs ++ [e]) c₀ c := by
    intro hother c result hreturned
    rcases List.mem_append.mp hreturned with hreturned | hreturned
    · exact hold c result hreturned
    · exact absurd (List.mem_singleton.mp hreturned).symm (hother c result)
  have hrefused : ∀ call why, .refused call why ∈ evs ++ [e] → pushes call (evs ++ [e]) = [] :=
    fun call why => pushes_of_refused hinv h heffect
  cases e with
  | refused call why =>
      obtain ⟨-, -, hidle, -⟩ := heffect
      refine ⟨hwire, fun c hc => ?_, hquiet fun _ _ => nofun, hrefused⟩
      rw [hidle] at hc
      cases hc
  | begun c =>
      obtain ⟨-, -, hcall, -⟩ := heffect
      refine ⟨hwire, fun c' hc' => ?_, hquiet fun _ _ => nofun, hrefused⟩
      obtain rfl := Option.some.inj (hcall.symm.trans hc')
      exact ⟨c, reported_of_begun hinv h.wirePids hstep⟩
  | pushed c sk target status =>
      obtain ⟨hcall, ⟨sub, rest, hremaining, rfl⟩, -, -, hs'⟩ := heffect
      obtain ⟨c₀, hreported⟩ := h.call c hcall
      refine ⟨hwire, fun c' hc' => ?_, hquiet fun _ _ => nofun, hrefused⟩
      rw [hs'] at hc'
      obtain rfl := Option.some.inj hc'
      exact ⟨c₀, hreported.push hremaining target status⟩
  | returned c result =>
      obtain ⟨hcall, hremaining, hresult, hs'⟩ := heffect
      obtain ⟨c₀, hreported⟩ := h.call c hcall
      refine ⟨hwire, fun c' hc' => ?_, fun c' result' hreturned => ?_, hrefused⟩
      · rw [hs'] at hc'
        cases hc'
      · rcases List.mem_append.mp hreturned with hreturned | hreturned
        · exact hold c' result' hreturned
        · obtain ⟨rfl, rfl⟩ := ServerEvent.returned.inj (List.mem_singleton.mp hreturned)
          exact ⟨hremaining, hresult, c₀, hreported.other rfl⟩
  | _ =>
      have hs' : s'.publisher = s.publisher := heffect
      refine ⟨hwire, fun c hc => ?_, hquiet fun _ _ => nofun, hrefused⟩
      rw [hs'] at hc
      obtain ⟨c₀, hreported⟩ := h.call c hc
      exact ⟨c₀, hreported.other rfl⟩

theorem reports_of_trace {ok : Server N → ServerAction → Prop} {me : Identity} {config : Config}
    {maxFrames hwm lwm : Nat}
    (h : Trace (StepsWhere ok step) (init (Node.fresh me config) maxFrames hwm lwm) evs s) :
    Reports evs s := by
  induction h with
  | nil =>
      refine ⟨Node.wirePids_fresh me config, ?_, ?_, ?_⟩
      · intro c hc
        cases hc
      · intro c result hreturned
        cases hreturned
      · intro call why hrefused
        cases hrefused
  | snoc hprev hR ih =>
      obtain ⟨a, -, hstep⟩ := hR
      exact reports_step (tidInv_of_trace hprev) ih (stepped_of_step hstep)

/-- The send that began pushes to the subscribers that the topic had then. -/
theorem subscribers_of_begun {ok : Server N → ServerAction → Prop} {s₀ : Server N}
    (h : Trace (StepsWhere ok step) s₀ evs s) (hbegun : .begun c₀ ∈ evs) :
    ∃ before m, before ++ [.begun c₀] <+: evs ∧ Trace (StepsWhere ok step) s₀ before m ∧
      c₀.remaining = (m.node.subscribersAt c₀.data.key).toList := by
  obtain ⟨before, after, rfl⟩ := List.append_of_mem hbegun
  rw [List.append_cons] at h
  obtain ⟨m', hopened, -⟩ := h.split
  obtain ⟨m, hbefore, hlast⟩ := hopened.split
  obtain ⟨a, -, hstep⟩ := hlast.of_single
  obtain ⟨topicName, messageType, payload, now, p, hoffer⟩ :=
    offer_of_begun (stepped_of_step hstep)
  have hopening := ReliablePublisher.opening_of_offer hoffer
  have hkey : c₀.data.key = makeCompositeKey topicName messageType := by
    rw [hopening.data]
    rfl
  refine ⟨before, m, ⟨after, by rw [List.append_assoc]; rfl⟩, hbefore, ?_⟩
  rw [hkey]
  exact Node.remaining_of_opening hopening

theorem Reported.getElem? (h : Reported evs c₀ c) (hremaining : c.remaining = []) :
    (∀ (text : Bytes) (status : OutboxStatus), c.deliverability[text]? = some status ↔
      ∃ sk, (sk, status) ∈ pushes c.number evs ∧ sk.text = text) ∧
    (pushes c.number evs).map Prod.fst = c₀.remaining.map Identity.subscriberKey ∧
    c.deliverability.size = c₀.remaining.length := by
  have hreached : (pushes c.number evs).map Prod.fst =
      c₀.remaining.map Identity.subscriberKey := by
    rw [h.reached, hremaining, List.map_nil, List.append_nil]
  have hnodup : ((pushes c.number evs).map Prod.fst).Nodup := hreached ▸ h.nodup
  refine ⟨fun text status => ?_, hreached, ?_⟩
  · rw [h.deliverability]
    exact getElem?_reportOf hnodup text status
  · rw [h.deliverability, size_reportOf hnodup, ← List.length_map Prod.fst, hreached,
      List.length_map]

theorem Reported.result_eq (h : Reported evs c₀ c) (hremaining : c.remaining = []) :
    (c.result = .sent ↔ ∃ text : Bytes, c.deliverability[text]? = some OutboxStatus.accepted) ∧
    (c.result = .noSubscribers ↔ ∀ (text : Bytes) (status : OutboxStatus),
      c.deliverability[text]? = some status → status = .notConnected) := by
  have hread := (h.getElem? hremaining).1
  have hany : ∀ status : OutboxStatus, (∃ text : Bytes, c.deliverability[text]? = some status) ↔
      ∃ sk, (sk, status) ∈ pushes c.number evs := by
    intro status
    constructor
    · rintro ⟨text, hstatus⟩
      obtain ⟨sk, hmem, -⟩ := (hread text status).mp hstatus
      exact ⟨sk, hmem⟩
    · rintro ⟨sk, hmem⟩
      exact ⟨sk.text, (hread _ _).mpr ⟨sk, hmem, rfl⟩⟩
  constructor
  · rw [hany, ← h.acceptedAny, Call.result]
    split_ifs with haccepted hrefused
    · exact iff_of_true rfl haccepted
    · exact iff_of_false not_false haccepted
    · exact iff_of_false not_false haccepted
  · have hnone : (∀ (text : Bytes) (status : OutboxStatus),
        c.deliverability[text]? = some status → status = .notConnected) ↔
          c.acceptedAny = false ∧ c.anyLiveBackpressured = false := by
      rw [← Bool.not_eq_true, ← Bool.not_eq_true, h.acceptedAny, h.backpressured,
        ← hany, ← hany]
      constructor
      · intro hall
        refine ⟨?_, ?_⟩
        · rintro ⟨text, hstatus⟩
          cases hall text _ hstatus
        · rintro ⟨text, hstatus⟩
          cases hall text _ hstatus
      · rintro ⟨haccepted, hrefused⟩ text status hstatus
        cases status with
        | accepted => exact absurd ⟨text, hstatus⟩ haccepted
        | backpressured => exact absurd ⟨text, hstatus⟩ hrefused
        | notConnected => rfl
    rw [hnone, Call.result]
    cases c.acceptedAny <;> cases c.anyLiveBackpressured <;> simp

/-- When a send is over, its report has what the pushes to the subscribers came back with, and
it is `Sent` exactly if one of them was accepted.  Either it was an early return, which pushes
nothing, or it has pushed once to each subscriber that the topic had when it began. -/
theorem deliverability_exact {ok : Server N → ServerAction → Prop} {me : Identity}
    {config : Config} {maxFrames hwm lwm : Nat}
    (h : Trace (StepsWhere ok step) (init (Node.fresh me config) maxFrames hwm lwm) evs s)
    {call : Nat} {result : ReliableSendResult} {report : ExtTreeMap Bytes OutboxStatus}
    (he : e ∈ evs) (hresult : e.result? = some (call, result))
    (hreport : e.report? = some report) :
    (∀ (text : Bytes) (status : OutboxStatus), report[text]? = some status ↔
      ∃ sk, (sk, status) ∈ pushes call evs ∧ sk.text = text) ∧
    (result = .sent ↔ ∃ text : Bytes, report[text]? = some OutboxStatus.accepted) ∧
    ((∃ why, e = .refused call why) ∧ pushes call evs = [] ∨
      ∃ before m c₀, before ++ [.begun c₀] <+: evs ∧
        Trace (StepsWhere ok step) (init (Node.fresh me config) maxFrames hwm lwm) before m ∧
        c₀.number = call ∧
        (pushes call evs).map Prod.fst =
          (m.node.subscribersAt c₀.data.key).toList.map Identity.subscriberKey ∧
        report.size = (m.node.subscribersAt c₀.data.key).size ∧
        (result = .noSubscribers ↔ ∀ (text : Bytes) (status : OutboxStatus),
          report[text]? = some status → status = .notConnected)) := by
  have hreports := reports_of_trace h
  cases e with
  | refused call' why =>
      obtain ⟨rfl, rfl⟩ := Prod.mk.inj (Option.some.inj hresult)
      obtain rfl := Option.some.inj hreport
      have hnone := hreports.refused call' why he
      refine ⟨fun text status => ?_, ?_, .inl ⟨⟨why, rfl⟩, hnone⟩⟩
      · rw [hnone, ExtTreeMap.getElem?_empty]
        exact iff_of_false nofun (by rintro ⟨sk, hmem, -⟩; cases hmem)
      · refine iff_of_false ?_ ?_
        · cases why <;> nofun
        · rintro ⟨text, htext⟩
          rw [ExtTreeMap.getElem?_empty] at htext
          cases htext
  | returned c result' =>
      obtain ⟨rfl, rfl⟩ := Prod.mk.inj (Option.some.inj hresult)
      obtain rfl := Option.some.inj hreport
      obtain ⟨hremaining, rfl, c₀, hreported⟩ := hreports.returned c result' he
      obtain ⟨hread, hreached, hsize⟩ := hreported.getElem? hremaining
      obtain ⟨hsent, hnone⟩ := hreported.result_eq hremaining
      obtain ⟨before, m, hprefix, hbefore, hsubscribers⟩ := subscribers_of_begun h hreported.begun
      rw [hsubscribers] at hreached hsize
      exact ⟨hread, hsent, .inr ⟨before, m, c₀, hprefix, hbefore, hreported.number, hreached,
        hsize.trans ExtTreeSet.length_toList, hnone⟩⟩
  | _ => cases hresult

/-- Two subscribers, of which the second still has the first message queued when the second one
is sent. -/
def sentTwice : List ServerAction :=
  Network.connectTwo ++ Network.sendToTwo [1] ++ Network.flush 0 ++ Network.sendToTwo [2]

theorem exists_returned_of_result? {call : Nat} (h : e.result? = some (call, .sent)) :
    ∃ c, e = .returned c .sent ∧ c.number = call := by
  cases e with
  | returned c result =>
      obtain ⟨hnumber, rfl⟩ := Prod.mk.inj (Option.some.inj h)
      exact ⟨c, rfl, hnumber⟩
  | refused call why =>
      obtain ⟨-, hresult⟩ := Prod.mk.inj (Option.some.inj h)
      cases why <;> cases hresult
  | _ => cases h

set_option maxRecDepth 4000 in
theorem deliverability_exact_twice :
    ∃ (evs : List ServerEvent) (s : Server 1) (c : Call),
      exec step (init (Node.fresh ⟨1, 2, 3⟩ {}) 2 1 0) sentTwice = some (evs, s) ∧
      pushes 1 evs = [(⟨4, 5, 6⟩, .accepted), (⟨7, 8, 9⟩, .backpressured)] ∧
      (∀ (text : Bytes) (status : OutboxStatus), c.deliverability[text]? = some status ↔
        ∃ sk, (sk, status) ∈ pushes 1 evs ∧ sk.text = text) ∧
      (ReliableSendResult.sent = .sent ↔
        ∃ text : Bytes, c.deliverability[text]? = some OutboxStatus.accepted) ∧
      ((∃ why, ServerEvent.returned c .sent = .refused 1 why) ∧ pushes 1 evs = [] ∨
        ∃ (before : List ServerEvent) (m : Server 1) (c₀ : Call), before ++ [.begun c₀] <+: evs ∧
          Trace (Steps step) (init (Node.fresh ⟨1, 2, 3⟩ {}) 2 1 0) before m ∧
          c₀.number = 1 ∧
          (pushes 1 evs).map Prod.fst =
            (m.node.subscribersAt c₀.data.key).toList.map Identity.subscriberKey ∧
          c.deliverability.size = (m.node.subscribersAt c₀.data.key).size ∧
          (ReliableSendResult.sent = .noSubscribers ↔ ∀ (text : Bytes) (status : OutboxStatus),
            c.deliverability[text]? = some status → status = .notConnected)) := by
  have hrun : (exec step (init (Node.fresh ⟨1, 2, 3⟩ {} : Node 1) 2 1 0) sentTwice).map
      (fun p => (p.1.getLast?.bind ServerEvent.result?, pushes 1 p.1)) =
        some (some (1, .sent), [(⟨4, 5, 6⟩, .accepted), (⟨7, 8, 9⟩, .backpressured)]) := rfl
  obtain ⟨⟨evs, s⟩, h, hp⟩ := Option.map_eq_some_iff.mp hrun
  obtain ⟨hlast, hpushes⟩ := Prod.mk.inj hp
  obtain ⟨e, he, hresult⟩ := Option.bind_eq_some_iff.mp hlast
  obtain ⟨c, rfl, hnumber⟩ := exists_returned_of_result? hresult
  exact ⟨evs, s, c, h, hpushes, deliverability_exact (trace_of_exec (fun _ _ _ => trivial) h)
    (List.mem_of_getLast? he) hresult rfl⟩

end Server

end Edriel
