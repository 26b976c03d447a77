import Edriel.Server

namespace Edriel

open Proto3 Std Interleaving

def ServerEvent.result? : ServerEvent → Option (Nat × ReliableSendResult)
  | .refused call why => some (call, why.result)
  | .returned c result => some (c.number, result)
  | _ => none

def ServerEvent.sent? (key : Bytes) : ServerEvent → Option Call
  | .returned c .sent => if c.data.key = key then some c else none
  | _ => none

def results (evs : List ServerEvent) : List (Nat × ReliableSendResult) :=
  evs.filterMap ServerEvent.result?

def sents (key : Bytes) (evs : List ServerEvent) : List Call :=
  evs.filterMap (ServerEvent.sent? key)

def PushedWith (status : OutboxStatus) (call : Nat) (evs : List ServerEvent) : Prop :=
  ∃ c sk target, .pushed c sk target status ∈ evs ∧ c.number = call

def Paced (call : Nat) (evs : List ServerEvent) : Prop :=
  .refused call .paced ∈ evs

theorem results_concat (evs : List ServerEvent) (e : ServerEvent) :
    results (evs ++ [e]) = results evs ++ e.result?.toList := by
  rw [results, List.filterMap_append, results]
  cases h : e.result? <;> simp [h]

theorem sents_concat (key : Bytes) (evs : List ServerEvent) (e : ServerEvent) :
    sents key (evs ++ [e]) = sents key evs ++ (e.sent? key).toList := by
  rw [sents, List.filterMap_append, sents]
  cases h : e.sent? key <;> simp [h]

theorem pushedWith_concat {status : OutboxStatus} {call : Nat} {evs : List ServerEvent}
    {e : ServerEvent} :
    PushedWith status call (evs ++ [e]) ↔
      PushedWith status call evs ∨ ∃ c sk target, e = .pushed c sk target status ∧
        c.number = call := by
  simp only [PushedWith, List.mem_append, List.mem_singleton]
  constructor
  · rintro ⟨c, sk, target, hmem | rfl, hnumber⟩
    · exact .inl ⟨c, sk, target, hmem, hnumber⟩
    · exact .inr ⟨c, sk, target, rfl, hnumber⟩
  · rintro (⟨c, sk, target, hmem, hnumber⟩ | ⟨c, sk, target, rfl, hnumber⟩)
    · exact ⟨c, sk, target, .inl hmem, hnumber⟩
    · exact ⟨c, sk, target, .inr rfl, hnumber⟩

theorem length_sents_le (key : Bytes) (evs : List ServerEvent) :
    (sents key evs).length ≤ evs.length :=
  List.length_filterMap_le _ _

theorem pushedWith_concat_other {status : OutboxStatus} {call : Nat}
    {evs : List ServerEvent} {e : ServerEvent}
    (hother : ∀ c sk target status, e ≠ .pushed c sk target status) :
    PushedWith status call (evs ++ [e]) ↔ PushedWith status call evs := by
  rw [pushedWith_concat]
  exact or_iff_left (fun ⟨c, sk, target, he, _⟩ => hother c sk target status he)

theorem paced_concat {call : Nat} {evs : List ServerEvent} {e : ServerEvent} :
    Paced call (evs ++ [e]) ↔ Paced call evs ∨ e = .refused call .paced := by
  rw [Paced, Paced, List.mem_append, List.mem_singleton, eq_comm (a := e)]

theorem sent?_of_result? {e : ServerEvent} (h : e.result? = none) (key : Bytes) :
    e.sent? key = none := by
  cases e with
  | returned c result => cases h
  | _ => rfl

theorem mem_results_of_paced {call : Nat} {evs : List ServerEvent} (h : Paced call evs) :
    (call, .backpressured) ∈ results evs :=
  List.mem_filterMap.mpr ⟨_, h, rfl⟩

namespace Server

variable {N : Nat} [NeZero N]

/-- What is right about a return: `Sent` goes with an acceptance, `Backpressured`
with pacing or a refusal. -/
def Right (evs : List ServerEvent) (call : Nat) (result : ReliableSendResult) : Prop :=
  (result = .sent ↔ PushedWith .accepted call evs) ∧
    (result = .backpressured ↔ ¬ PushedWith .accepted call evs ∧
      (Paced call evs ∨ PushedWith .backpressured call evs))

structure CallInv (evs : List ServerEvent) (p : ReliablePublisher) (c : Call) : Prop where
  number_lt : c.number < p.calls
  open_ : ∀ result, (c.number, result) ∉ results evs
  nextSeq : c.nextSeq = p.seq c.data.key + 1
  stamped : c.data.tid = c.nextSeq.toNat
  accepted_iff : c.acceptedAny = true ↔ PushedWith .accepted c.number evs
  refused_iff : c.anyLiveBackpressured = true ↔ PushedWith .backpressured c.number evs
  unpaced : ¬ Paced c.number evs

/-- Where the frame of an accepted push stands: its send is in progress, or it is
the `k`-th one of its topic that returned `Sent`. -/
def Placed (evs : List ServerEvent) (p : ReliablePublisher) (c : Call) : Prop :=
  (∃ c', p.call = some c' ∧ c'.number = c.number ∧ c'.data = c.data) ∨
    ∃ k c', (sents c.data.key evs)[k]? = some c' ∧ c'.number = c.number ∧
      c'.data = c.data ∧ c.data.tid = (k + 1) % 2 ^ 64

structure TidInv (evs : List ServerEvent) (p : ReliablePublisher) : Prop where
  seq : ∀ key, p.seq key = UInt64.ofNat (sents key evs).length
  call : ∀ c, p.call = some c → CallInv evs p c
  ended_lt : ∀ r ∈ results evs, r.1 < p.calls
  pushed_lt : ∀ c sk target status, .pushed c sk target status ∈ evs → c.number < p.calls
  right : ∀ r ∈ results evs, Right evs r.1 r.2
  placed : ∀ c sk target, .pushed c sk target .accepted ∈ evs → Placed evs p c

theorem Right.mono {evs : List ServerEvent} {e : ServerEvent} {call : Nat}
    {result : ReliableSendResult} (h : Right evs call result)
    (hpushed : ∀ status, PushedWith status call (evs ++ [e]) ↔ PushedWith status call evs)
    (hpaced : Paced call (evs ++ [e]) ↔ Paced call evs) :
    Right (evs ++ [e]) call result := by
  rw [Right, hpushed, hpushed, hpaced]
  exact h

theorem tidInv_quiet {evs : List ServerEvent} {p : ReliablePublisher} {e : ServerEvent}
    (hinv : TidInv evs p) (hresult : e.result? = none)
    (hother : ∀ c sk target status, e ≠ .pushed c sk target status) :
    TidInv (evs ++ [e]) p := by
  have hresults : results (evs ++ [e]) = results evs := by
    rw [results_concat, hresult, Option.toList_none, List.append_nil]
  have hsents : ∀ key, sents key (evs ++ [e]) = sents key evs := fun key => by
    rw [sents_concat, sent?_of_result? hresult, Option.toList_none, List.append_nil]
  have hpushed : ∀ {status call}, PushedWith status call (evs ++ [e]) ↔
      PushedWith status call evs := pushedWith_concat_other hother
  have hpaced : ∀ {call}, Paced call (evs ++ [e]) ↔ Paced call evs := by
    intro call
    rw [paced_concat]
    exact or_iff_left (by rintro rfl; cases hresult)
  have hmem : ∀ {c sk target status}, .pushed c sk target status ∈ evs ++ [e] →
      .pushed c sk target status ∈ evs := by
    intro c sk target status h
    rcases List.mem_append.mp h with h | h
    · exact h
    · exact absurd (List.mem_singleton.mp h).symm (hother c sk target status)
  constructor
  case seq =>
    intro key
    rw [hsents]
    exact hinv.seq key
  case call =>
    intro c hc
    obtain ⟨hnumber, hopen, hnext, hstamped, haccepted, hrefused, hunpaced⟩ := hinv.call c hc
    exact ⟨hnumber, by rwa [hresults], hnext, hstamped, by rw [hpushed]; exact haccepted,
      by rw [hpushed]; exact hrefused, by rwa [hpaced]⟩
  case ended_lt =>
    rw [hresults]
    exact hinv.ended_lt
  case pushed_lt => exact fun c sk target status h => hinv.pushed_lt c sk target status (hmem h)
  case right =>
    rw [hresults]
    exact fun r hr => (hinv.right r hr).mono (fun _ => hpushed) hpaced
  case placed =>
    intro c sk target h
    rw [Placed, hsents]
    exact hinv.placed c sk target (hmem h)

theorem tidInv_publisher {evs : List ServerEvent} {p p' : ReliablePublisher}
    (hinv : TidInv evs p) (hidle : p.call = none) (hseq : ∀ key, p'.seq key = p.seq key)
    (hcalls : p.calls ≤ p'.calls) (hcall : ∀ c, p'.call = some c → CallInv evs p' c) :
    TidInv evs p' := by
  constructor
  case seq => exact fun key => (hseq key).trans (hinv.seq key)
  case call => exact hcall
  case ended_lt => exact fun r hr => (hinv.ended_lt r hr).trans_le hcalls
  case pushed_lt =>
    exact fun c sk target status h => (hinv.pushed_lt c sk target status h).trans_le hcalls
  case right => exact hinv.right
  case placed =>
    intro c sk target h
    rcases hinv.placed c sk target h with ⟨c', hc', -⟩ | hplace
    · rw [hidle] at hc'
      cases hc'
    · exact .inr hplace

theorem pushedWith_of_calls_le {evs : List ServerEvent} {p : ReliablePublisher}
    (hinv : TidInv evs p) {call : Nat} (hcall : p.calls ≤ call) (status : OutboxStatus) :
    ¬ PushedWith status call evs := by
  rintro ⟨c, sk, target, hmem, rfl⟩
  exact absurd (hinv.pushed_lt c sk target status hmem) (Nat.not_lt.mpr hcall)

theorem notMem_results_of_calls_le {evs : List ServerEvent} {p : ReliablePublisher}
    (hinv : TidInv evs p) {call : Nat} (hcall : p.calls ≤ call) (result : ReliableSendResult) :
    (call, result) ∉ results evs :=
  fun h => absurd (hinv.ended_lt _ h) (Nat.not_lt.mpr hcall)

theorem callInv_of_opening {evs : List ServerEvent} {p p' : ReliablePublisher} {n : Node N}
    {topicName messageType payload : Bytes} {c : Call} (hinv : TidInv evs p)
    (hopening : p.Opening n topicName messageType payload c)
    (hseq : ∀ key, p'.seq key = p.seq key) (hcalls : p'.calls = p.calls + 1) :
    CallInv evs p' c := by
  have hnumber : p.calls ≤ c.number := hopening.number.ge
  obtain ⟨haccepted, hrefused⟩ := hopening.untouched
  constructor
  case number_lt => rw [hopening.number, hcalls]; exact Nat.lt_succ_self _
  case open_ => exact notMem_results_of_calls_le hinv hnumber
  case nextSeq => rw [hseq, hopening.nextSeq]
  case stamped => rw [hopening.data]; rfl
  case accepted_iff =>
    simp only [haccepted, Bool.false_eq_true, false_iff]
    exact pushedWith_of_calls_le hinv hnumber _
  case refused_iff =>
    simp only [hrefused, Bool.false_eq_true, false_iff]
    exact pushedWith_of_calls_le hinv hnumber _
  case unpaced =>
    exact fun h => notMem_results_of_calls_le hinv hnumber _ (mem_results_of_paced h)

theorem tidInv_refused {evs : List ServerEvent} {p p' : ReliablePublisher} {why : Refusal}
    (hinv : TidInv evs p) (hidle : p'.call = none) (hseq : ∀ key, p'.seq key = p.seq key)
    (hcalls : p'.calls = p.calls + 1) (hwas : p.call = none) :
    TidInv (evs ++ [.refused p.calls why]) p' := by
  have hinv' : TidInv evs p' := tidInv_publisher hinv hwas hseq (by omega)
    (fun c hc => by rw [hidle] at hc; cases hc)
  have hpushed : ∀ {status call}, PushedWith status call (evs ++ [.refused p.calls why]) ↔
      PushedWith status call evs := pushedWith_concat_other (fun _ _ _ _ => nofun)
  have hsents : ∀ key, sents key (evs ++ [.refused p.calls why]) = sents key evs :=
    fun key => by
      rw [sents_concat]
      exact List.append_nil _
  have hmem : ∀ {c sk target status},
      .pushed c sk target status ∈ evs ++ [.refused p.calls why] →
        .pushed c sk target status ∈ evs := by simp
  constructor
  case seq => exact fun key => by rw [hsents, hinv'.seq]
  case call =>
    intro c hc
    rw [hidle] at hc
    cases hc
  case ended_lt =>
    intro r hr
    rw [results_concat] at hr
    rcases List.mem_append.mp hr with hr | hr
    · exact hinv'.ended_lt r hr
    · obtain rfl := List.mem_singleton.mp hr
      exact hcalls ▸ Nat.lt_succ_self _
  case pushed_lt => exact fun c sk target status h => hinv'.pushed_lt c sk target status (hmem h)
  case right =>
    intro r hr
    rw [results_concat] at hr
    rcases List.mem_append.mp hr with hr | hr
    · have hlt := hinv.ended_lt r hr
      refine (hinv.right r hr).mono (fun _ => hpushed) ?_
      rw [paced_concat]
      refine or_iff_left ?_
      rintro heq
      obtain ⟨heq, -⟩ := ServerEvent.refused.inj heq
      omega
    · -- the refused send has pushed nothing
      obtain rfl := List.mem_singleton.mp hr
      have hnone : ∀ status, ¬ PushedWith status p.calls evs :=
        pushedWith_of_calls_le hinv le_rfl
      have hunpaced : ¬ Paced p.calls evs := fun h =>
        notMem_results_of_calls_le hinv le_rfl _ (mem_results_of_paced h)
      simp only [Right, hpushed, hnone, paced_concat, hunpaced]
      cases why <;> simp [Refusal.result]
  case placed =>
    intro c sk target h
    rw [Placed, hsents]
    exact hinv'.placed c sk target (hmem h)

theorem tidInv_pushed {evs : List ServerEvent} {p : ReliablePublisher} {c : Call}
    {sk : SubscriberKey} {target : Option Nat} {status : OutboxStatus} (hinv : TidInv evs p)
    (hcall : p.call = some c) :
    TidInv (evs ++ [.pushed c sk target status])
      { p with call := some (c.noted sk status) } := by
  obtain ⟨hnumber, hopen, hnext, hstamped, haccepted, hrefused, hunpaced⟩ := hinv.call c hcall
  have hresults : results (evs ++ [.pushed c sk target status]) = results evs := by
    rw [results_concat]
    exact List.append_nil _
  have hsents : ∀ key, sents key (evs ++ [.pushed c sk target status]) = sents key evs :=
    fun key => by
      rw [sents_concat]
      exact List.append_nil _
  have hpaced : ∀ {call}, Paced call (evs ++ [.pushed c sk target status]) ↔
      Paced call evs := by
    intro call
    rw [paced_concat]
    exact or_iff_left nofun
  have hpushed : ∀ {status' call}, PushedWith status' call
      (evs ++ [.pushed c sk target status]) ↔
        PushedWith status' call evs ∨ status = status' ∧ c.number = call := by
    intro status' call
    rw [pushedWith_concat]
    refine or_congr_right ⟨?_, ?_⟩
    · rintro ⟨c', sk', target', heq, rfl⟩
      obtain ⟨rfl, -, -, rfl⟩ := ServerEvent.pushed.inj heq
      exact ⟨rfl, rfl⟩
    · rintro ⟨rfl, rfl⟩
      exact ⟨c, sk, target, rfl, rfl⟩
  constructor
  case seq => exact fun key => by rw [hsents]; exact hinv.seq key
  case call =>
    intro c' hc'
    obtain rfl := Option.some.inj hc'
    refine ⟨hnumber, by rw [hresults]; exact hopen, hnext, hstamped, ?_, ?_, ?_⟩
    · change (c.acceptedAny || decide (status = .accepted)) = true ↔ PushedWith _ c.number _
      rw [hpushed, Bool.or_eq_true, haccepted, decide_eq_true_eq]
      simp
    · change (c.anyLiveBackpressured || decide (status = .backpressured)) = true ↔
        PushedWith _ c.number _
      rw [hpushed, Bool.or_eq_true, hrefused, decide_eq_true_eq]
      simp
    · change ¬ Paced c.number _
      rwa [hpaced]
  case ended_lt =>
    rw [hresults]
    exact hinv.ended_lt
  case pushed_lt =>
    intro c' sk' target' status' h
    rcases List.mem_append.mp h with h | h
    · exact hinv.pushed_lt c' sk' target' status' h
    · obtain ⟨rfl, -⟩ := ServerEvent.pushed.inj (List.mem_singleton.mp h)
      exact hnumber
  case right =>
    rw [hresults]
    intro r hr
    refine (hinv.right r hr).mono (fun status' => ?_) hpaced
    rw [hpushed]
    refine or_iff_left ?_
    rintro ⟨-, hsame⟩
    exact hopen r.2 (by rw [hsame]; exact hr)
  case placed =>
    intro c' sk' target' h
    rw [Placed, hsents]
    rcases List.mem_append.mp h with h | h
    · rcases hinv.placed c' sk' target' h with ⟨c₀, hc₀, hnumber₀, hdata₀⟩ | hplace
      · obtain rfl := Option.some.inj (hcall.symm.trans hc₀)
        exact .inl ⟨_, rfl, hnumber₀, hdata₀⟩
      · exact .inr hplace
    · obtain ⟨rfl, -⟩ := ServerEvent.pushed.inj (List.mem_singleton.mp h)
      exact .inl ⟨_, rfl, rfl, rfl⟩

theorem sent?_returned (c : Call) (key : Bytes) :
    (ServerEvent.returned c c.result).sent? key =
      if c.acceptedAny = true ∧ c.data.key = key then some c else none := by
  rw [Call.result]
  cases c.acceptedAny with
  | true => simp [ServerEvent.sent?]
  | false => cases c.anyLiveBackpressured <;> simp [ServerEvent.sent?]

theorem stamped_tid {evs : List ServerEvent} {p : ReliablePublisher} {c : Call}
    (hinv : TidInv evs p) (hcall : p.call = some c) :
    c.nextSeq = UInt64.ofNat ((sents c.data.key evs).length + 1) ∧
      c.data.tid = ((sents c.data.key evs).length + 1) % 2 ^ 64 := by
  have hcallInv := hinv.call c hcall
  have hnext : c.nextSeq = UInt64.ofNat ((sents c.data.key evs).length + 1) := by
    rw [hcallInv.nextSeq, hinv.seq, UInt64.ofNat_add]
    rfl
  exact ⟨hnext, by rw [hcallInv.stamped, hnext, UInt64.toNat_ofNat']⟩

theorem tidInv_returned {evs : List ServerEvent} {p : ReliablePublisher} {c : Call}
    (hinv : TidInv evs p) (hcall : p.call = some c) :
    TidInv (evs ++ [.returned c c.result]) (p.finish c) := by
  obtain ⟨hnumber, hopen, -, -, haccepted, hrefused, hunpaced⟩ := hinv.call c hcall
  obtain ⟨hnext, htid⟩ := stamped_tid hinv hcall
  have hresults : results (evs ++ [.returned c c.result]) =
      results evs ++ [(c.number, c.result)] := results_concat _ _
  have hpushed : ∀ {status call}, PushedWith status call (evs ++ [.returned c c.result]) ↔
      PushedWith status call evs := pushedWith_concat_other (fun _ _ _ _ => nofun)
  have hpaced : ∀ {call}, Paced call (evs ++ [.returned c c.result]) ↔ Paced call evs := by
    intro call
    rw [paced_concat]
    exact or_iff_left nofun
  have hmem : ∀ {c' sk target status},
      .pushed c' sk target status ∈ evs ++ [.returned c c.result] →
        .pushed c' sk target status ∈ evs := by simp
  constructor
  case seq =>
    intro key
    rw [ReliablePublisher.seq_finish, sents_concat, sent?_returned]
    by_cases hcommit : c.acceptedAny = true ∧ c.data.key = key
    · rw [if_pos hcommit, if_pos hcommit, hnext, hcommit.2]
      simp
    · rw [if_neg hcommit, if_neg hcommit, hinv.seq]
      simp
  case call => exact nofun
  case ended_lt =>
    intro r hr
    rw [hresults] at hr
    rcases List.mem_append.mp hr with hr | hr
    · exact hinv.ended_lt r hr
    · obtain rfl := List.mem_singleton.mp hr
      exact hnumber
  case pushed_lt => exact fun c' sk target status h => hinv.pushed_lt c' sk target status (hmem h)
  case right =>
    intro r hr
    rw [hresults] at hr
    rcases List.mem_append.mp hr with hr | hr
    · exact (hinv.right r hr).mono (fun _ => hpushed) hpaced
    · obtain rfl := List.mem_singleton.mp hr
      rw [Right, hpushed, hpaced, hpushed, ← haccepted, ← hrefused, Call.result]
      simp only [hunpaced, false_or]
      cases c.acceptedAny <;> cases c.anyLiveBackpressured <;> simp
  case placed =>
    intro c' sk target h
    refine .inr ?_
    rcases hinv.placed c' sk target (hmem h) with ⟨c₀, hc₀, hnumber₀, hdata₀⟩ |
      ⟨k, c₀, hk, hrest⟩
    · -- a frame of the send that returns now is the newest of its topic
      obtain rfl := Option.some.inj (hcall.symm.trans hc₀)
      have hany : c.acceptedAny = true :=
        haccepted.mpr ⟨c', sk, target, hmem h, hnumber₀.symm⟩
      refine ⟨(sents c'.data.key evs).length, c, ?_, hnumber₀, hdata₀, ?_⟩
      · rw [sents_concat, sent?_returned, if_pos ⟨hany, by rw [hdata₀]⟩]
        exact List.getElem?_concat_length
      · rw [← hdata₀]
        exact htid
    · refine ⟨k, c₀, ?_, hrest⟩
      rw [sents_concat, List.getElem?_append_left (List.getElem?_eq_some_iff.mp hk).1, hk]

theorem tidInv_step {evs : List ServerEvent} {s s' : Server N} {e : ServerEvent}
    (hinv : TidInv evs s.publisher) (heffect : PublisherEffect s s' e) :
    TidInv (evs ++ [e]) s'.publisher := by
  cases e with
  | refused call why =>
      obtain ⟨hwas, rfl, hidle, hcalls, hseq⟩ := heffect
      exact tidInv_refused hinv hidle hseq hcalls hwas
  | begun c =>
      obtain ⟨hwas, ⟨topicName, messageType, payload, hopening⟩, hcall, hcalls, hseq⟩ := heffect
      refine tidInv_quiet ?_ rfl (fun _ _ _ _ => nofun)
      refine tidInv_publisher hinv hwas hseq (by omega) ?_
      rintro c' hc'
      obtain rfl := Option.some.inj (hcall.symm.trans hc')
      exact callInv_of_opening hinv hopening hseq hcalls
  | pushed c sk target status =>
      obtain ⟨hcall, -, -, -, hs'⟩ := heffect
      rw [hs']
      exact tidInv_pushed hinv hcall
  | returned c result =>
      obtain ⟨hcall, -, rfl, hs'⟩ := heffect
      rw [hs']
      exact tidInv_returned hinv hcall
  | _ =>
      have hs' : s'.publisher = s.publisher := heffect
      rw [hs']
      exact tidInv_quiet hinv rfl (fun _ _ _ _ => nofun)

theorem tidInv_nil : TidInv [] {} := by
  constructor
  case seq => exact fun key => rfl
  case call => exact nofun
  all_goals simp [results]

theorem tidInv_of_trace {ok : Server N → ServerAction → Prop} {node : Node N}
    {maxFrames hwm lwm : Nat} {evs : List ServerEvent} {s : Server N}
    (h : Trace (StepsWhere ok step) (init node maxFrames hwm lwm) evs s) :
    TidInv evs s.publisher := by
  refine Trace.invariant (P := fun evs s => TidInv evs s.publisher)
    tidInv_nil ?_ h
  rintro evs s e s' - hinv ⟨a, -, hstep⟩
  exact tidInv_step hinv (publisherEffect_of_stepped (stepped_of_step hstep))

/-- The frames of stream `i`: those moved to the wire and those still queued. -/
def frames (s : Server N) (evs : List ServerEvent) (i : Nat) : List OutFrame :=
  Rpc.moved (evs.flatMap (ServerEvent.view i)) ++ (s.rpcs i).reactor.outbox

/-- A data frame of a stream comes from a push that the stream accepted. -/
theorem pushed_of_mem_frames {ok : Server N → ServerAction → Prop} {node : Node N}
    {maxFrames hwm lwm : Nat} {evs : List ServerEvent} {s : Server N}
    (h : Trace (StepsWhere ok step) (init node maxFrames hwm lwm) evs s) {i call : Nat}
    {d : DataMessage} (hf : .data call d ∈ s.frames evs i) :
    ∃ c sk, .pushed c sk (some i) .accepted ∈ evs ∧ c.number = call ∧ c.data = d := by
  have hcarried : s.frames evs i = Rpc.accepted (evs.flatMap (ServerEvent.view i)) :=
    (Rpc.streamInv_of_trace (trace_rpc h i)).carried
  rw [hcarried, Rpc.accepted, List.mem_filterMap] at hf
  obtain ⟨shown, hshown, haccepted⟩ := hf
  obtain ⟨e, he, hview⟩ := List.mem_flatMap.mp hshown
  cases e with
  | pushed c sk target status =>
      rw [ServerEvent.view] at hview
      split at hview
      · rename_i htarget
        obtain rfl := List.mem_singleton.mp hview
        cases status with
        | accepted =>
            obtain ⟨rfl, rfl⟩ := OutFrame.data.inj (Option.some.inj haccepted)
            exact ⟨c, sk, htarget ▸ he, rfl, rfl⟩
        | backpressured => cases haccepted
        | notConnected => cases haccepted
      · cases hview
  | reactor j e =>
      rw [ServerEvent.view] at hview
      split at hview
      · obtain rfl := List.mem_singleton.mp hview
        cases shown with
        | enqueued f status =>
            have hpresence := (presenceOnly_of_trace h).2 j f status he
            cases status with
            | accepted =>
                obtain rfl := Option.some.inj haccepted
                exact hpresence.elim
            | backpressured => cases haccepted
            | notConnected => cases haccepted
        | _ => cases haccepted
      · cases hview
  | registered j sk superseded =>
      rw [ServerEvent.view] at hview
      split at hview
      · obtain rfl := List.mem_singleton.mp hview
        cases haccepted
      · split at hview
        · obtain rfl := List.mem_singleton.mp hview
          cases haccepted
        · cases hview
  | _ => cases hview

/-- Below the wrap of the counter a topic and a tid determine the send. -/
theorem placed_unique {evs : List ServerEvent} {p : ReliablePublisher}
    (hinv : TidInv evs p) (hfew : ∀ key, (sents key evs).length < 2 ^ 64) {c c' : Call}
    (hc : Placed evs p c) (hc' : Placed evs p c') (hkey : c.data.key = c'.data.key)
    (htid : c.data.tid = c'.data.tid) : c.number = c'.number ∧ c.data = c'.data := by
  -- a committed tid is not the one of the send in progress
  have hapart : ∀ {c₀ : Call} {key : Bytes} {k : Nat}, p.call = some c₀ →
      c₀.data.key = key → k < (sents key evs).length → c₀.data.tid ≠ (k + 1) % 2 ^ 64 := by
    rintro c₀ key k hc₀ rfl hk heq
    have hlt := hfew c₀.data.key
    rw [(stamped_tid hinv hc₀).2] at heq
    omega
  rcases hc with ⟨c₁, hc₁, hnumber₁, hdata₁⟩ | ⟨k, c₁, hk, hnumber₁, hdata₁, htid₁⟩
  · rcases hc' with ⟨c₂, hc₂, hnumber₂, hdata₂⟩ | ⟨k', c₂, hk', hnumber₂, hdata₂, htid₂⟩
    · obtain rfl := Option.some.inj (hc₁.symm.trans hc₂)
      exact ⟨hnumber₁.symm.trans hnumber₂, hdata₁.symm.trans hdata₂⟩
    · have hlast := (List.getElem?_eq_some_iff.mp hk').1
      refine absurd ?_ (hapart hc₁ (by rw [hdata₁, hkey]) hlast)
      rw [hdata₁, htid, htid₂]
  · rcases hc' with ⟨c₂, hc₂, hnumber₂, hdata₂⟩ | ⟨k', c₂, hk', hnumber₂, hdata₂, htid₂⟩
    · have hlast := (List.getElem?_eq_some_iff.mp hk).1
      refine absurd ?_ (hapart hc₂ (by rw [hdata₂, hkey]) hlast)
      rw [hdata₂, ← htid, htid₁]
    · have hlt := hfew c.data.key
      have hlast := (List.getElem?_eq_some_iff.mp hk).1
      have hlast' := (List.getElem?_eq_some_iff.mp hk').1
      rw [← hkey] at hk' hlast'
      obtain rfl : k = k' := by omega
      obtain rfl := Option.some.inj (hk.symm.trans hk')
      exact ⟨hnumber₁.symm.trans hnumber₂, hdata₁.symm.trans hdata₂⟩

/-- The life of a sequence number, in every run of a node: the number of a topic
counts its sends that have returned `Sent`; a send returns `Sent` exactly when a
push of it was accepted, and otherwise `Backpressured` exactly when it was paced
or a push was refused; no stream holds a frame of a send that returned anything
but `Sent`; and two frames with one topic and tid belong to one send. -/
theorem tid_lifecycle {node : Node N} {maxFrames hwm lwm : Nat} {evs : List ServerEvent}
    {s : Server N} (hfew : ∀ key, (sents key evs).length < 2 ^ 64)
    (h : Trace (Steps step) (init node maxFrames hwm lwm) evs s) :
    (∀ key, (s.publisher.seq key).toNat = (sents key evs).length) ∧
    (∀ call result, (call, result) ∈ results evs →
      (result = .sent ↔ PushedWith .accepted call evs) ∧
      (result = .backpressured ↔ ¬ PushedWith .accepted call evs ∧
        (Paced call evs ∨ PushedWith .backpressured call evs))) ∧
    (∀ i call d result, .data call d ∈ s.frames evs i → (call, result) ∈ results evs →
      result = .sent) ∧
    ∀ i j call call' d d', .data call d ∈ s.frames evs i →
      .data call' d' ∈ s.frames evs j → d.key = d'.key → d.tid = d'.tid →
        call = call' ∧ d = d' := by
  have hinv := tidInv_of_trace h
  refine ⟨fun key => ?_, fun call result hr => hinv.right _ hr, ?_, ?_⟩
  · rw [hinv.seq, UInt64.toNat_ofNat', Nat.mod_eq_of_lt (hfew key)]
  · intro i call d result hf hr
    obtain ⟨c, sk, hpushed, rfl, -⟩ := pushed_of_mem_frames h hf
    exact (hinv.right _ hr).1.mpr ⟨c, sk, some i, hpushed, rfl⟩
  · intro i j call call' d d' hf hf' hkey htid
    obtain ⟨c, sk, hpushed, rfl, rfl⟩ := pushed_of_mem_frames h hf
    obtain ⟨c', sk', hpushed', rfl, rfl⟩ := pushed_of_mem_frames h hf'
    exact placed_unique hinv hfew (hinv.placed c sk _ hpushed) (hinv.placed c' sk' _ hpushed')
      hkey htid

/-- A subscriber announces itself and dials, and a first message is sent. -/
def firstSend : List ServerAction :=
  [.registry ⟨.announcement ⟨4, 5, 6⟩ [116] [84] false,
      show (4 : UInt64).toNat < 2 ^ 32 by decide⟩,
    .startGrpcServer true, .streamParticipants,
    .reactor 0 (.onReadDone (some ⟨4, 5, 6⟩)), .reactor 0 (.run 0 true []),
    .reactor 0 (.run 0 true []), .reactor 0 (.run 0 true []), .reactor 0 (.run 0 true []),
    .tryPublishReliable [116] [84] [1] 0, .resume, .resume]

def freshNode : Node 1 :=
  { selfParticipant := ⟨1, 2, 3⟩ }

theorem tid_lifecycle_first_send :
    ∃ evs s, exec step (init freshNode 4 3 1) firstSend = some (evs, s) ∧
      results evs = [(0, .sent)] ∧
      (∀ key, (s.publisher.seq key).toNat = (sents key evs).length) ∧
      (∀ call result, (call, result) ∈ results evs →
        (result = .sent ↔ PushedWith .accepted call evs) ∧
        (result = .backpressured ↔ ¬ PushedWith .accepted call evs ∧
          (Paced call evs ∨ PushedWith .backpressured call evs))) ∧
      (∀ i call d result, .data call d ∈ s.frames evs i → (call, result) ∈ results evs →
        result = .sent) ∧
      ∀ i j call call' d d', .data call d ∈ s.frames evs i →
        .data call' d' ∈ s.frames evs j → d.key = d'.key → d.tid = d'.tid →
          call = call' ∧ d = d' := by
  have hrun : (exec step (init freshNode 4 3 1) firstSend).map
      (fun p => (p.1.length, results p.1)) = some (11, [(0, .sent)]) := rfl
  obtain ⟨⟨evs, s⟩, h, hp⟩ := Option.map_eq_some_iff.mp hrun
  obtain ⟨hlength, hresults⟩ := Prod.mk.inj hp
  have hfew : ∀ key, (sents key evs).length < 2 ^ 64 := fun key =>
    (List.length_filterMap_le _ _).trans_lt (hlength ▸ by norm_num)
  exact ⟨evs, s, h, hresults, tid_lifecycle hfew (trace_of_exec (fun _ _ _ => trivial) h)⟩

end Server

end Edriel
