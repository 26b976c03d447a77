import Edriel.Reconcile
import Edriel.Lib.Entries

namespace Edriel

open Proto3 Std Entries

/-- The endpoint a connection is on is not among the candidates. -/
def ReliableSubscriberConnection.OffEndpoints (conn : ReliableSubscriberConnection)
    (candidates : List Bytes) : Prop :=
  conn.connected ≠ [] ∧ conn.connected ∉ candidates

namespace Node

variable {N : Nat} [NeZero N]

/-- The publisher under a key is to be dialed at these candidates: it publishes a locally
reliable topic and advertises them, or it is a static seed. -/
def Advertises (n : Node N) (k : SubscriberKey) (candidates : List Bytes) : Prop :=
  (∃ topicKey ∈ n.reliableSubscribedTopics, ∃ entry, n.topic? topicKey = some entry ∧
    ∃ pub ∈ entry.publishers, ∃ p, n.participant? pub.uid = some p ∧ p.endpoints ≠ [] ∧
      pub.subscriberKey = k ∧ endpointCandidates p.endpoints = candidates) ∨
  (n.reliableSubscribedTopics.isEmpty = false ∧
    ∃ peer ∈ n.config.peerEndpoints, peerKeyForEndpoint peer = k ∧ [peer] = candidates)

def Needed (n : Node N) (k : SubscriberKey) : Prop :=
  ∃ candidates, n.Advertises k candidates

theorem mem_topicTargets {n : Node N} {topicKey : Bytes} {t : Target} :
    t ∈ n.topicTargets topicKey ↔
      ∃ entry, n.topic? topicKey = some entry ∧
        ∃ pub ∈ entry.publishers, ∃ p, n.participant? pub.uid = some p ∧ p.endpoints ≠ [] ∧
          pub.subscriberKey = t.key ∧ endpointCandidates p.endpoints = t.candidates := by
  rw [topicTargets]
  split
  · rename_i hnone
    simp [hnone]
  · rename_i entry hentry
    simp only [hentry, Option.some.injEq, exists_eq_left', List.mem_filterMap,
      ExtTreeSet.mem_toList]
    refine exists_congr fun pub => and_congr_right fun _ => ?_
    constructor
    · intro h
      split at h
      · cases h
      · cases h
      · rename_i ep eps heps
        obtain ⟨p, hp, hendpoints⟩ := Option.map_eq_some_iff.mp heps
        obtain rfl := Option.some.inj h
        exact ⟨p, hp, by rw [hendpoints]; simp, rfl, by rw [hendpoints]⟩
    · rintro ⟨p, hp, hendpoints, hkey, hcandidates⟩
      obtain ⟨ep, eps, heps⟩ := List.exists_cons_of_ne_nil hendpoints
      rw [hp, Option.map_some, heps]
      rw [heps] at hcandidates
      obtain ⟨key, candidates⟩ := t
      obtain rfl : _ = key := hkey
      obtain rfl : _ = candidates := hcandidates
      rfl

theorem mem_neededTargets {n : Node N} {t : Target} :
    t ∈ n.neededTargets ↔ n.Advertises t.key t.candidates := by
  rw [neededTargets, List.mem_append, List.mem_flatMap]
  refine or_congr ?_ ?_
  · simp only [ExtTreeSet.mem_toList, mem_topicTargets]
  · rw [seedTargets]
    split
    · rename_i hempty
      simp [hempty]
    · rename_i hsome
      rw [List.mem_map]
      constructor
      · rintro ⟨peer, hpeer, rfl⟩
        exact ⟨Bool.not_eq_true _ ▸ hsome, peer, hpeer, rfl, rfl⟩
      · rintro ⟨-, peer, hpeer, hkey, hcandidates⟩
        obtain ⟨key, candidates⟩ := t
        obtain rfl : _ = key := hkey
        obtain rfl : _ = candidates := hcandidates
        exact ⟨peer, hpeer, rfl⟩

theorem needed_iff {n : Node N} {k : SubscriberKey} :
    n.Needed k ↔ ∃ t ∈ n.neededTargets, t.key = k := by
  constructor
  · rintro ⟨candidates, h⟩
    exact ⟨⟨k, candidates⟩, mem_neededTargets.mpr h, rfl⟩
  · rintro ⟨t, ht, rfl⟩
    exact ⟨t.candidates, mem_neededTargets.mp ht⟩

omit [NeZero N] in
theorem connectedStale_iff {conn : ReliableSubscriberConnection} {t : Target} :
    connectedStale conn t = true ↔ conn.OffEndpoints t.candidates := by
  simp [connectedStale, ReliableSubscriberConnection.OffEndpoints]

omit [NeZero N] in
theorem connectedStale_dial (n : Node N) (t t' : Target) :
    connectedStale (n.dial t) t' = false := by
  rfl

omit [NeZero N] in
/-- What dialing a target does to the entry of its own key. -/
def settle (n : Node N) (entry : Option ReliableSubscriberConnection) (t : Target) :
    Option ReliableSubscriberConnection :=
  match entry with
  | none => some (n.dial t)
  | some existing => if connectedStale existing t then some (n.dial t) else some existing

omit [NeZero N] in
theorem getElem?_dialTarget (n : Node N) (s : Reconciled) (t : Target) (k : SubscriberKey) :
    (n.dialTarget s t).connections[k]? =
      if t.key = k then n.settle s.connections[k]? t else s.connections[k]? := by
  by_cases hk : t.key = k
  · subst hk
    rw [if_pos rfl, dialTarget]
    cases hentry : s.connections[t.key]? with
    | none => exact ExtTreeMap.getElem?_insert_self
    | some existing =>
        simp only [settle]
        split
        · exact ExtTreeMap.getElem?_insert_self
        · exact hentry
  · have hother : ∀ c, (s.connections.insert t.key c)[k]? = s.connections[k]? := by
      intro c
      rw [ExtTreeMap.getElem?_insert, if_neg (LawfulEqOrd.compare_eq_iff_eq.not.mpr hk)]
    rw [if_neg hk, dialTarget]
    split
    · exact hother _
    · split
      · exact hother _
      · rfl

omit [NeZero N] in
theorem getElem?_foldl_dialTarget (n : Node N) (ts : List Target) (s : Reconciled)
    (k : SubscriberKey) :
    (ts.foldl n.dialTarget s).connections[k]? =
      (ts.filter fun t => t.key = k).foldl n.settle s.connections[k]? := by
  induction ts generalizing s with
  | nil => rfl
  | cons t ts ih =>
      rw [List.foldl_cons, ih, getElem?_dialTarget]
      by_cases hk : t.key = k
      · rw [if_pos hk, List.filter_cons_of_pos (by simpa using hk), List.foldl_cons]
      · rw [if_neg hk, List.filter_cons_of_neg (by simpa using hk)]

omit [NeZero N] in
theorem foldl_settle_of_kept (n : Node N) {ts : List Target}
    {conn : ReliableSubscriberConnection} (h : ∀ t ∈ ts, connectedStale conn t = false) :
    ts.foldl n.settle (some conn) = some conn := by
  induction ts with
  | nil => rfl
  | cons t ts ih =>
      have hkept : n.settle (some conn) t = some conn := by
        simp [settle, h t List.mem_cons_self]
      rw [List.foldl_cons, hkept]
      exact ih fun t ht => h t (List.mem_cons_of_mem _ ht)

omit [NeZero N] in
theorem foldl_settle_of_stale (n : Node N) {ts : List Target}
    {conn : ReliableSubscriberConnection} (h : ∃ t ∈ ts, connectedStale conn t = true) :
    ∃ t ∈ ts, ts.foldl n.settle (some conn) = some (n.dial t) := by
  induction ts with
  | nil => simp at h
  | cons t ts ih =>
      by_cases ht : connectedStale conn t = true
      · have hdial : n.settle (some conn) t = some (n.dial t) := by
          simp [settle, ht]
        refine ⟨t, List.mem_cons_self, ?_⟩
        rw [List.foldl_cons, hdial]
        exact foldl_settle_of_kept n fun t' _ => connectedStale_dial n t t'
      · have hkept : n.settle (some conn) t = some conn := by
          simp [settle, ht]
        have hrest : ∃ t ∈ ts, connectedStale conn t = true := by
          simpa [ht] using h
        obtain ⟨t', ht', hfold⟩ := ih hrest
        refine ⟨t', List.mem_cons_of_mem _ ht', ?_⟩
        rw [List.foldl_cons, hkept, hfold]

omit [NeZero N] in
theorem foldl_settle_none (n : Node N) {ts : List Target} (h : ts ≠ []) :
    ∃ t ∈ ts, ts.foldl n.settle none = some (n.dial t) := by
  obtain ⟨t, ts, rfl⟩ := List.exists_cons_of_ne_nil h
  refine ⟨t, List.mem_cons_self, ?_⟩
  exact foldl_settle_of_kept n fun t' _ => connectedStale_dial n t t'

/-- A reconciliation under `reliableConnMutex_`, with the targets that it has read before. -/
def reconcileLocked (n : Node N) (needed : List Target) (conns : Connections) : Reconciled :=
  needed.foldl n.dialTarget
    { connections := conns.filter fun key _ => needed.any (·.key == key)
      retired := conns.toList.filterMap fun entry =>
        if needed.any (·.key == entry.1) then none else some entry.2 }

theorem reconcileReliableConnections_eq (n : Node N) (conns : Connections) :
    n.reconcileReliableConnections conns = n.reconcileLocked n.neededTargets conns := by
  rfl

omit [NeZero N] in
theorem any_key_iff {needed : List Target} {k : SubscriberKey} :
    needed.any (·.key == k) = true ↔ ∃ t ∈ needed, t.key = k := by
  rw [List.any_eq_true]
  simp only [beq_iff_eq]

omit [NeZero N] in
theorem getElem?_reconcileLocked (n : Node N) (needed : List Target) (conns : Connections)
    (k : SubscriberKey) :
    (n.reconcileLocked needed conns).connections[k]? =
      (needed.filter fun t => t.key = k).foldl n.settle
        (conns[k]?.filter fun _ => needed.any (·.key == k)) := by
  rw [reconcileLocked, getElem?_foldl_dialTarget, ExtTreeMap.getElem?_filter']

omit [NeZero N] in
theorem getElem?_reconcileLocked_of_not_needed (n : Node N) {needed : List Target}
    (conns : Connections) {k : SubscriberKey} (h : ¬ ∃ t ∈ needed, t.key = k) :
    (n.reconcileLocked needed conns).connections[k]? = none := by
  have hnone : (needed.filter fun t => t.key = k) = [] := by
    apply List.filter_eq_nil_iff.mpr
    intro t ht hkey
    exact h ⟨t, ht, of_decide_eq_true hkey⟩
  have hany : needed.any (·.key == k) = false := by
    rw [← Bool.not_eq_true, any_key_iff]
    exact h
  rw [getElem?_reconcileLocked, hnone, hany, List.foldl_nil]
  cases conns[k]? with
  | none => rfl
  | some conn => rfl

omit [NeZero N] in
theorem getElem?_reconcileLocked_of_none (n : Node N) {needed : List Target}
    {conns : Connections} {k : SubscriberKey} (hneeded : ∃ t ∈ needed, t.key = k)
    (hnone : conns[k]? = none) :
    ∃ t ∈ needed, t.key = k ∧
      (n.reconcileLocked needed conns).connections[k]? = some (n.dial t) := by
  obtain ⟨t, ht, hkey⟩ := hneeded
  have hne : (needed.filter fun t => t.key = k) ≠ [] := by
    apply List.ne_nil_of_mem
    exact List.mem_filter.mpr ⟨ht, decide_eq_true hkey⟩
  obtain ⟨t', ht', hfold⟩ := n.foldl_settle_none hne
  obtain ⟨ht', hkey'⟩ := List.mem_filter.mp ht'
  refine ⟨t', ht', of_decide_eq_true hkey', ?_⟩
  rw [getElem?_reconcileLocked, hnone, Option.filter_none, hfold]

omit [NeZero N] in
theorem getElem?_reconcileLocked_of_kept (n : Node N) {needed : List Target}
    {conns : Connections} {k : SubscriberKey} {conn : ReliableSubscriberConnection}
    (hneeded : ∃ t ∈ needed, t.key = k) (hentry : conns[k]? = some conn)
    (hon : ∀ t ∈ needed, t.key = k → connectedStale conn t = false) :
    (n.reconcileLocked needed conns).connections[k]? = some conn := by
  rw [getElem?_reconcileLocked, hentry, any_key_iff.mpr hneeded, Option.filter_some,
    if_pos rfl]
  apply foldl_settle_of_kept
  intro t ht
  obtain ⟨hmem, hkey⟩ := List.mem_filter.mp ht
  exact hon t hmem (of_decide_eq_true hkey)

omit [NeZero N] in
theorem getElem?_reconcileLocked_of_stale (n : Node N) {needed : List Target}
    {conns : Connections} {k : SubscriberKey} {conn : ReliableSubscriberConnection}
    (hentry : conns[k]? = some conn)
    (hoff : ∃ t ∈ needed, t.key = k ∧ connectedStale conn t = true) :
    ∃ t ∈ needed, t.key = k ∧
      (n.reconcileLocked needed conns).connections[k]? = some (n.dial t) := by
  obtain ⟨t, ht, hkey, hstale⟩ := hoff
  rw [getElem?_reconcileLocked, hentry, any_key_iff.mpr ⟨t, ht, hkey⟩, Option.filter_some,
    if_pos rfl]
  have hmem : t ∈ needed.filter fun t => t.key = k := by
    exact List.mem_filter.mpr ⟨ht, decide_eq_true hkey⟩
  obtain ⟨t', ht', hfold⟩ := n.foldl_settle_of_stale ⟨t, hmem, hstale⟩
  obtain ⟨ht', hkey'⟩ := List.mem_filter.mp ht'
  exact ⟨t', ht', of_decide_eq_true hkey', hfold⟩

omit [NeZero N] in
theorem mem_reconcileLocked_iff (n : Node N) {needed : List Target} {conns : Connections}
    {k : SubscriberKey} :
    k ∈ (n.reconcileLocked needed conns).connections ↔ ∃ t ∈ needed, t.key = k := by
  rw [ExtTreeMap.mem_iff_isSome_getElem?]
  constructor
  · intro h
    by_contra hnot
    rw [n.getElem?_reconcileLocked_of_not_needed conns hnot] at h
    cases h
  · intro hneeded
    cases hentry : conns[k]? with
    | none =>
        obtain ⟨t, -, -, hdial⟩ := n.getElem?_reconcileLocked_of_none hneeded hentry
        rw [hdial, Option.isSome_some]
    | some conn =>
        by_cases hoff : ∃ t ∈ needed, t.key = k ∧ connectedStale conn t = true
        · obtain ⟨t, -, -, hdial⟩ := n.getElem?_reconcileLocked_of_stale hentry hoff
          rw [hdial, Option.isSome_some]
        · rw [n.getElem?_reconcileLocked_of_kept hneeded hentry (by simpa using hoff)]
          rfl

omit [NeZero N] in
/-- A connection that a reconciliation leaves was there and is not stale, or it has been
dialed. -/
theorem kept_or_dialed (n : Node N) {needed : List Target} {conns : Connections}
    {k : SubscriberKey} {conn : ReliableSubscriberConnection}
    (hconn : (n.reconcileLocked needed conns).connections[k]? = some conn) :
    (conns[k]? = some conn ∧ (∃ t ∈ needed, t.key = k) ∧
      ∀ t ∈ needed, t.key = k → connectedStale conn t = false) ∨
    ∃ t ∈ needed, t.key = k ∧ conn = n.dial t := by
  have hmem : k ∈ (n.reconcileLocked needed conns).connections := by
    rw [ExtTreeMap.mem_iff_isSome_getElem?, hconn, Option.isSome_some]
  have hneeded := n.mem_reconcileLocked_iff.mp hmem
  have hdialed : (∃ t ∈ needed, t.key = k ∧
      (n.reconcileLocked needed conns).connections[k]? = some (n.dial t)) →
        ∃ t ∈ needed, t.key = k ∧ conn = n.dial t := by
    rintro ⟨t, ht, hkey, hdial⟩
    rw [hconn] at hdial
    exact ⟨t, ht, hkey, Option.some.inj hdial⟩
  cases hentry : conns[k]? with
  | none => exact .inr (hdialed (n.getElem?_reconcileLocked_of_none hneeded hentry))
  | some old =>
      by_cases hoff : ∃ t ∈ needed, t.key = k ∧ connectedStale old t = true
      · exact .inr (hdialed (n.getElem?_reconcileLocked_of_stale hentry hoff))
      · have hon : ∀ t ∈ needed, t.key = k → connectedStale old t = false := by
          simpa using hoff
        rw [n.getElem?_reconcileLocked_of_kept hneeded hentry hon] at hconn
        obtain rfl := Option.some.inj hconn
        exact .inl ⟨rfl, hneeded, hon⟩

/-- What dialing a target keeps of the account of one reconciliation: what it retires is
what the map has lost, and a connection that was not there before is on no endpoint. -/
structure Accounted (conns : Connections) (s : Reconciled) : Prop where
  retired : s.retired.Perm (dropped conns s.connections)
  entry : ∀ (k : SubscriberKey) (conn : ReliableSubscriberConnection),
    s.connections[k]? = some conn → conns[k]? = some conn ∨ conn.connected = []

omit [NeZero N] in
theorem accounted_dialTarget {conns : Connections} {s : Reconciled} (n : Node N) {t : Target}
    (h : Accounted conns s) (hnone : s.connections[t.key]? = none → conns[t.key]? = none) :
    Accounted conns (n.dialTarget s t) := by
  have hentry : ∀ (k : SubscriberKey) (conn : ReliableSubscriberConnection),
      (s.connections.insert t.key (n.dial t))[k]? = some conn →
        conns[k]? = some conn ∨ conn.connected = [] := by
    intro k conn hconn
    rw [ExtTreeMap.getElem?_insert] at hconn
    split at hconn
    · obtain rfl := Option.some.inj hconn
      exact .inr rfl
    · exact h.entry k conn hconn
  rw [dialTarget]
  split
  · rename_i habsent
    refine ⟨?_, hentry⟩
    rw [dropped_insert_of_none _ (hnone habsent)]
    exact h.retired
  · rename_i existing hexisting
    split
    · rename_i hstale
      obtain ⟨hconnected, -⟩ := connectedStale_iff.mp hstale
      have hold := (h.entry _ _ hexisting).resolve_right hconnected
      have hne : existing ≠ n.dial t := by
        rintro rfl
        exact hconnected rfl
      refine ⟨?_, hentry⟩
      exact (h.retired.append_right _).trans (dropped_insert_of_ne hold hexisting hne).symm
    · exact h

omit [NeZero N] in
theorem accounted_foldl {conns : Connections} (n : Node N) (ts : List Target) {s : Reconciled}
    (h : Accounted conns s)
    (hnone : ∀ t ∈ ts, s.connections[t.key]? = none → conns[t.key]? = none) :
    Accounted conns (ts.foldl n.dialTarget s) := by
  induction ts generalizing s with
  | nil => exact h
  | cons t ts ih =>
      apply ih (accounted_dialTarget n h (hnone t List.mem_cons_self))
      intro t' ht'
      rw [getElem?_dialTarget]
      split
      · cases hentry : s.connections[t'.key]? with
        | none => simp [settle]
        | some existing =>
            simp only [settle]
            split <;> simp
      · exact hnone t' (List.mem_cons_of_mem _ ht')

omit [NeZero N] in
theorem accounted_reconcileLocked (n : Node N) (needed : List Target) (conns : Connections) :
    Accounted conns (n.reconcileLocked needed conns) := by
  apply accounted_foldl
  · refine ⟨?_, ?_⟩
    · exact .of_eq (dropped_filter conns fun k _ => needed.any (·.key == k)).symm
    · intro k conn hconn
      rw [ExtTreeMap.getElem?_filter', Option.filter_eq_some_iff] at hconn
      exact .inl hconn.1
  · intro t ht habsent
    rw [ExtTreeMap.getElem?_filter', any_key_iff.mpr ⟨t, ht, rfl⟩] at habsent
    cases hentry : conns[t.key]? with
    | none => rfl
    | some conn => simp [hentry] at habsent

theorem mem_reconcile_iff {n : Node N} {conns : Connections} {k : SubscriberKey} :
    k ∈ (n.reconcileReliableConnections conns).connections ↔ n.Needed k := by
  rw [reconcileReliableConnections_eq, mem_reconcileLocked_iff, needed_iff]

theorem not_connectedStale_iff {n : Node N} {k : SubscriberKey}
    {conn : ReliableSubscriberConnection} :
    (∀ t ∈ n.neededTargets, t.key = k → connectedStale conn t = false) ↔
      ∀ candidates, n.Advertises k candidates → ¬ conn.OffEndpoints candidates := by
  constructor
  · intro h candidates hadvertised hoff
    have hstale := h ⟨k, candidates⟩ (mem_neededTargets.mpr hadvertised) rfl
    rw [connectedStale_iff.mpr hoff] at hstale
    cases hstale
  · rintro h t ht rfl
    rw [← Bool.not_eq_true, connectedStale_iff]
    exact h _ (mem_neededTargets.mp ht)

/-- A connection stays under its key while it is needed and on no endpoint that has been
given up. -/
theorem getElem?_reconcile_eq_iff {n : Node N} {conns : Connections} {k : SubscriberKey}
    {conn : ReliableSubscriberConnection} (hentry : conns[k]? = some conn) :
    (n.reconcileReliableConnections conns).connections[k]? = some conn ↔
      n.Needed k ∧
        ∀ candidates, n.Advertises k candidates → ¬ conn.OffEndpoints candidates := by
  rw [reconcileReliableConnections_eq, needed_iff, ← not_connectedStale_iff]
  constructor
  · intro hkept
    rcases n.kept_or_dialed hkept with ⟨-, hneeded, hon⟩ | ⟨t, ht, rfl, rfl⟩
    · exact ⟨hneeded, hon⟩
    · exact ⟨⟨t, ht, rfl⟩, fun t' _ _ => connectedStale_dial n t t'⟩
  · rintro ⟨hneeded, hon⟩
    exact n.getElem?_reconcileLocked_of_kept hneeded hentry hon

/-- The connections are those of the needed publishers, each one that is gone has been
joined once, and each one that is left is on an advertised endpoint or looks for one in
the advertised list. -/
structure Converged (n : Node N) (conns : Connections) (s : Reconciled) : Prop where
  keys : ∀ k, k ∈ s.connections ↔ n.Needed k
  joined : s.retired.Perm (dropped conns s.connections)
  current : ∀ (k : SubscriberKey) (conn : ReliableSubscriberConnection),
    s.connections[k]? = some conn → ∃ candidates, n.Advertises k candidates ∧
      (conn.connected ≠ [] ∧ conn.connected ∈ candidates ∨ conn.candidates = candidates)

theorem Converged.advertises {n : Node N} {conns : Connections}
    (h : n.Converged conns (n.reconcileReliableConnections conns)) {k : SubscriberKey}
    {conn : ReliableSubscriberConnection} (hentry : conns[k]? = some conn)
    (hbetween : conn.connected = []) (hneeded : n.Needed k) :
    n.Advertises k conn.candidates := by
  have hkept := (getElem?_reconcile_eq_iff (n := n) hentry).mpr
    ⟨hneeded, fun _ _ hoff => hoff.1 hbetween⟩
  obtain ⟨candidates, hadvertised, ⟨hconnected, -⟩ | hcandidates⟩ := h.current k conn hkept
  · exact absurd hbetween hconnected
  · rw [hcandidates]
    exact hadvertised

theorem converged_iff (n : Node N) (conns : Connections) :
    n.Converged conns (n.reconcileReliableConnections conns) ↔
      ∀ (k : SubscriberKey) (conn : ReliableSubscriberConnection), conns[k]? = some conn →
        conn.connected = [] → n.Needed k → n.Advertises k conn.candidates := by
  constructor
  · intro h k conn hentry hbetween hneeded
    exact h.advertises hentry hbetween hneeded
  · intro h
    refine ⟨fun k => mem_reconcile_iff, (n.accounted_reconcileLocked _ conns).retired, ?_⟩
    intro k conn hconn
    rcases n.kept_or_dialed hconn with ⟨hentry, hneeded, hon⟩ | ⟨t, ht, rfl, rfl⟩
    · rw [← needed_iff] at hneeded
      rw [not_connectedStale_iff] at hon
      by_cases hbetween : conn.connected = []
      · exact ⟨_, h k conn hentry hbetween hneeded, .inr rfl⟩
      · obtain ⟨candidates, hadvertised⟩ := hneeded
        refine ⟨candidates, hadvertised, .inl ⟨hbetween, ?_⟩⟩
        by_contra hnot
        exact hon candidates hadvertised ⟨hbetween, hnot⟩
    · exact ⟨t.candidates, mem_neededTargets.mp ht, .inr rfl⟩

def serverNode (port : UInt32) : Node 1 :=
  { selfParticipant := ⟨1, 2, 3⟩
    shards := fun _ =>
      { participants := ExtTreeMap.empty.insert 7 ⟨⟨7, 7, 7⟩, 0, [⟨[104], port, grpcTcp⟩], 10⟩
        topics := ExtTreeMap.empty.insert (makeCompositeKey [116] [84])
          { reliable := true, publishers := ExtTreeSet.empty.insert ⟨7, 7, 7⟩ } }
    reliableSubscribedTopics := ExtTreeSet.empty.insert (makeCompositeKey [116] [84]) }

theorem serverNode_neededTargets (port : UInt32) :
    (serverNode port).neededTargets =
      [⟨⟨7, 7, 7⟩, endpointCandidates [⟨[104], port, grpcTcp⟩]⟩] := by
  rfl

theorem serverNode_advertises {port : UInt32} {candidates : List Bytes} :
    (serverNode port).Advertises ⟨7, 7, 7⟩ candidates ↔
      candidates = endpointCandidates [⟨[104], port, grpcTcp⟩] := by
  have hmem := mem_neededTargets (n := serverNode port) (t := ⟨⟨7, 7, 7⟩, candidates⟩)
  rw [← hmem, serverNode_neededTargets, List.mem_singleton, Target.mk.injEq]
  exact and_iff_right rfl

def earlyConnection (connected : Bytes) : ReliableSubscriberConnection :=
  { publisher := ⟨7, 7, 7⟩, candidates := [[104, 58, 49]], selfPid := 1, selfTid := 2,
    selfUid := 3, connected }

def earlyConnections (connected : Bytes) : Connections :=
  ExtTreeMap.empty.insert ⟨7, 7, 7⟩ (earlyConnection connected)

theorem getElem?_earlyConnections {connected : Bytes} {k : SubscriberKey}
    {conn : ReliableSubscriberConnection} (h : (earlyConnections connected)[k]? = some conn) :
    k = ⟨7, 7, 7⟩ ∧ conn = earlyConnection connected := by
  rw [earlyConnections, ExtTreeMap.getElem?_insert] at h
  split at h
  · rename_i hkey
    exact ⟨(LawfulEqOrd.compare_eq_iff_eq.mp hkey).symm, (Option.some.inj h).symm⟩
  · simp at h

/-- A connection that is between two scans of its list survives the move to `h:2`. -/
theorem earlyConnection_outdated :
    (∀ (k : SubscriberKey) (conn : ReliableSubscriberConnection),
      (earlyConnections [])[k]? = some conn →
        conn.connected ∈ conn.candidates ∨ conn.connected = []) ∧
      ¬ (serverNode 2).Converged (earlyConnections [])
        ((serverNode 2).reconcileReliableConnections (earlyConnections [])) := by
  refine ⟨?_, ?_⟩
  · intro k conn h
    obtain ⟨-, rfl⟩ := getElem?_earlyConnections h
    exact .inr rfl
  · intro h
    have hadvertised := h.advertises (k := ⟨7, 7, 7⟩) ExtTreeMap.getElem?_insert_self rfl
      ⟨_, serverNode_advertises.mpr rfl⟩
    exact absurd (serverNode_advertises.mp hadvertised) (by decide)

/-- One that is on `h:1` is dialed anew. -/
theorem converged_iff_moved :
    (serverNode 2).Converged (earlyConnections [104, 58, 49])
      ((serverNode 2).reconcileReliableConnections (earlyConnections [104, 58, 49])) := by
  apply (converged_iff (serverNode 2) (earlyConnections [104, 58, 49])).mpr
  intro k conn h hbetween
  obtain ⟨-, rfl⟩ := getElem?_earlyConnections h
  exact absurd hbetween (by decide)

omit [NeZero N] in
def Keyed (conns : Connections) : Prop :=
  ∀ (k : SubscriberKey) (conn : ReliableSubscriberConnection),
    conns[k]? = some conn → conn.publisher = k

omit [NeZero N] in
theorem keyed_reconcileLocked (n : Node N) (needed : List Target) {conns : Connections}
    (h : Keyed conns) : Keyed (n.reconcileLocked needed conns).connections := by
  intro k conn hconn
  rcases n.kept_or_dialed hconn with ⟨hentry, -, -⟩ | ⟨t, -, rfl, rfl⟩
  · exact h k conn hentry
  · rfl

/-- Whether a reconciliation joins the thread that makes it.  `held` is the key under
which the map has the connection of that thread, if nobody has taken it out. -/
def JoinsCaller (n : Node N) (conns : Connections) (held : Option SubscriberKey) : Prop :=
  ∃ k conn, held = some k ∧ conns[k]? = some conn ∧
    conn ∈ (n.reconcileReliableConnections conns).retired

theorem mem_retired_iff {n : Node N} {conns : Connections} (hkeyed : Keyed conns)
    {k : SubscriberKey} {conn : ReliableSubscriberConnection}
    (hentry : conns[k]? = some conn) :
    conn ∈ (n.reconcileReliableConnections conns).retired ↔
      (n.reconcileReliableConnections conns).connections[k]? ≠ some conn := by
  rw [reconcileReliableConnections_eq, (n.accounted_reconcileLocked _ conns).retired.mem_iff,
    mem_dropped]
  constructor
  · rintro ⟨k', hentry', hgone⟩
    rw [← hkeyed k' conn hentry', hkeyed k conn hentry] at hgone
    exact hgone
  · intro hgone
    exact ⟨k, hentry, hgone⟩

theorem not_joinsCaller_iff (n : Node N) {conns : Connections} (hkeyed : Keyed conns)
    (held : Option SubscriberKey) :
    ¬ n.JoinsCaller conns held ↔
      ∀ (k : SubscriberKey) (conn : ReliableSubscriberConnection), held = some k →
        conns[k]? = some conn → n.Needed k ∧
          ∀ candidates, n.Advertises k candidates → ¬ conn.OffEndpoints candidates := by
  constructor
  · intro h k conn hheld hentry
    rw [← getElem?_reconcile_eq_iff hentry]
    by_contra hgone
    exact h ⟨k, conn, hheld, hentry, (mem_retired_iff hkeyed hentry).mpr hgone⟩
  · rintro h ⟨k, conn, hheld, hentry, hretired⟩
    apply (mem_retired_iff hkeyed hentry).mp hretired
    exact (getElem?_reconcile_eq_iff hentry).mpr (h k conn hheld hentry)

theorem keyed_earlyConnections (connected : Bytes) : Keyed (earlyConnections connected) := by
  intro k conn h
  obtain ⟨rfl, rfl⟩ := getElem?_earlyConnections h
  rfl

/-- The thread of a connection on `h:1` runs a callback and reconciles after the move to
`h:2`. -/
theorem moved_joinsCaller :
    Keyed (earlyConnections [104, 58, 49]) ∧
      (serverNode 2).JoinsCaller (earlyConnections [104, 58, 49]) (some ⟨7, 7, 7⟩) := by
  have hkeyed := keyed_earlyConnections [104, 58, 49]
  refine ⟨hkeyed, ⟨7, 7, 7⟩, earlyConnection [104, 58, 49], rfl,
    ExtTreeMap.getElem?_insert_self, ?_⟩
  rw [mem_retired_iff hkeyed ExtTreeMap.getElem?_insert_self]
  intro hkept
  have hon := (getElem?_reconcile_eq_iff ExtTreeMap.getElem?_insert_self).mp hkept
  exact hon.2 _ (serverNode_advertises.mpr rfl) ⟨by decide, by decide⟩

/-- Before the move it may. -/
theorem not_joinsCaller_iff_unmoved :
    ¬ (serverNode 1).JoinsCaller (earlyConnections [104, 58, 49]) (some ⟨7, 7, 7⟩) := by
  apply (not_joinsCaller_iff (serverNode 1) (keyed_earlyConnections _) (some ⟨7, 7, 7⟩)).mpr
  intro k conn hheld h
  obtain ⟨rfl, rfl⟩ := getElem?_earlyConnections h
  refine ⟨⟨_, serverNode_advertises.mpr rfl⟩, ?_⟩
  intro candidates hadvertised hoff
  obtain rfl := serverNode_advertises.mp hadvertised
  exact hoff.2 (by decide)

end Node

end Edriel
