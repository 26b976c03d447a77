import Edriel.Convergence

/-!
The connections of a subscriber from its first dial to its teardown, one section under
`reliableConnMutex_` after the other.
-/

namespace Edriel

open Proto3 Std Entries

/-- A connection as it was when it was dialed. -/
def ReliableSubscriberConnection.asDialed (conn : ReliableSubscriberConnection) :
    ReliableSubscriberConnection :=
  { conn with connected := [] }

/-- The sections: a reconciliation with the targets that it has read before, and the stop.
In between, the reader threads move from one candidate to another. -/
inductive ConnEvent where
  | reconcileReliableConnections (needed : List Target)
  | stopReliableSubscriptions
  | connected (endpoint : SubscriberKey → Bytes)

/-- The connections with those that were dialed and those that were, or will be before the
call returns that took them out, stopped and joined. -/
structure Dialer where
  connections : Connections := ∅
  created : List ReliableSubscriberConnection := []
  stopped : List ReliableSubscriberConnection := []

namespace Dialer

variable {N : Nat}

def handle (n : Node N) (s : Dialer) : ConnEvent → Dialer
  | .reconcileReliableConnections needed =>
      { connections := (n.reconcileLocked needed s.connections).connections
        created := s.created ++ (n.reconcileLocked needed s.connections).created
        stopped := s.stopped ++ (n.reconcileLocked needed s.connections).retired }
  | .stopReliableSubscriptions =>
      { s with connections := ∅, stopped := s.stopped ++ values s.connections }
  | .connected endpoint =>
      { s with
        connections := s.connections.map fun k conn => { conn with connected := endpoint k } }

def run (n : Node N) (events : List ConnEvent) : Dialer :=
  events.foldl (handle n) {}

/-- No connection is left, and each one that was dialed has been stopped. -/
def TornDown (s : Dialer) : Prop :=
  s.connections = ∅ ∧
    (s.created.map ReliableSubscriberConnection.asDialed).Perm
      (s.stopped.map ReliableSubscriberConnection.asDialed)

def lastNeeded (events : List ConnEvent) : List Target :=
  events.foldl (fun last event =>
    match event with
    | .reconcileReliableConnections needed => needed
    | _ => last) []

theorem balanced_dialTarget (n : Node N) (before : List ReliableSubscriberConnection)
    {s : Reconciled} (t : Target)
    (h : (before ++ s.created).Perm (s.retired ++ values s.connections)) :
    (before ++ (n.dialTarget s t).created).Perm
      ((n.dialTarget s t).retired ++ values (n.dialTarget s t).connections) := by
  have hcreated : (before ++ (s.created ++ [n.dial t])).Perm
      (s.retired ++ n.dial t :: values s.connections) := by
    rw [← List.append_assoc]
    exact (h.append_right _).trans
      ((List.perm_append_singleton _ _).trans List.perm_middle.symm)
  rw [Node.dialTarget]
  split
  · rename_i hnone
    exact hcreated.trans ((values_insert_of_none _ hnone).symm.append_left _)
  · rename_i existing hexisting
    split
    · have hswap := (values_insert_of_some (n.dial t) hexisting).symm.append_left s.retired
      rw [List.append_assoc]
      exact hcreated.trans hswap
    · exact h

theorem balanced_reconcileLocked (n : Node N) (needed : List Target) (conns : Connections) :
    (values conns ++ (n.reconcileLocked needed conns).created).Perm
      ((n.reconcileLocked needed conns).retired ++
        values (n.reconcileLocked needed conns).connections) := by
  have hfold : ∀ (ts : List Target) (s : Reconciled),
      (values conns ++ s.created).Perm (s.retired ++ values s.connections) →
        (values conns ++ (ts.foldl n.dialTarget s).created).Perm
          ((ts.foldl n.dialTarget s).retired ++
            values (ts.foldl n.dialTarget s).connections) := by
    intro ts
    induction ts with
    | nil => exact fun s h => h
    | cons t ts ih => exact fun s h => ih _ (balanced_dialTarget n _ t h)
  apply hfold
  rw [List.append_nil]
  exact (values_filter_perm conns fun k _ => needed.any (·.key == k)).symm

/-- A connection that was dialed is in the map or has been stopped. -/
def Balanced (s : Dialer) : Prop :=
  (s.created.map ReliableSubscriberConnection.asDialed).Perm
    ((s.stopped ++ values s.connections).map ReliableSubscriberConnection.asDialed)

theorem balanced_handle (n : Node N) {s : Dialer} (h : s.Balanced) (event : ConnEvent) :
    (handle n s event).Balanced := by
  cases event with
  | reconcileReliableConnections needed =>
      have hsection := (balanced_reconcileLocked n needed s.connections).map
        ReliableSubscriberConnection.asDialed
      have hcreated := h.append_right ((n.reconcileLocked needed s.connections).created.map
        ReliableSubscriberConnection.asDialed)
      rw [Balanced] at h ⊢
      simp only [handle, List.map_append, List.append_assoc] at hsection hcreated ⊢
      exact hcreated.trans (hsection.append_left _)
  | stopReliableSubscriptions =>
      rw [Balanced, handle, values_empty, List.append_nil]
      exact h
  | connected endpoint =>
      have hmoved : (values (handle n s (.connected endpoint)).connections).map
          ReliableSubscriberConnection.asDialed =
            (values s.connections).map ReliableSubscriberConnection.asDialed := by
        rw [handle, values, values, ExtTreeMap.toList_map, List.map_map, List.map_map,
          List.map_map]
        rfl
      rw [Balanced, List.map_append, hmoved, ← List.map_append]
      exact h

theorem balanced_run (n : Node N) (events : List ConnEvent) : (run n events).Balanced := by
  induction events using List.reverseRecOn with
  | nil => exact .refl _
  | append_singleton events event ih =>
      rw [run, List.foldl_append, List.foldl_cons, List.foldl_nil]
      exact balanced_handle n ih event

/-- In every run each connection stands under the key of its publisher. -/
theorem keyed_run (n : Node N) (events : List ConnEvent) :
    Node.Keyed (run n events).connections := by
  induction events using List.reverseRecOn with
  | nil =>
      intro k conn hconn
      rw [run, List.foldl_nil, ExtTreeMap.getElem?_empty] at hconn
      cases hconn
  | append_singleton events event ih =>
      rw [run, List.foldl_append, List.foldl_cons, List.foldl_nil]
      cases event with
      | reconcileReliableConnections needed => exact n.keyed_reconcileLocked needed ih
      | stopReliableSubscriptions =>
          intro k conn hconn
          rw [handle, ExtTreeMap.getElem?_empty] at hconn
          cases hconn
      | connected endpoint =>
          intro k conn hconn
          rw [handle, ExtTreeMap.getElem?_map] at hconn
          obtain ⟨conn', hconn', rfl⟩ := Option.map_eq_some_iff.mp hconn
          exact ih k conn' hconn'

theorem tornDown_iff_empty (n : Node N) (events : List ConnEvent) :
    (run n events).TornDown ↔ (run n events).connections = ∅ := by
  constructor
  · intro h
    exact h.1
  · intro hempty
    have hbalanced := balanced_run n events
    rw [Balanced, hempty, values_empty, List.append_nil] at hbalanced
    exact ⟨hempty, hbalanced⟩

theorem reconcileLocked_empty_iff (n : Node N) {needed : List Target} {conns : Connections} :
    (n.reconcileLocked needed conns).connections = ∅ ↔ needed = [] := by
  rw [ExtTreeMap.eq_empty_iff_forall_not_mem]
  simp only [Node.mem_reconcileLocked_iff]
  constructor
  · intro h
    apply List.eq_nil_iff_forall_not_mem.mpr
    intro t ht
    exact h t.key ⟨t, ht, rfl⟩
  · rintro rfl k ⟨t, ht, -⟩
    cases ht

/-- After the stop, the map follows the last reconciliation. -/
theorem connections_empty_iff (n : Node N) {after : List ConnEvent}
    (hafter : .stopReliableSubscriptions ∉ after) (s : Dialer) (hs : s.connections = ∅) :
    (after.foldl (handle n) s).connections = ∅ ↔ lastNeeded after = [] := by
  induction after using List.reverseRecOn with
  | nil => exact iff_of_true hs rfl
  | append_singleton after event ih =>
      rw [List.mem_append, List.mem_singleton, not_or] at hafter
      rw [lastNeeded, List.foldl_append, List.foldl_append, List.foldl_cons, List.foldl_cons,
        List.foldl_nil, List.foldl_nil]
      cases event with
      | reconcileReliableConnections needed => exact reconcileLocked_empty_iff n
      | stopReliableSubscriptions => exact absurd rfl hafter.2
      | connected endpoint =>
          rw [← lastNeeded, ← ih hafter.1, handle,
            ExtTreeMap.eq_empty_iff_forall_not_mem, ExtTreeMap.eq_empty_iff_forall_not_mem]
          simp only [ExtTreeMap.mem_map]

theorem tornDown_iff (n : Node N) (before : List ConnEvent) {after : List ConnEvent}
    (hafter : .stopReliableSubscriptions ∉ after) :
    (run n (before ++ .stopReliableSubscriptions :: after)).TornDown ↔
      lastNeeded after = [] := by
  rw [tornDown_iff_empty, run, List.foldl_append, List.foldl_cons]
  exact connections_empty_iff n hafter _ rfl

/-- The cleaner has read the registry before the stop and dials after it. -/
theorem late_dial_remains :
    ¬ (run (Node.serverNode 1)
      [.reconcileReliableConnections (Node.serverNode 1).neededTargets,
        .stopReliableSubscriptions,
        .reconcileReliableConnections (Node.serverNode 1).neededTargets]).TornDown := by
  rw [tornDown_iff_empty, Node.serverNode_neededTargets]
  intro hempty
  exact absurd ((reconcileLocked_empty_iff _).mp hempty) (by simp)

/-- The cleaner dials once more after the stop, and then finds nothing to dial. -/
theorem tornDown_iff_late :
    (run (Node.serverNode 1)
      ([.reconcileReliableConnections (Node.serverNode 1).neededTargets] ++
        .stopReliableSubscriptions ::
          [.reconcileReliableConnections (Node.serverNode 1).neededTargets,
            .reconcileReliableConnections []])).TornDown :=
  (tornDown_iff (Node.serverNode 1)
    [.reconcileReliableConnections (Node.serverNode 1).neededTargets] (by simp)).mpr rfl

end Dialer

end Edriel
