import Edriel.ReliableReceiver

namespace Edriel

open Std

/-- The tid of `b` follows that of `a`, or lies past the whole window behind it. -/
def DataMessage.Near (a b : DataMessage) : Prop :=
  b.tid = a.tid + 1 ∨ a.tid + kReliableWindowSize < b.tid

def DataMessage.Before (a b : DataMessage) : Prop :=
  a.tid < b.tid

namespace ReliableRxWindow

def fed (w : ReliableRxWindow) (ms : List DataMessage) : ReliableRxWindow :=
  ms.foldl (fun w m => (w.receive m).2) w

def dispatched (w : ReliableRxWindow) : List DataMessage → List DataMessage
  | [] => []
  | m :: ms => (w.receive m).1 ++ (w.receive m).2.dispatched ms

theorem fed_concat (w : ReliableRxWindow) (ms : List DataMessage) (m : DataMessage) :
    w.fed (ms ++ [m]) = ((w.fed ms).receive m).2 := by
  rw [fed, List.foldl_append, fed]
  rfl

theorem dispatched_concat (w : ReliableRxWindow) (ms : List DataMessage) (m : DataMessage) :
    w.dispatched (ms ++ [m]) = w.dispatched ms ++ ((w.fed ms).receive m).1 := by
  induction ms generalizing w with
  | nil => exact List.append_nil _
  | cons m' ms ih =>
      rw [List.cons_append, dispatched, dispatched, ih, List.append_assoc]
      rfl

/-- A window that has delivered everything up to `tid`. -/
def past (tid : Nat) : ReliableRxWindow :=
  { nextExpected := tid + 1 }

def Held (w : ReliableRxWindow) : Prop :=
  w.nextExpected ≠ 0 ∧ w.buffer ≠ ∅

theorem deliver_empty {n : Nat} (m : DataMessage) (hn : n < 2 ^ 64 - 1) :
    ({ nextExpected := n } : ReliableRxWindow).deliver m = ([m], past n) := by
  have hempty : (∅ : ExtTreeMap Nat DataMessage).toList = [] := rfl
  simp only [deliver, hempty, List.map_nil, flushed, List.foldl_nil, bump, if_pos hn]
  rfl

theorem receive_unbaselined {m : DataMessage} (hm : m.tid < 2 ^ 64 - 1) :
    unbaselined.receive m = ([m], past m.tid) :=
  deliver_empty m hm

theorem receive_past_of_near {a m : DataMessage} (hm : m.tid < 2 ^ 64 - 1)
    (hnear : a.Near m) : (past a.tid).receive m = ([m], past m.tid) := by
  have hempty : (past a.tid).buffer.isEmpty = true := rfl
  have hnext : (past a.tid).nextExpected = a.tid + 1 := rfl
  have hwidth : 0 < kReliableWindowSize := by decide
  rw [receive, hnext, if_neg (Nat.succ_ne_zero _)]
  rcases hnear with hnear | hnear
  · have hpast : past a.tid = { nextExpected := m.tid } := by rw [hnear]; rfl
    rw [if_pos hnear, hpast, deliver_empty m hm]
  · rw [if_neg (by omega), if_pos (by omega), if_neg (by omega),
      if_pos ⟨by omega, hempty⟩]
    exact deliver_empty m hm

theorem receive_past_of_not_near {a m : DataMessage} (hbefore : a.Before m)
    (hnear : ¬ a.Near m) :
    ((past a.tid).receive m).1 = [] ∧ ((past a.tid).receive m).2.Held ∧
      ((past a.tid).receive m).2.nextExpected < m.tid := by
  have hsize : (past a.tid).buffer.size = 0 := rfl
  have hnext : (past a.tid).nextExpected = a.tid + 1 := rfl
  have hlt : a.tid < m.tid := hbefore
  have hgap : m.tid ≠ a.tid + 1 ∧ ¬ a.tid + kReliableWindowSize < m.tid := not_or.mp hnear
  have hwidth : 0 < kReliableWindowSize := by decide
  rw [receive, hnext, if_neg (Nat.succ_ne_zero _), if_neg hgap.1, if_pos (by omega),
    if_pos ⟨by omega, by omega⟩]
  exact ⟨rfl, ⟨Nat.succ_ne_zero _, ExtTreeMap.insertIfNew_ne_empty⟩,
    show a.tid + 1 < m.tid by omega⟩

/-- A window that holds frames never hears of the missing one again. -/
theorem receive_held {w : ReliableRxWindow} {m : DataMessage} (hheld : w.Held)
    (hlt : w.nextExpected < m.tid) :
    (w.receive m).1 = [] ∧ (w.receive m).2.Held ∧
      (w.receive m).2.nextExpected = w.nextExpected := by
  have hfull : w.buffer.isEmpty ≠ true := fun h => hheld.2 (ExtTreeMap.isEmpty_iff.mp h)
  rw [receive, if_neg hheld.1, if_neg (by omega), if_pos hlt]
  split_ifs with hroom hfar
  · exact ⟨rfl, ⟨hheld.1, ExtTreeMap.insertIfNew_ne_empty⟩, rfl⟩
  · exact absurd hfar.2 hfull
  · exact ⟨rfl, hheld, rfl⟩

theorem fed_of_near {ms : List DataMessage} (hlt : ∀ m ∈ ms, m.tid < 2 ^ 64 - 1)
    (hnear : ms.IsChain DataMessage.Near) :
    unbaselined.dispatched ms = ms ∧
      ∀ m ∈ ms.getLast?, unbaselined.fed ms = past m.tid := by
  induction ms using List.reverseRecOn with
  | nil => exact ⟨rfl, nofun⟩
  | append_singleton ms m ih =>
      obtain ⟨hms, -, hlast⟩ := List.isChain_append.mp hnear
      obtain ⟨hall, hfed⟩ := ih (fun x hx => hlt x (by simp [hx])) hms
      have hm := hlt m (by simp)
      have hreceive : (unbaselined.fed ms).receive m = ([m], past m.tid) := by
        cases hprev : ms.getLast? with
        | none =>
            rw [List.getLast?_eq_none_iff.mp hprev]
            exact receive_unbaselined hm
        | some a =>
            rw [hfed a hprev]
            exact receive_past_of_near hm (hlast a hprev m rfl)
      rw [dispatched_concat, fed_concat, hreceive, hall]
      refine ⟨rfl, fun x hx => ?_⟩
      obtain rfl : m = x := by simpa using hx
      rfl

theorem fed_of_not_near {ms : List DataMessage} (hlt : ∀ m ∈ ms, m.tid < 2 ^ 64 - 1)
    (hbefore : ms.IsChain DataMessage.Before) (hnear : ¬ ms.IsChain DataMessage.Near) :
    (unbaselined.dispatched ms).length < ms.length ∧ (unbaselined.fed ms).Held ∧
      ∀ m ∈ ms.getLast?, (unbaselined.fed ms).nextExpected < m.tid := by
  induction ms using List.reverseRecOn with
  | nil => exact absurd .nil hnear
  | append_singleton ms m ih =>
      obtain ⟨hms, -, hlast⟩ := List.isChain_append.mp hbefore
      have hltms : ∀ x ∈ ms, x.tid < 2 ^ 64 - 1 := fun x hx => hlt x (by simp [hx])
      rw [dispatched_concat, fed_concat, List.getLast?_concat]
      by_cases hearlier : ms.IsChain DataMessage.Near
      · -- the gap opens in front of `m`
        obtain ⟨hall, hfed⟩ := fed_of_near hltms hearlier
        obtain ⟨a, ha, hgap⟩ : ∃ a ∈ ms.getLast?, ¬ a.Near m := by
          by_contra hnone
          push Not at hnone
          refine hnear (List.isChain_append.mpr ⟨hearlier, .singleton m, fun a ha y hy => ?_⟩)
          obtain rfl : m = y := by simpa using hy
          exact hnone a ha
        obtain ⟨hnothing, hheld, hnext⟩ := receive_past_of_not_near (hlast a ha m rfl) hgap
        rw [hfed a ha, hall, hnothing]
        refine ⟨by simp, hheld, fun x hx => ?_⟩
        obtain rfl : m = x := by simpa using hx
        exact hnext
      · obtain ⟨hfewer, hheld, hnext⟩ := ih hltms hms hearlier
        obtain ⟨a, ha⟩ : ∃ a, ms.getLast? = some a := by
          refine Option.ne_none_iff_exists'.mp fun hnil => hearlier ?_
          rw [List.getLast?_eq_none_iff.mp hnil]
          exact .nil
        have hm : (unbaselined.fed ms).nextExpected < m.tid :=
          (hnext a ha).trans (hlast a ha m rfl)
        obtain ⟨hnothing, hheld', hsame⟩ := receive_held hheld hm
        rw [hnothing, hsame]
        refine ⟨by simp; omega, hheld', fun x hx => ?_⟩
        obtain rfl : m = x := by simpa using hx
        exact hm

/-- Of growing tids everything is dispatched exactly when every gap is none or a
whole window wide; otherwise fewer frames come out. -/
theorem length_dispatched_iff {ms : List DataMessage} (hlt : ∀ m ∈ ms, m.tid < 2 ^ 64 - 1)
    (hbefore : ms.IsChain DataMessage.Before) :
    (unbaselined.dispatched ms).length = ms.length ↔ ms.IsChain DataMessage.Near := by
  constructor
  · intro hlength
    by_contra hnear
    exact absurd hlength (fed_of_not_near hlt hbefore hnear).1.ne
  · intro hnear
    rw [(fed_of_near hlt hnear).1]

end ReliableRxWindow

end Edriel
