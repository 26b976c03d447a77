import Mathlib

namespace Partitioned

open Std

universe u v w

variable {K : Type u} {V : Type v} [Ord K] [TransOrd K] [LawfulEqOrd K] {N : Nat}

/-- The parts of a map, by index. -/
abbrev Parts (N : Nat) (K : Type u) (V : Type v) [Ord K] := Fin N → ExtTreeMap K V

def lookup (place : K → Fin N) (parts : Parts N K V) (k : K) : Option V :=
  (parts (place k))[k]?

def alter (place : K → Fin N) (parts : Parts N K V) (k : K) (f : Option V → Option V) :
    Parts N K V :=
  Function.update parts (place k) ((parts (place k)).alter k f)

/-- No key stands in a part that does not own it. -/
def Located (place : K → Fin N) (parts : Parts N K V) : Prop :=
  ∀ i k v, (parts i)[k]? = some v → i = place k

def entries (parts : Parts N K V) : List (K × V) :=
  (List.finRange N).flatMap fun i => (parts i).toList

theorem lookup_alter (place : K → Fin N) (parts : Parts N K V) (k k' : K)
    (f : Option V → Option V) [Decidable (k = k')] :
    lookup place (alter place parts k f) k' =
      if k = k' then f (lookup place parts k) else lookup place parts k' := by
  rw [lookup, alter, Function.update_apply]
  split
  · rename_i hplace
    rw [ExtTreeMap.getElem?_alter]
    by_cases hkey : k = k'
    · rw [if_pos hkey, if_pos (LawfulEqOrd.compare_eq_iff_eq.mpr hkey), lookup]
    · rw [if_neg hkey, if_neg (LawfulEqOrd.compare_eq_iff_eq.not.mpr hkey), lookup, hplace]
  · rename_i hplace
    have hkey : k ≠ k' := fun hkey => hplace (congrArg place hkey.symm)
    rw [if_neg hkey, lookup]

theorem lookup_filterMap (place : K → Fin N) (parts : Parts N K V) (f : K → V → Option V)
    (k : K) :
    lookup place (fun i => (parts i).filterMap f) k = (lookup place parts k).bind (f k) := by
  rw [lookup, ExtTreeMap.getElem?_filterMap', lookup]

theorem lookup_filter (place : K → Fin N) (parts : Parts N K V) (f : K → V → Bool) (k : K) :
    lookup place (fun i => (parts i).filter f) k = (lookup place parts k).filter (f k) := by
  rw [lookup, ExtTreeMap.getElem?_filter', lookup]

namespace Located

variable {place : K → Fin N} {parts : Parts N K V}

omit [LawfulEqOrd K] in
theorem empty : Located place (fun _ => (∅ : ExtTreeMap K V)) := by
  intro i k v h
  rw [ExtTreeMap.getElem?_empty] at h
  cases h

theorem alter (h : Located place parts) (k : K) (f : Option V → Option V) :
    Located place (alter place parts k f) := by
  intro i k' v hv
  rw [Partitioned.alter, Function.update_apply] at hv
  split at hv
  · rename_i hi
    rw [ExtTreeMap.getElem?_alter] at hv
    split at hv
    · rename_i hkey
      rw [hi, LawfulEqOrd.compare_eq_iff_eq.mp hkey]
    · exact h i k' v (hi ▸ hv)
  · exact h i k' v hv

theorem filterMap (h : Located place parts) (f : K → V → Option V) :
    Located place fun i => (parts i).filterMap f := by
  intro i k v hv
  rw [ExtTreeMap.getElem?_filterMap'] at hv
  obtain ⟨old, hold, -⟩ := Option.bind_eq_some_iff.mp hv
  exact h i k old hold

theorem filter (h : Located place parts) (f : K → V → Bool) :
    Located place fun i => (parts i).filter f := by
  intro i k v hv
  rw [ExtTreeMap.getElem?_filter'] at hv
  exact h i k v (Option.filter_eq_some_iff.mp hv).1

omit [LawfulEqOrd K] in
theorem exists_iff (h : Located place parts) {k : K} {v : V} :
    (∃ i, (parts i)[k]? = some v) ↔ lookup place parts k = some v := by
  constructor
  · rintro ⟨i, hv⟩
    rw [lookup, ← h i k v hv]
    exact hv
  · intro hv
    exact ⟨place k, hv⟩

theorem mem_entries (h : Located place parts) {k : K} {v : V} :
    (k, v) ∈ entries parts ↔ lookup place parts k = some v := by
  rw [← h.exists_iff, entries, List.mem_flatMap]
  simp only [List.mem_finRange, true_and, ExtTreeMap.mem_toList_iff_getElem?_eq_some]

end Located

variable {α : Type w}

/-- Inserts one element after another; of equal keys the first stays. -/
def merge (key : α → K) (value : α → V) (l : List α) : ExtTreeMap K V :=
  l.foldl (fun merged a => merged.insertIfNew (key a) (value a)) ∅

theorem getElem?_foldl_insertIfNew (key : α → K) (value : α → V) (l : List α) (k : K)
    (m : ExtTreeMap K V) :
    (l.foldl (fun merged a => merged.insertIfNew (key a) (value a)) m)[k]? =
      m[k]?.or ((l.find? fun a => compare (key a) k == .eq).map value) := by
  induction l generalizing m with
  | nil => simp
  | cons a l ih =>
      rw [List.foldl_cons, ih, ExtTreeMap.getElem?_insertIfNew, List.find?_cons]
      by_cases hkey : key a = k
      · subst hkey
        have heq : compare (key a) (key a) = .eq := LawfulEqOrd.compare_eq_iff_eq.mpr rfl
        simp only [heq, BEq.rfl, Option.map_some, true_and]
        by_cases hmem : key a ∈ m
        · simp [hmem]
        · simp [hmem]
      · have hne : ¬ compare (key a) k = .eq := LawfulEqOrd.compare_eq_iff_eq.not.mpr hkey
        rw [if_neg (fun h => hne h.1), beq_eq_false_iff_ne.mpr hne]

theorem getElem?_merge_eq_some {key : α → K} {value : α → V} {l : List α}
    (hunique : ∀ a ∈ l, ∀ b ∈ l, key a = key b → value a = value b) {k : K} {v : V} :
    (merge key value l)[k]? = some v ↔ ∃ a ∈ l, key a = k ∧ value a = v := by
  rw [merge, getElem?_foldl_insertIfNew, ExtTreeMap.getElem?_empty, Option.none_or,
    Option.map_eq_some_iff]
  constructor
  · rintro ⟨a, hfound, hvalue⟩
    have hkey := List.find?_some hfound
    exact ⟨a, List.mem_of_find?_eq_some hfound,
      LawfulEqOrd.compare_eq_iff_eq.mp (beq_iff_eq.mp hkey), hvalue⟩
  · rintro ⟨a, hmem, hkey, hvalue⟩
    have hsome : (l.find? fun a => compare (key a) k == .eq).isSome = true := by
      rw [List.find?_isSome]
      exact ⟨a, hmem, beq_iff_eq.mpr (LawfulEqOrd.compare_eq_iff_eq.mpr hkey)⟩
    obtain ⟨b, hfound⟩ := Option.isSome_iff_exists.mp hsome
    have hbeq := List.find?_some hfound
    have hkey' := LawfulEqOrd.compare_eq_iff_eq.mp (beq_iff_eq.mp hbeq)
    refine ⟨b, hfound, ?_⟩
    rw [← hvalue]
    exact hunique b (List.mem_of_find?_eq_some hfound) a hmem (hkey'.trans hkey.symm)

end Partitioned
