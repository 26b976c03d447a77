import Mathlib

namespace Entries

open Std

universe u v

variable {K : Type u} {V : Type v} [Ord K] [TransOrd K] [LawfulEqOrd K]

theorem nodup_toList (t : ExtTreeMap K V) : t.toList.Nodup := by
  apply t.distinct_keys_toList.imp
  intro a b hkeys heq
  exact hkeys (LawfulEqOrd.compare_eq_iff_eq.mpr (congrArg Prod.fst heq))

theorem toList_perm_of_getElem? {t : ExtTreeMap K V} {k : K} {v : V} (h : t[k]? = some v) :
    t.toList.Perm ((k, v) :: (t.erase k).toList) := by
  rw [List.perm_ext_iff_of_nodup (nodup_toList t)]
  · rintro ⟨k', v'⟩
    simp only [List.mem_cons, ExtTreeMap.mem_toList_iff_getElem?_eq_some,
      ExtTreeMap.getElem?_erase, Prod.mk.injEq]
    split
    · rename_i hkey
      obtain rfl := LawfulEqOrd.compare_eq_iff_eq.mp hkey
      simp [h, eq_comm]
    · rename_i hkey
      have hne : k' ≠ k := fun heq => hkey (LawfulEqOrd.compare_eq_iff_eq.mpr heq.symm)
      simp [hne]
  · apply List.nodup_cons.mpr
    refine ⟨?_, nodup_toList _⟩
    rw [ExtTreeMap.mem_toList_iff_getElem?_eq_some, ExtTreeMap.getElem?_erase_self]
    simp

theorem erase_eq_of_none {t : ExtTreeMap K V} {k : K} (h : t[k]? = none) : t.erase k = t := by
  apply ExtTreeMap.ext_getElem?
  intro k'
  rw [ExtTreeMap.getElem?_erase]
  split
  · rename_i hkey
    obtain rfl := LawfulEqOrd.compare_eq_iff_eq.mp hkey
    exact h.symm
  · rfl

theorem toList_insert_perm (t : ExtTreeMap K V) (k : K) (v : V) :
    (t.insert k v).toList.Perm ((k, v) :: (t.erase k).toList) := by
  have herase : (t.insert k v).erase k = t.erase k := by
    apply ExtTreeMap.ext_getElem?
    intro k'
    rw [ExtTreeMap.getElem?_erase, ExtTreeMap.getElem?_erase, ExtTreeMap.getElem?_insert]
    split
    · rfl
    · rfl
  rw [← herase]
  exact toList_perm_of_getElem? ExtTreeMap.getElem?_insert_self

def values (t : ExtTreeMap K V) : List V :=
  t.toList.map Prod.snd

omit [LawfulEqOrd K] in
@[simp] theorem values_empty : values (∅ : ExtTreeMap K V) = [] := by
  rfl

theorem values_insert_of_none {t : ExtTreeMap K V} {k : K} (v : V) (h : t[k]? = none) :
    (values (t.insert k v)).Perm (v :: values t) := by
  have hperm := toList_insert_perm t k v
  rw [erase_eq_of_none h] at hperm
  exact hperm.map Prod.snd

theorem values_insert_of_some {t : ExtTreeMap K V} {k : K} {old : V} (v : V)
    (h : t[k]? = some old) : (old :: values (t.insert k v)).Perm (v :: values t) := by
  have hnew := ((toList_insert_perm t k v).map Prod.snd).cons old
  have hold := ((toList_perm_of_getElem? h).map Prod.snd).cons v
  exact hnew.trans ((List.Perm.swap v old _).trans hold.symm)

omit [LawfulEqOrd K] in
theorem values_filter_perm (t : ExtTreeMap K V) (f : K → V → Bool) :
    ((t.toList.filterMap fun entry => if f entry.1 entry.2 then none else some entry.2) ++
      values (t.filter f)).Perm (values t) := by
  rw [values, values, ExtTreeMap.toList_filter]
  induction t.toList with
  | nil => exact .refl _
  | cons entry l ih =>
      cases hf : f entry.1 entry.2 with
      | true => simpa [hf] using List.perm_middle.trans (ih.cons entry.2)
      | false => simpa [hf] using ih.cons entry.2

/-- The values of the entries of `t` that `t'` does not have. -/
def dropped [DecidableEq V] (t t' : ExtTreeMap K V) : List V :=
  (t.toList.filter fun entry => t'[entry.1]? ≠ some entry.2).map Prod.snd

section Dropped

variable [DecidableEq V] {t t' : ExtTreeMap K V} {k : K} {v : V}

theorem mem_dropped : v ∈ dropped t t' ↔ ∃ k : K, t[k]? = some v ∧ t'[k]? ≠ some v := by
  simp [dropped, ExtTreeMap.mem_toList_iff_getElem?_eq_some]

theorem dropped_filter (t : ExtTreeMap K V) (f : K → V → Bool) :
    dropped t (t.filter f) =
      t.toList.filterMap fun entry => if f entry.1 entry.2 then none else some entry.2 := by
  have hfilter : ∀ l : List (K × V),
      (l.filter fun entry => !f entry.1 entry.2).map Prod.snd =
        l.filterMap fun entry => if f entry.1 entry.2 then none else some entry.2 := by
    intro l
    induction l with
    | nil => rfl
    | cons entry l ih =>
        cases hf : f entry.1 entry.2 with
        | true => simpa [hf] using ih
        | false => simpa [hf] using ih
  rw [dropped, ← hfilter]
  congr 1
  apply List.filter_congr
  rintro ⟨k, v⟩ hmem
  rw [ExtTreeMap.getElem?_filter', ExtTreeMap.mem_toList_iff_getElem?_eq_some.mp hmem]
  cases hf : f k v with
  | true => simp [hf]
  | false => simp [hf]

theorem dropped_insert_of_none (v : V) (h : t[k]? = none) :
    dropped t (t'.insert k v) = dropped t t' := by
  rw [dropped, dropped]
  congr 1
  apply List.filter_congr
  rintro ⟨k', v'⟩ hmem
  have hentry := ExtTreeMap.mem_toList_iff_getElem?_eq_some.mp hmem
  have hkey : k ≠ k' := by
    rintro rfl
    rw [h] at hentry
    cases hentry
  rw [ExtTreeMap.getElem?_insert, if_neg (LawfulEqOrd.compare_eq_iff_eq.not.mpr hkey)]

theorem dropped_insert_of_ne {old : V} (h : t[k]? = some old) (h' : t'[k]? = some old)
    (hne : old ≠ v) : (dropped t (t'.insert k v)).Perm (dropped t t' ++ [old]) := by
  obtain ⟨before, after, hsplit⟩ := List.append_of_mem
    (ExtTreeMap.mem_toList_iff_getElem?_eq_some.mpr h)
  have hnodup := nodup_toList t
  rw [hsplit] at hnodup
  have hother : ∀ entry ∈ before ++ after,
      decide ((t'.insert k v)[entry.1]? ≠ some entry.2) =
        decide (t'[entry.1]? ≠ some entry.2) := by
    rintro ⟨k', v'⟩ hmem
    have hkey : k ≠ k' := by
      rintro rfl
      have hentry : (k, v') ∈ t.toList := by
        rw [hsplit]
        simp only [List.mem_append, List.mem_cons] at hmem ⊢
        exact hmem.imp_right .inr
      rw [ExtTreeMap.mem_toList_iff_getElem?_eq_some, h] at hentry
      obtain rfl := Option.some.inj hentry
      exact (List.nodup_middle.mp hnodup).notMem hmem
    rw [ExtTreeMap.getElem?_insert, if_neg (LawfulEqOrd.compare_eq_iff_eq.not.mpr hkey)]
  have hbefore := List.filter_congr fun e he => hother e (List.mem_append_left _ he)
  have hafter := List.filter_congr fun e he => hother e (List.mem_append_right _ he)
  have hin : decide ((t'.insert k v)[k]? ≠ some old) = true := by
    rw [ExtTreeMap.getElem?_insert_self]
    simpa using hne.symm
  have hout : decide (t'[k]? ≠ some old) = false := by
    simp [h']
  simp only [dropped, hsplit, List.filter_append, List.filter_cons, hin, hout, hbefore,
    hafter, List.map_append, List.map_cons, if_true, Bool.false_eq_true, if_false]
  exact List.perm_middle.trans (List.perm_append_singleton _ _).symm

end Dropped

end Entries
