import Edriel.Ring

namespace Edriel

universe u

/-- A packet with a drop count: how many packets the socket has dropped so far, and how many
tries of the weak exchange fail for no reason. -/
structure Reading where
  total : Nat
  failures : Nat := 0

/-- What the kernel attaches: the total as far as 32 bits show it. -/
def Reading.dropped (r : Reading) : UInt32 :=
  UInt32.ofNat r.total

/-- The loop around the weak exchange.  A try that fails has read the counter again, which
no one else writes. -/
def raise (dropped : UInt64) : Nat → UInt64 → UInt64
  | 0, cur => if cur < dropped then dropped else cur
  | failures + 1, cur => if cur < dropped then raise dropped failures cur else cur

def kernelOverrunDropped (readings : List Reading) : UInt64 :=
  readings.foldl (fun cur r => raise r.dropped.toUInt64 r.failures cur) 0

/-- What the rings count is added to what the kernel counts. -/
def droppedFrames {T : Type u} {capacity : Nat} (kernel : UInt64)
    (rings : List (SpscRing T capacity)) : UInt64 :=
  rings.foldl (fun total ring => total + ring.dropped) kernel

theorem raise_eq (dropped : UInt64) (failures : Nat) (cur : UInt64) :
    raise dropped failures cur = if cur < dropped then dropped else cur := by
  induction failures with
  | zero => rfl
  | succ failures ih =>
      rw [raise, ih]
      split_ifs <;> rfl

theorem toNat_raise (dropped : UInt64) (failures : Nat) (cur : UInt64) :
    (raise dropped failures cur).toNat = max cur.toNat dropped.toNat := by
  rw [raise_eq]
  split_ifs with hlt
  · rw [UInt64.lt_iff_toNat_lt] at hlt
    exact (max_eq_right hlt.le).symm
  · rw [UInt64.lt_iff_toNat_lt, Nat.not_lt] at hlt
    exact (max_eq_left hlt).symm

theorem toNat_dropped (r : Reading) : r.dropped.toUInt64.toNat = r.total % 2 ^ 32 := by
  rw [UInt32.toNat_toUInt64, Reading.dropped, UInt32.toNat_ofNat']

theorem kernelOverrunDropped_snoc (readings : List Reading) (r : Reading) :
    (kernelOverrunDropped (readings ++ [r])).toNat =
      max (kernelOverrunDropped readings).toNat (r.total % 2 ^ 32) := by
  rw [kernelOverrunDropped, List.foldl_append]
  change (raise r.dropped.toUInt64 r.failures (kernelOverrunDropped readings)).toNat = _
  rw [toNat_raise, toNat_dropped]

theorem kernelOverrunDropped_lt (readings : List Reading) :
    (kernelOverrunDropped readings).toNat < 2 ^ 32 := by
  induction readings using List.reverseRecOn with
  | nil => exact Nat.two_pow_pos 32
  | append_singleton readings r ih =>
      rw [kernelOverrunDropped_snoc]
      exact max_lt ih (Nat.mod_lt _ (Nat.two_pow_pos 32))

theorem kernelOverrunDropped_le {readings : List Reading} {bound : Nat}
    (h : ∀ r ∈ readings, r.total ≤ bound) : (kernelOverrunDropped readings).toNat ≤ bound := by
  induction readings using List.reverseRecOn with
  | nil => exact Nat.zero_le bound
  | append_singleton readings r ih =>
      rw [kernelOverrunDropped_snoc]
      refine max_le (ih fun r' hr' => h r' (List.mem_append_left _ hr')) ?_
      exact (Nat.mod_le _ _).trans (h r (List.mem_append_right _ List.mem_cons_self))

theorem le_kernelOverrunDropped {readings : List Reading} {r : Reading} (hr : r ∈ readings) :
    r.total % 2 ^ 32 ≤ (kernelOverrunDropped readings).toNat := by
  induction readings using List.reverseRecOn with
  | nil => cases hr
  | append_singleton readings last ih =>
      rw [kernelOverrunDropped_snoc]
      rcases List.mem_append.mp hr with hearlier | hlast
      · exact (ih hearlier).trans (le_max_left _ _)
      · obtain rfl := List.mem_singleton.mp hlast
        exact le_max_right _ _

theorem kernelOverrunDropped_mono (readings : List Reading) (r : Reading) :
    kernelOverrunDropped readings ≤ kernelOverrunDropped (readings ++ [r]) := by
  rw [UInt64.le_iff_toNat_le, kernelOverrunDropped_snoc]
  exact le_max_left _ _

section Rings

variable {T : Type u} {capacity : Nat}

def overwrittenFrames (rings : List (SpscRing T capacity)) : Nat :=
  (rings.map fun ring => ring.dropped.toNat).sum

theorem toNat_droppedFrames (kernel : UInt64) (rings : List (SpscRing T capacity)) :
    (droppedFrames kernel rings).toNat = (kernel.toNat + overwrittenFrames rings) % 2 ^ 64 := by
  induction rings generalizing kernel with
  | nil =>
      change kernel.toNat = kernel.toNat % 2 ^ 64
      exact (Nat.mod_eq_of_lt kernel.toNat_lt).symm
  | cons ring rings ih =>
      change (droppedFrames (kernel + ring.dropped) rings).toNat =
        (kernel.toNat + (ring.dropped.toNat + overwrittenFrames rings)) % 2 ^ 64
      rw [ih, UInt64.toNat_add, Nat.mod_add_mod, Nat.add_assoc]

theorem droppedFrames_mono {kernel kernel' : UInt64} {rings rings' : List (SpscRing T capacity)}
    (hkernel : kernel ≤ kernel') (hrings : overwrittenFrames rings ≤ overwrittenFrames rings')
    (hfits : kernel'.toNat + overwrittenFrames rings' < 2 ^ 64) :
    droppedFrames kernel rings ≤ droppedFrames kernel' rings' := by
  rw [UInt64.le_iff_toNat_le] at hkernel
  rw [UInt64.le_iff_toNat_le, toNat_droppedFrames, toNat_droppedFrames, Nat.mod_eq_of_lt hfits,
    Nat.mod_eq_of_lt (by omega)]
  omega

/-- After a reading the counter is the true total, `droppedFrames` adds to it what the rings
have lost by then, and neither has fallen. -/
structure TracksTotal (before : List Reading) (r : Reading)
    (rings rings' : List (SpscRing T capacity)) : Prop where
  counter : (kernelOverrunDropped (before ++ [r])).toNat = r.total
  frames : (droppedFrames (kernelOverrunDropped (before ++ [r])) rings').toNat =
    (r.total + overwrittenFrames rings') % 2 ^ 64
  counter_mono : kernelOverrunDropped before ≤ kernelOverrunDropped (before ++ [r])
  frames_mono : overwrittenFrames rings ≤ overwrittenFrames rings' →
    r.total + overwrittenFrames rings' < 2 ^ 64 →
      droppedFrames (kernelOverrunDropped before) rings ≤
        droppedFrames (kernelOverrunDropped (before ++ [r])) rings'

/-- The counter is the total while the total fits the 32 bits that the kernel shows, and never
afterwards. -/
theorem tracksTotal_iff {readings before later : List Reading} {r : Reading}
    (hsorted : readings.Pairwise fun earlier r => earlier.total ≤ r.total)
    (hreading : readings = before ++ r :: later) (rings rings' : List (SpscRing T capacity)) :
    TracksTotal before r rings rings' ↔ r.total < 2 ^ 32 := by
  constructor
  · intro htracks
    rw [← htracks.counter]
    exact kernelOverrunDropped_lt _
  · intro hsmall
    rw [hreading, List.pairwise_append] at hsorted
    have hbound : ∀ r' ∈ before ++ [r], r'.total ≤ r.total := by
      intro r' hr'
      rcases List.mem_append.mp hr' with hearlier | hlast
      · exact hsorted.2.2 r' hearlier r List.mem_cons_self
      · rw [List.mem_singleton.mp hlast]
    have hread : r.total % 2 ^ 32 ≤ (kernelOverrunDropped (before ++ [r])).toNat :=
      le_kernelOverrunDropped (List.mem_append_right before (List.mem_singleton_self r))
    rw [Nat.mod_eq_of_lt hsmall] at hread
    have hcounter : (kernelOverrunDropped (before ++ [r])).toNat = r.total :=
      le_antisymm (kernelOverrunDropped_le hbound) hread
    refine ⟨hcounter, ?_, kernelOverrunDropped_mono before r, ?_⟩
    · rw [toNat_droppedFrames, hcounter]
    · intro hrings hfits
      exact droppedFrames_mono (kernelOverrunDropped_mono before r) hrings (hcounter ▸ hfits)

end Rings

/-- Ten packets are lost between two readings, and the counter stays where it was. -/
theorem wrapped_total_lost :
    ¬ TracksTotal [{ total := 4294967295 }] { total := 4294967305 }
      ([] : List (SpscRing Unit 1)) [] := by
  intro htracks
  have hcounter : (kernelOverrunDropped
      [{ total := 4294967295 }, { total := 4294967305 }]).toNat = 4294967305 := htracks.counter
  revert hcounter
  decide

/-- A reading just below the boundary, after one that two tries of the exchange missed. -/
theorem tracksTotal_below :
    TracksTotal [{ total := 7, failures := 2 }] { total := 4294967295 }
      ([] : List (SpscRing Unit 1)) [] := by
  have hsorted : [({ total := 7, failures := 2 } : Reading), { total := 4294967295 }].Pairwise
      fun earlier r => earlier.total ≤ r.total := by decide
  exact (tracksTotal_iff hsorted rfl [] []).mpr (by decide)

end Edriel
