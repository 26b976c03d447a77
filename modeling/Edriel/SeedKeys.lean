import Edriel.Identity

namespace Edriel

open Proto3

/-- The uid of a hash before its fix-up: the hash rotated by 33 bits. -/
def spread (h : UInt64) : UInt64 :=
  (h <<< 33) ^^^ (h >>> 31)

/-- The rotation back. -/
def gathered (u : UInt64) : UInt64 :=
  (u >>> 33) ^^^ (u <<< 31)

theorem toBitVec_spread (h : UInt64) :
    (spread h).toBitVec = (h.toBitVec <<< 33) ^^^ (h.toBitVec >>> 31) :=
  rfl

theorem toBitVec_gathered (u : UInt64) :
    (gathered u).toBitVec = (u.toBitVec >>> 33) ^^^ (u.toBitVec <<< 31) :=
  rfl

theorem gathered_spread (h : UInt64) : gathered (spread h) = h := by
  apply UInt64.eq_of_toBitVec_eq
  rw [toBitVec_gathered, toBitVec_spread]
  apply BitVec.eq_of_getLsbD_eq
  intro i hi
  have hbeyond : h.toBitVec.getLsbD (31 + (33 + i)) = false :=
    BitVec.getLsbD_of_ge _ _ (by omega)
  simp only [BitVec.getLsbD_xor, BitVec.getLsbD_ushiftRight, BitVec.getLsbD_shiftLeft, hbeyond]
  by_cases hlow : i < 31
  · -- a bit that the left shift carries
    have hleft : 33 + i < 64 := by omega
    have hback : 33 + i - 33 = i := by omega
    simp [hlow, hleft, hback]
  · -- a bit that the right shift carries
    have hright : ¬ 33 + i < 64 := by omega
    have hlast : i - 31 < 33 := by omega
    have hback : 31 + (i - 31) = i := by omega
    simp [hlow, hright, hlast, hback, hi]

theorem spread_injective : Function.Injective spread :=
  Function.LeftInverse.injective gathered_spread

theorem spread_zero : spread 0 = 0 := by
  decide

/-- The hash whose uid is one without a fix-up. -/
theorem spread_eq_one : spread 2147483648 = 1 := by
  decide

theorem nonzeroPid_ne_zero (pid : UInt32) : nonzeroPid pid ≠ 0 := by
  rw [nonzeroPid]
  split_ifs with hzero
  · decide
  · exact hzero

theorem nonzeroUid_ne_zero (uid : UInt64) : nonzeroUid uid ≠ 0 := by
  rw [nonzeroUid]
  split_ifs with hzero
  · decide
  · exact hzero

/-- The pid and the uid that a hash is made into. -/
def seedIdentity (h : UInt64) : UInt32 × UInt64 :=
  (nonzeroPid (h >>> 1).toUInt32, nonzeroUid (spread h))

/-- The one hash that could be taken for the hash zero has another pid. -/
theorem seedIdentity_zero_ne : seedIdentity 0 ≠ seedIdentity 2147483648 := by
  decide

theorem eq_of_spread_eq_one {h : UInt64} (hone : spread h = 1) : h = 2147483648 :=
  spread_injective (hone.trans spread_eq_one.symm)

theorem eq_zero_of_spread_eq_zero {h : UInt64} (hzero : spread h = 0) : h = 0 :=
  spread_injective (hzero.trans spread_zero.symm)

theorem seedIdentity_injective : Function.Injective seedIdentity := by
  intro g h heq
  have huid : nonzeroUid (spread g) = nonzeroUid (spread h) := (Prod.mk.inj heq).2
  rw [nonzeroUid, nonzeroUid] at huid
  split_ifs at huid with hg hh hh
  · exact spread_injective (hg.trans hh.symm)
  · -- the fix-up of one hash is the rotation of the other
    obtain rfl := eq_zero_of_spread_eq_zero hg
    obtain rfl := eq_of_spread_eq_one huid.symm
    exact absurd heq seedIdentity_zero_ne
  · obtain rfl := eq_zero_of_spread_eq_zero hh
    obtain rfl := eq_of_spread_eq_one huid
    exact absurd heq.symm seedIdentity_zero_ne
  · exact spread_injective huid

theorem peerKeyForEndpoint_eq (endpoint : Bytes) :
    ((peerKeyForEndpoint endpoint).pid, (peerKeyForEndpoint endpoint).uid) =
      seedIdentity (fnv1a64 endpoint) :=
  rfl

/-- Two endpoints share a pid and a uid only where their hashes meet, and neither is zero. -/
theorem seedKeys_distinct (a b : Bytes) :
    (((peerKeyForEndpoint a).pid, (peerKeyForEndpoint a).uid) =
        ((peerKeyForEndpoint b).pid, (peerKeyForEndpoint b).uid) ↔ fnv1a64 a = fnv1a64 b) ∧
      (peerKeyForEndpoint a).pid ≠ 0 ∧ (peerKeyForEndpoint a).uid ≠ 0 := by
  rw [peerKeyForEndpoint_eq, peerKeyForEndpoint_eq]
  exact ⟨seedIdentity_injective.eq_iff, nonzeroPid_ne_zero _, nonzeroUid_ne_zero _⟩

end Edriel
