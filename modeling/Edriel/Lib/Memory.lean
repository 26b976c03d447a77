import Mathlib

/-!
Ranges of a byte memory with 64-bit addresses, where an address plus an offset is taken
modulo `2 ^ 64`.
-/

namespace Memory

def bytesAt (mem : UInt64 → UInt8) (p : UInt64) : Nat → List UInt8
  | 0 => []
  | n + 1 => mem p :: bytesAt mem (p + 1) n

/-- The bytes from `p` up to `stop` are `c`, and no address in between wraps. -/
structure Spans (mem : UInt64 → UInt8) (p stop : UInt64) (c : List UInt8) : Prop where
  size : p.toNat + c.length = stop.toNat
  bytes : bytesAt mem p c.length = c

variable {mem : UInt64 → UInt8} {p stop l : UInt64} {c : List UInt8}

theorem length_bytesAt (mem : UInt64 → UInt8) (p : UInt64) (n : Nat) :
    (bytesAt mem p n).length = n := by
  induction n generalizing p with
  | zero => rfl
  | succ n ih => rw [bytesAt, List.length_cons, ih]

theorem bytesAt_add (mem : UInt64 → UInt8) (p : UInt64) (m n : Nat) :
    bytesAt mem p (m + n) = bytesAt mem p m ++ bytesAt mem (p + UInt64.ofNat m) n := by
  induction m generalizing p with
  | zero =>
      rw [Nat.zero_add]
      show _ = bytesAt mem (p + 0) n
      rw [UInt64.add_zero]
  | succ m ih =>
      have hnext : p + 1 + UInt64.ofNat m = p + UInt64.ofNat (m + 1) := by
        rw [UInt64.add_assoc, UInt64.add_comm 1, UInt64.ofNat_add]
        rfl
      rw [Nat.succ_add, bytesAt, bytesAt, ih, hnext, List.cons_append]

theorem toNat_add_of_lt (h : p.toNat + l.toNat < 2 ^ 64) :
    (p + l).toNat = p.toNat + l.toNat := by
  rw [UInt64.toNat_add, Nat.mod_eq_of_lt h]

/-- An address that wraps ends up below where it started. -/
theorem toNat_add_lt_of_le (h : 2 ^ 64 ≤ p.toNat + l.toNat) : (p + l).toNat < p.toNat := by
  have hl := l.toNat_lt
  rw [UInt64.toNat_add]
  omega

namespace Spans

theorem le (h : Spans mem p stop c) : p.toNat ≤ stop.toNat := by
  have := h.size
  omega

theorem size_lt (h : Spans mem p stop c) : p.toNat + c.length < 2 ^ 64 := by
  rw [h.size]
  exact stop.toNat_lt

theorem eq_of_nil (h : Spans mem p stop []) : p = stop :=
  UInt64.toNat_inj.mp h.size

theorem of_bytesAt (mem : UInt64 → UInt8) {n : Nat} (h : p.toNat + n < 2 ^ 64) :
    Spans mem p (p + UInt64.ofNat n) (bytesAt mem p n) := by
  have hn : (UInt64.ofNat n).toNat = n := by
    rw [UInt64.toNat_ofNat', Nat.mod_eq_of_lt (by omega)]
  constructor
  · rw [length_bytesAt, toNat_add_of_lt (by omega), hn]
  · rw [length_bytesAt]

section Cons

variable {b : UInt8}

theorem lt (h : Spans mem p stop (b :: c)) : p < stop := by
  have hsize := h.size
  rw [List.length_cons] at hsize
  rw [UInt64.lt_iff_toNat_lt]
  omega

theorem head (h : Spans mem p stop (b :: c)) : mem p = b :=
  List.head_eq_of_cons_eq h.bytes

theorem toNat_next (h : Spans mem p stop (b :: c)) : (p + 1).toNat = p.toNat + 1 := by
  have hsize := h.size_lt
  rw [List.length_cons] at hsize
  exact toNat_add_of_lt (l := 1) (by rw [show (1 : UInt64).toNat = 1 from rfl]; omega)

theorem tail (h : Spans mem p stop (b :: c)) : Spans mem (p + 1) stop c := by
  constructor
  · have hsize := h.size
    rw [List.length_cons] at hsize
    rw [h.toNat_next]
    omega
  · exact List.tail_eq_of_cons_eq h.bytes

end Cons

theorem split (h : Spans mem p stop c) (hl : l.toNat ≤ c.length) :
    Spans mem p (p + l) (c.take l.toNat) ∧ Spans mem (p + l) stop (c.drop l.toNat) := by
  have hsize := h.size
  have hadd : (p + l).toNat = p.toNat + l.toNat :=
    toNat_add_of_lt (by have := h.size_lt; omega)
  have hbytes : bytesAt mem p l.toNat ++ bytesAt mem (p + l) (c.length - l.toNat) =
      c.take l.toNat ++ c.drop l.toNat := by
    rw [List.take_append_drop]
    refine Eq.trans ?_ h.bytes
    have hsplit := bytesAt_add mem p l.toNat (c.length - l.toNat)
    rw [Nat.add_sub_cancel' hl, UInt64.ofNat_toNat] at hsplit
    exact hsplit.symm
  have htake : (c.take l.toNat).length = l.toNat := by
    rw [List.length_take, Nat.min_eq_left hl]
  obtain ⟨hfront, hback⟩ := List.append_inj hbytes (by rw [length_bytesAt, htake])
  constructor
  · exact ⟨by rw [htake, hadd], by rw [htake, hfront]⟩
  · constructor
    · rw [List.length_drop, hadd]
      omega
    · rw [List.length_drop, hback]

/-- A range that is given by its length has that length, so its end did not wrap. -/
theorem length_eq (h : Spans mem p (p + l) c) : c.length = l.toNat := by
  have hsize := h.size
  rcases Nat.lt_or_ge (p.toNat + l.toNat) (2 ^ 64) with hfits | hwraps
  · rw [toNat_add_of_lt hfits] at hsize
    omega
  · have hback := toNat_add_lt_of_le hwraps
    omega

theorem lt_add_iff (h : Spans mem p stop c) (hl : p.toNat + l.toNat < 2 ^ 64) :
    stop < p + l ↔ c.length < l.toNat := by
  have hsize := h.size
  rw [UInt64.lt_iff_toNat_lt, toNat_add_of_lt hl]
  omega

end Spans

end Memory
