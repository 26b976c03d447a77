import Edriel.Lib.Decimal
import Edriel.Lib.Text

namespace Decimal

open Proto3 Text

def digit (d : Nat) : UInt8 :=
  UInt8.ofNat (48 + d)

theorem toNat_digit {d : Nat} (hd : d < 10) : (digit d).toNat = 48 + d := by
  apply UInt8.toNat_ofNat_of_lt'
  change 48 + d < 256
  omega

theorem isDigit_iff {b : UInt8} : isDigit b = true ↔ 48 ≤ b.toNat ∧ b.toNat ≤ 57 := by
  rw [isDigit, Bool.and_eq_true, decide_eq_true_eq, decide_eq_true_eq, UInt8.le_iff_toNat_le,
    UInt8.le_iff_toNat_le]
  rfl

theorem digit_of_isDigit {b : UInt8} (hb : isDigit b = true) : digit (b.toNat - 48) = b := by
  obtain ⟨hlow, hhigh⟩ := isDigit_iff.mp hb
  apply UInt8.toNat_inj.mp
  rw [toNat_digit (by omega)]
  omega

theorem digitChar_eq {d : Nat} (hd : d < 10) :
    UInt8.ofNat (Nat.digitChar d).toNat = digit d := by
  have hback := Nat.toNat_digitChar_of_lt_ten hd
  rw [hback, digit]

theorem decimal_of_lt {n : Nat} (hn : n < 10) : decimal n = [digit n] := by
  rw [decimal, Nat.toDigits_of_lt_base hn, List.map_singleton, digitChar_eq hn]

theorem decimal_snoc {n d : Nat} (hn : 0 < n) (hd : d < 10) :
    decimal (10 * n + d) = decimal n ++ [digit d] := by
  rw [decimal, ← Nat.toDigits_append_toDigits (by decide) hn hd, List.map_append,
    Nat.toDigits_of_lt_base hd, List.map_singleton, digitChar_eq hd, decimal]

theorem decimal_of_le {n : Nat} (hn : 10 ≤ n) :
    decimal n = decimal (n / 10) ++ [digit (n % 10)] := by
  rw [← decimal_snoc (Nat.div_pos hn (by decide)) (Nat.mod_lt _ (by decide)), Nat.div_add_mod]

theorem numeral_snoc (s : List UInt8) (b : UInt8) :
    numeral (s ++ [b]) = 10 * numeral s + (b.toNat - 48) := by
  rw [numeral, List.foldl_append]
  rfl

theorem length_decimal_le_iff {n k : Nat} (hk : 0 < k) :
    (decimal n).length ≤ k ↔ n < 10 ^ k := by
  rw [decimal, List.length_map, Nat.length_toDigits_le_iff (by decide) hk]

/-- A numeral as a number is written: no zero stands before another digit. -/
def Canonical (s : List UInt8) : Prop :=
  ¬ (1 < s.length ∧ s.head? = some 48)

theorem denotes_decimal (n : Nat) : Denotes (decimal n) n := by
  refine ⟨?_, fun b hb => isDigit_iff.mpr (isDigit_of_mem_decimal hb), ?_⟩
  · intro hnil
    have hpos : 0 < (Nat.toDigits 10 n).length := Nat.length_toDigits_pos
    rw [decimal, List.map_eq_nil_iff] at hnil
    rw [hnil] at hpos
    exact absurd hpos (Nat.lt_irrefl 0)
  · induction n using Nat.strong_induction_on with
    | h n ih =>
        by_cases hn : n < 10
        · rw [decimal_of_lt hn]
          change 10 * 0 + ((digit n).toNat - 48) = n
          rw [toNat_digit hn]
          omega
        · rw [decimal_of_le (not_lt.mp hn), numeral_snoc, ih (n / 10) (by omega),
            toNat_digit (Nat.mod_lt _ (by decide))]
          omega

theorem canonical_decimal (n : Nat) : Canonical (decimal n) := by
  induction n using Nat.strong_induction_on with
  | h n ih =>
      by_cases hn : n < 10
      · rw [decimal_of_lt hn]
        rintro ⟨hlong, -⟩
        exact absurd hlong (Nat.lt_irrefl 1)
      · rw [decimal_of_le (not_lt.mp hn)]
        rintro ⟨-, hzero⟩
        rw [List.head?_append_of_ne_nil _ (denotes_decimal (n / 10)).1] at hzero
        by_cases hsmall : n / 10 < 10
        · -- the head is the only digit of what comes before the last one
          rw [decimal_of_lt hsmall, List.head?_cons] at hzero
          have hvalue := congrArg UInt8.toNat (Option.some.inj hzero)
          rw [toNat_digit hsmall] at hvalue
          change 48 + n / 10 = 48 at hvalue
          omega
        · refine ih (n / 10) (by omega) ⟨?_, hzero⟩
          have hlong := (length_decimal_le_iff (n := n / 10) (Nat.succ_pos 0)).not
          rw [pow_one] at hlong
          exact Nat.not_le.mp (hlong.mpr hsmall)

/-- Only the numeral that is written denotes a number without a leading zero. -/
theorem eq_decimal_of_denotes {s : List UInt8} {n : Nat} (h : Denotes s n)
    (hcanonical : Canonical s) : s = decimal n := by
  obtain ⟨hne, hdigits, rfl⟩ := h
  induction s using List.reverseRecOn with
  | nil => exact absurd rfl hne
  | append_singleton s b ih =>
      have hb : isDigit b = true := hdigits b (List.mem_append_right _ List.mem_cons_self)
      obtain ⟨hlow, hhigh⟩ := isDigit_iff.mp hb
      rw [numeral_snoc]
      cases s with
      | nil =>
          change [b] = decimal (10 * 0 + (b.toNat - 48))
          rw [Nat.mul_zero, Nat.zero_add, decimal_of_lt (by omega), digit_of_isDigit hb]
      | cons a s =>
          have hhead : a ≠ 48 := by
            rintro rfl
            refine hcanonical ⟨?_, rfl⟩
            rw [List.length_append, List.length_cons, List.length_singleton]
            omega
          have hshort : a :: s = decimal (numeral (a :: s)) :=
            ih (fun hzero => hhead (Option.some.inj hzero.2)) (List.cons_ne_nil a s)
              fun c hc => hdigits c (List.mem_append_left _ hc)
          have hpos : 0 < numeral (a :: s) := by
            apply Nat.pos_of_ne_zero
            intro hzero
            rw [hzero, decimal_of_lt (by decide)] at hshort
            exact hhead (List.cons.inj hshort).1
          rw [decimal_snoc hpos (by omega), ← hshort, digit_of_isDigit hb]

end Decimal
