import Edriel.Lib.Proto3

namespace Text

open Proto3

/-- `std::to_string` of an unsigned number, as ASCII bytes. -/
def decimal (n : Nat) : Bytes :=
  (Nat.toDigits 10 n).map fun c => UInt8.ofNat c.toNat

theorem digit_toNat {c : Char} (hc : c.isDigit = true) :
    48 ≤ c.toNat ∧ c.toNat ≤ 57 := by
  simp only [Char.isDigit, Bool.and_eq_true, decide_eq_true_eq, ge_iff_le,
    UInt32.le_iff_toNat_le] at hc
  exact hc

theorem isDigit_of_mem_decimal {n : Nat} {b : UInt8} (hb : b ∈ decimal n) :
    48 ≤ b.toNat ∧ b.toNat ≤ 57 := by
  obtain ⟨c, hc, rfl⟩ := List.mem_map.mp hb
  have hdigit := digit_toNat
    (Nat.isDigit_of_mem_toDigits (by decide) (by decide) hc)
  rw [UInt8.toNat_ofNat']
  omega

theorem decimal_injective : Function.Injective decimal := by
  intro m n h
  have hback : ∀ k, (decimal k).map (fun b => Char.ofNat b.toNat) = Nat.toDigits 10 k := by
    intro k
    rw [decimal, List.map_map]
    conv_rhs => rw [← List.map_id (Nat.toDigits 10 k)]
    apply List.map_congr_left
    intro c hc
    have hdigit := digit_toNat
      (Nat.isDigit_of_mem_toDigits (by decide) (by decide) hc)
    have hbyte : (UInt8.ofNat c.toNat).toNat = c.toNat := by
      rw [UInt8.toNat_ofNat']
      omega
    simp [hbyte]
  have hdigits : Nat.toDigits 10 m = Nat.toDigits 10 n := by
    rw [← hback m, ← hback n, h]
  rw [← Nat.ofDigitChars_ten_toDigits (n := m), hdigits,
    Nat.ofDigitChars_ten_toDigits]

variable {α : Type*}

theorem cut_first {sep : α} {a b x y : List α} (ha : sep ∉ a) (hb : sep ∉ b)
    (h : a ++ sep :: x = b ++ sep :: y) : a = b ∧ x = y := by
  induction a generalizing b with
  | nil =>
      cases b with
      | nil => exact ⟨rfl, by simpa using h⟩
      | cons c b =>
          obtain ⟨rfl, -⟩ := List.cons.inj h
          simp at hb
  | cons c a ih =>
      cases b with
      | nil =>
          obtain ⟨rfl, -⟩ := List.cons.inj h
          simp at ha
      | cons d b =>
          obtain ⟨rfl, htail⟩ := List.cons.inj h
          obtain ⟨rfl, rfl⟩ := ih (fun hm => ha (by simp [hm]))
            (fun hm => hb (by simp [hm])) htail
          exact ⟨rfl, rfl⟩

theorem cut_last {sep : α} {a b x y : List α} (hx : sep ∉ x) (hy : sep ∉ y)
    (h : a ++ sep :: x = b ++ sep :: y) : a = b ∧ x = y := by
  have hrev : x.reverse ++ sep :: a.reverse = y.reverse ++ sep :: b.reverse := by
    simpa using congrArg List.reverse h
  obtain ⟨hxy, hab⟩ := cut_first (by simpa using hx) (by simpa using hy) hrev
  exact ⟨List.reverse_inj.mp hab, List.reverse_inj.mp hxy⟩

theorem decimal_isPrefixOf_iff {sep : UInt8} (hsep : sep.toNat < 48 ∨ 57 < sep.toNat)
    (m n : Nat) (rest : Bytes) :
    (decimal m ++ [sep]).isPrefixOf (decimal n ++ sep :: rest) = true ↔ m = n := by
  have hnotMem : ∀ k, sep ∉ decimal k := by
    intro k hmem
    have := isDigit_of_mem_decimal hmem
    omega
  rw [List.isPrefixOf_iff_prefix]
  constructor
  · rintro ⟨tail, htail⟩
    rw [List.append_assoc, List.singleton_append] at htail
    exact decimal_injective (cut_first (hnotMem m) (hnotMem n) htail).1
  · rintro rfl
    exact ⟨rest, by simp⟩

end Text
