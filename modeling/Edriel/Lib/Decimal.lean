import Mathlib

namespace Decimal

def isDigit (b : UInt8) : Bool :=
  decide (48 ≤ b) && decide (b ≤ 57)

/-- The number that a string of digits denotes. -/
def numeral (digits : List UInt8) : Nat :=
  digits.foldl (fun n b => 10 * n + (b.toNat - 48)) 0

inductive Errc where
  | invalidArgument
  | resultOutOfRange
deriving DecidableEq

/-- Where the reader stopped, and what went wrong; the target keeps its zero when something
did. -/
structure Reading where
  rest : List UInt8
  ec : Option Errc
  value : UInt64
deriving DecidableEq

/-- `std::from_chars` into an unsigned 64-bit integer, base ten: all leading digits are
consumed, and neither a sign nor a blank is skipped. -/
def fromChars (s : List UInt8) : Reading :=
  let digits := s.takeWhile isDigit
  let rest := s.dropWhile isDigit
  if digits = [] then ⟨s, some .invalidArgument, 0⟩
  else if numeral digits < 2 ^ 64 then ⟨rest, none, UInt64.ofNat (numeral digits)⟩
  else ⟨rest, some .resultOutOfRange, 0⟩

/-- The whole string is a decimal number. -/
def Denotes (s : List UInt8) (n : Nat) : Prop :=
  s ≠ [] ∧ (∀ b ∈ s, isDigit b = true) ∧ numeral s = n

instance (s : List UInt8) (n : Nat) : Decidable (Denotes s n) :=
  inferInstanceAs (Decidable (_ ∧ _))

theorem Denotes.unique {s : List UInt8} {m n : Nat} (hm : Denotes s m) (hn : Denotes s n) :
    m = n :=
  hm.2.2.symm.trans hn.2.2

theorem fromChars_of_denotes {s : List UInt8} {n : Nat} (h : Denotes s n) :
    fromChars s =
      if n < 2 ^ 64 then ⟨[], none, UInt64.ofNat n⟩
      else ⟨[], some .resultOutOfRange, 0⟩ := by
  obtain ⟨hne, hdigits, rfl⟩ := h
  have htake : s.takeWhile isDigit = s := List.takeWhile_eq_self_iff.mpr hdigits
  have hdrop : s.dropWhile isDigit = [] := List.dropWhile_eq_nil_iff.mpr hdigits
  rw [fromChars, htake, hdrop, if_neg hne]

/-- A reading that consumes the whole string without an error is of a decimal number. -/
theorem denotes_of_fromChars {s : List UInt8} (hec : (fromChars s).ec = none)
    (hrest : (fromChars s).rest = []) :
    Denotes s (fromChars s).value.toNat ∧ numeral s < 2 ^ 64 := by
  have hdrop : s.dropWhile isDigit = [] := by
    rw [fromChars] at hec hrest
    split_ifs at hec hrest
    exact hrest
  have hdigits : ∀ b ∈ s, isDigit b = true := List.dropWhile_eq_nil_iff.mp hdrop
  have hne : s ≠ [] := by
    rintro rfl
    cases hec
  have hself : Denotes s (numeral s) := ⟨hne, hdigits, rfl⟩
  have hread := fromChars_of_denotes hself
  by_cases hlt : numeral s < 2 ^ 64
  · rw [if_pos hlt] at hread
    rw [hread]
    exact ⟨⟨hne, hdigits, (UInt64.toNat_ofNat_of_lt' hlt).symm⟩, hlt⟩
  · rw [if_neg hlt] at hread
    rw [hread] at hec
    cases hec

/-- A reader that takes whole strings only and checks the number that they denote. -/
def readWhole {α : Type*} (accepts : UInt64 → Bool) (convert : UInt64 → α)
    (value : List UInt8) (fallback : α) : α :=
  let r := fromChars value
  if r.ec ≠ none ∨ r.rest ≠ [] ∨ accepts r.value = false then fallback else convert r.value

section ReadWhole

variable {α : Type*} {accepts : UInt64 → Bool} {convert : UInt64 → α} {s : List UInt8}
  {fallback : α}

theorem readWhole_of_denotes {n : Nat} (h : Denotes s n) (hlt : n < 2 ^ 64) :
    readWhole accepts convert s fallback =
      if accepts (UInt64.ofNat n) then convert (UInt64.ofNat n) else fallback := by
  have hread := fromChars_of_denotes h
  rw [if_pos hlt] at hread
  rw [readWhole, hread]
  cases haccepts : accepts (UInt64.ofNat n) with
  | true => simp
  | false => simp

theorem readWhole_of_not_denotes (h : ∀ n, n < 2 ^ 64 → ¬ Denotes s n) :
    readWhole accepts convert s fallback = fallback := by
  rw [readWhole]
  apply if_pos
  by_contra hwhole
  push Not at hwhole
  obtain ⟨hec, hrest, -⟩ := hwhole
  obtain ⟨hdenotes, hlt⟩ := denotes_of_fromChars hec hrest
  rw [hdenotes.2.2] at hlt
  exact h _ hlt hdenotes

end ReadWhole

end Decimal
