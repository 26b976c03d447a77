import Edriel.ReliablePublisher

namespace Edriel

namespace TokenBucket

def after (rate : Nat) : TokenBucket → List Int → TokenBucket
  | b, [] => b
  | b, now :: later => after rate (b.take rate now).2 later

def admitted (rate : Nat) : TokenBucket → List Int → List Int
  | _, [] => []
  | b, now :: later =>
      if (b.take rate now).1 then now :: admitted rate (b.take rate now).2 later
      else admitted rate (b.take rate now).2 later

theorem admitted_sublist (rate : Nat) (b : TokenBucket) (calls : List Int) :
    (admitted rate b calls).Sublist calls := by
  induction calls generalizing b with
  | nil => exact List.Sublist.slnil
  | cons now later ih =>
      rw [admitted]
      split
      · exact (ih _).cons_cons now
      · exact (ih _).cons now

/-- The bucket as the admission test sees it. -/
def settled (b : TokenBucket) (rate : Nat) (now : Int) : TokenBucket :=
  (b.primed rate now).refilled rate now

theorem take_eq (b : TokenBucket) (rate : Nat) (now : Int) :
    b.take rate now =
      if (b.settled rate now).tokens < 1 then (false, b.settled rate now)
      else (true, { b.settled rate now with tokens := (b.settled rate now).tokens - 1 }) :=
  rfl

/-- What accrues between the epoch and `now`. -/
def accrued (rate : Nat) (now : Int) : ℚ :=
  now / 1000000000 * rate

/-- What a bucket would hold had it been filling since the epoch. -/
def balance (rate : Nat) (b : TokenBucket) : ℚ :=
  b.tokens - accrued rate b.lastRefill

def Within (rate : Nat) (b : TokenBucket) : Prop :=
  0 ≤ b.tokens ∧ b.tokens ≤ rate

/-- A bucket between two calls: a token short of full, and not refilled later than the
next call. -/
structure Ready (rate : Nat) (b : TokenBucket) (now : Int) : Prop where
  tokens_nonneg : 0 ≤ b.tokens
  tokens_le : b.tokens ≤ rate - 1
  past : b.lastRefill ≠ 0 → b.lastRefill ≤ now

theorem ready_new {rate : Nat} (hrate : 1 ≤ rate) (now : Int) : Ready rate {} now := by
  have hcast : (1 : ℚ) ≤ rate := by exact_mod_cast hrate
  exact ⟨le_rfl, sub_nonneg.mpr hcast, fun h => absurd rfl h⟩

theorem Ready.mono {rate : Nat} {b : TokenBucket} {now later : Int} (h : Ready rate b now)
    (hle : now ≤ later) : Ready rate b later :=
  ⟨h.tokens_nonneg, h.tokens_le, fun hused => (h.past hused).trans hle⟩

theorem Ready.within {rate : Nat} {b : TokenBucket} {now : Int} (h : Ready rate b now) :
    Within rate b :=
  ⟨h.tokens_nonneg, h.tokens_le.trans (sub_le_self _ zero_le_one)⟩

theorem refill_eq (rate : Nat) (now last : Int) :
    ((now - last : Int) : ℚ) / 1000000000 * rate = accrued rate now - accrued rate last := by
  rw [accrued, accrued]
  push_cast
  ring

/-- A call finds the bucket new, credits a whole token or more, or leaves it alone. -/
theorem settled_cases (b : TokenBucket) (rate : Nat) (now : Int) :
    (b.lastRefill = 0 ∧ b.settled rate now = { tokens := rate, lastRefill := now }) ∨
      (b.lastRefill ≠ 0 ∧ 1 ≤ accrued rate now - accrued rate b.lastRefill ∧
        b.settled rate now =
          { tokens := min (b.tokens + (accrued rate now - accrued rate b.lastRefill)) rate
            lastRefill := now }) ∨
      (b.lastRefill ≠ 0 ∧ accrued rate now - accrued rate b.lastRefill < 1 ∧
        b.settled rate now = b) := by
  by_cases hnew : b.lastRefill = 0
  · left
    refine ⟨hnew, ?_⟩
    rw [settled, primed, if_pos hnew, refilled]
    simp only [sub_self]
    rw [if_neg (by norm_num)]
  · right
    have hprimed : b.primed rate now = b := if_neg hnew
    rw [settled, hprimed, refilled]
    simp only [refill_eq]
    split_ifs with hcredit
    · exact Or.inl ⟨hnew, hcredit, rfl⟩
    · exact Or.inr ⟨hnew, not_le.mp hcredit, rfl⟩

variable {rate : Nat} {b : TokenBucket} {now : Int}

theorem Ready.within_primed (h : Ready rate b now) : Within rate (b.primed rate now) := by
  rw [primed]
  split
  · exact ⟨Nat.cast_nonneg rate, le_rfl⟩
  · exact h.within

theorem Ready.within_settled (h : Ready rate b now) : Within rate (b.settled rate now) := by
  obtain ⟨-, heq⟩ | ⟨-, hcredit, heq⟩ | ⟨-, -, heq⟩ := b.settled_cases rate now
  · rw [heq]
    exact ⟨Nat.cast_nonneg rate, le_rfl⟩
  · rw [heq]
    have hsum : 0 ≤ b.tokens + (accrued rate now - accrued rate b.lastRefill) :=
      add_nonneg h.tokens_nonneg (zero_le_one.trans hcredit)
    exact ⟨le_min hsum (Nat.cast_nonneg rate), min_le_right _ _⟩
  · rw [heq]
    exact h.within

theorem Ready.settled_of_refused (hrate : 1 ≤ rate) (h : Ready rate b now)
    (hrefused : (b.settled rate now).tokens < 1) : b.settled rate now = b := by
  have hone : (1 : ℚ) ≤ rate := by exact_mod_cast hrate
  obtain ⟨-, heq⟩ | ⟨-, hcredit, heq⟩ | ⟨-, -, heq⟩ := b.settled_cases rate now
  · rw [heq] at hrefused
    exact absurd hrefused (not_lt.mpr hone)
  · rw [heq] at hrefused
    have hsum : 1 ≤ b.tokens + (accrued rate now - accrued rate b.lastRefill) :=
      hcredit.trans (le_add_of_nonneg_left h.tokens_nonneg)
    exact absurd hrefused (not_lt.mpr (le_min hsum hone))
  · exact heq

theorem Ready.lastRefill_settled (h : Ready rate b now) (hclock : now ≠ 0) :
    (b.settled rate now).lastRefill ≠ 0 ∧ (b.settled rate now).lastRefill ≤ now := by
  obtain ⟨-, heq⟩ | ⟨-, -, heq⟩ | ⟨hused, -, heq⟩ := b.settled_cases rate now
  · rw [heq]
    exact ⟨hclock, le_rfl⟩
  · rw [heq]
    exact ⟨hclock, le_rfl⟩
  · rw [heq]
    exact ⟨hused, h.past hused⟩

/-- Neither the tokens stored nor the time not yet credited put a bucket ahead of a full
one: what is uncredited is less than the token that a bucket is short of. -/
theorem Ready.balance_settled (h : Ready rate b now) :
    balance rate (b.settled rate now) ≤ rate - accrued rate now := by
  obtain ⟨-, heq⟩ | ⟨-, -, heq⟩ | ⟨-, huncredited, heq⟩ := b.settled_cases rate now
  · rw [heq, balance]
  · rw [heq, balance]
    exact sub_le_sub_right (min_le_right _ _) _
  · rw [heq, balance]
    have hshort := h.tokens_le
    linarith

theorem balance_settled_le (hused : b.lastRefill ≠ 0) :
    balance rate (b.settled rate now) ≤ balance rate b := by
  obtain ⟨hnew, -⟩ | ⟨-, -, heq⟩ | ⟨-, -, heq⟩ := b.settled_cases rate now
  · exact absurd hnew hused
  · rw [heq, balance, balance]
    have hcap := min_le_left (b.tokens + (accrued rate now - accrued rate b.lastRefill)) rate
    linarith
  · rw [heq]

theorem Ready.take (hrate : 1 ≤ rate) (h : Ready rate b now) (hclock : now ≠ 0) :
    Ready rate (b.take rate now).2 now ∧ (b.take rate now).2.lastRefill ≠ 0 := by
  obtain ⟨hused, hpast⟩ := h.lastRefill_settled hclock
  rw [take_eq]
  split_ifs with hrefused
  · have hsame := h.settled_of_refused hrate hrefused
    rw [hsame] at hused ⊢
    exact ⟨h, hused⟩
  · obtain ⟨-, hcap⟩ := h.within_settled
    exact ⟨⟨sub_nonneg.mpr (not_lt.mp hrefused), sub_le_sub_right hcap 1, fun _ => hpast⟩,
      hused⟩

theorem balance_take (b : TokenBucket) (rate : Nat) (now : Int) :
    balance rate (b.take rate now).2 =
      balance rate (b.settled rate now) - if (b.take rate now).1 then 1 else 0 := by
  rw [take_eq]
  by_cases hrefused : (b.settled rate now).tokens < 1
  · rw [if_pos hrefused, if_neg Bool.false_ne_true, sub_zero]
  · rw [if_neg hrefused, if_pos rfl, balance, balance]
    ring

def admittedIn (rate : Nat) (b : TokenBucket) (calls : List Int) (first last : ℚ) : Nat :=
  (admitted rate b calls).countP fun now : Int => decide (first ≤ now ∧ now ≤ last)

theorem admittedIn_nil (rate : Nat) (b : TokenBucket) (first last : ℚ) :
    admittedIn rate b [] first last = 0 :=
  rfl

theorem admittedIn_cons (rate : Nat) (b : TokenBucket) (now : Int) (later : List Int)
    (first last : ℚ) :
    admittedIn rate b (now :: later) first last =
      admittedIn rate (b.take rate now).2 later first last +
        if (b.take rate now).1 = true ∧ first ≤ now ∧ now ≤ last then 1 else 0 := by
  rw [admittedIn, admitted]
  by_cases hadmitted : (b.take rate now).1 = true
  · rw [if_pos hadmitted, List.countP_cons]
    simp only [hadmitted, true_and, decide_eq_true_eq]
    rfl
  · rw [if_neg hadmitted, if_neg (fun h => hadmitted h.1)]
    rfl

theorem admittedIn_cons_le (rate : Nat) (b : TokenBucket) (now : Int) (later : List Int)
    (first last : ℚ) :
    (admittedIn rate b (now :: later) first last : ℚ) ≤
      admittedIn rate (b.take rate now).2 later first last +
        if (b.take rate now).1 then 1 else 0 := by
  rw [admittedIn_cons]
  push_cast
  gcongr
  split_ifs with hcounted hadmitted hadmitted
  · exact le_rfl
  · exact absurd hcounted.1 hadmitted
  · exact zero_le_one
  · exact le_rfl

theorem admittedIn_of_late {now : Int} {later : List Int} {first last : ℚ}
    (hsorted : (now :: later).Pairwise (· ≤ ·)) (hlate : last < now) :
    admittedIn rate b (now :: later) first last = 0 := by
  rw [admittedIn, List.countP_eq_zero]
  intro t hmem hcounted
  have hge : now ≤ t := by
    rcases List.mem_cons.mp ((admitted_sublist rate b (now :: later)).subset hmem) with rfl | ht
    · exact le_rfl
    · exact (List.pairwise_cons.mp hsorted).1 t ht
  have hpast : last < t := hlate.trans_le (by exact_mod_cast hge)
  exact absurd (of_decide_eq_true hcounted).2 (not_le.mpr hpast)

theorem Ready.lastRefill_le {now : Int} (h : Ready rate b now) (hused : b.lastRefill ≠ 0)
    {last : ℚ} (hlast : now ≤ last) : (b.lastRefill : ℚ) ≤ last := by
  have hpast : (b.lastRefill : ℚ) ≤ now := by exact_mod_cast h.past hused
  exact hpast.trans hlast

/-- The calls that a used bucket admits until a moment are paid from its balance. -/
theorem admittedIn_le_balance (hrate : 1 ≤ rate) {calls : List Int}
    (hsorted : calls.Pairwise (· ≤ ·)) (hclock : ∀ now ∈ calls, now ≠ 0)
    (hready : ∀ now ∈ calls, Ready rate b now) (hused : b.lastRefill ≠ 0)
    (htokens : 0 ≤ b.tokens) (first : ℚ) {last : ℚ} (hlast : b.lastRefill ≤ last) :
    (admittedIn rate b calls first last : ℚ) ≤
      balance rate b + last / 1000000000 * rate := by
  have hnonneg : ∀ {b : TokenBucket}, 0 ≤ b.tokens → b.lastRefill ≤ last →
      0 ≤ balance rate b + last / 1000000000 * rate := by
    intro b htokens hlast
    have haccrued : accrued rate b.lastRefill ≤ last / 1000000000 * rate := by
      rw [accrued]
      gcongr
    rw [balance]
    linarith
  induction calls generalizing b with
  | nil =>
      rw [admittedIn_nil, Nat.cast_zero]
      exact hnonneg htokens hlast
  | cons now later ih =>
      obtain ⟨hnow, hclock⟩ := List.forall_mem_cons.mp hclock
      obtain ⟨hready, -⟩ := List.forall_mem_cons.mp hready
      by_cases hlate : last < now
      · rw [admittedIn_of_late hsorted hlate, Nat.cast_zero]
        exact hnonneg htokens hlast
      · obtain ⟨hfirst, hsorted⟩ := List.pairwise_cons.mp hsorted
        obtain ⟨hready', hused'⟩ := hready.take hrate hnow
        have hrest := ih hsorted hclock (fun t ht => hready'.mono (hfirst t ht)) hused'
          hready'.tokens_nonneg (hready'.lastRefill_le hused' (not_lt.mp hlate))
        have hcount := admittedIn_cons_le rate b now later first last
        have hpaid := balance_take b rate now
        have hrefill : balance rate (b.settled rate now) ≤ balance rate b :=
          balance_settled_le hused
        linarith

theorem admittedIn_le (hrate : 1 ≤ rate) {calls : List Int}
    (hsorted : calls.Pairwise (· ≤ ·)) (hclock : ∀ now ∈ calls, now ≠ 0)
    (hready : ∀ now ∈ calls, Ready rate b now) {first last : ℚ} (hle : first ≤ last) :
    (admittedIn rate b calls first last : ℚ) ≤
      rate - first / 1000000000 * rate + last / 1000000000 * rate := by
  have hcap : (0 : ℚ) ≤ rate - first / 1000000000 * rate + last / 1000000000 * rate := by
    have hspan : first / 1000000000 * rate ≤ last / 1000000000 * rate := by gcongr
    have hnonneg : (0 : ℚ) ≤ rate := Nat.cast_nonneg rate
    linarith
  induction calls generalizing b with
  | nil =>
      rw [admittedIn_nil, Nat.cast_zero]
      exact hcap
  | cons now later ih =>
      obtain ⟨hfirst, htail⟩ := List.pairwise_cons.mp hsorted
      obtain ⟨hnow, hclock⟩ := List.forall_mem_cons.mp hclock
      obtain ⟨hready, -⟩ := List.forall_mem_cons.mp hready
      obtain ⟨hready', hused'⟩ := hready.take hrate hnow
      have hreadies : ∀ t ∈ later, Ready rate (b.take rate now).2 t :=
        fun t ht => hready'.mono (hfirst t ht)
      by_cases hearly : (now : ℚ) < first
      · -- the window is still to come
        rw [admittedIn_cons, if_neg (fun h => absurd h.2.1 (not_le.mpr hearly)), add_zero]
        exact ih htail hclock hreadies
      · by_cases hlate : last < now
        · rw [admittedIn_of_late hsorted hlate, Nat.cast_zero]
          exact hcap
        · -- the first call of the window fixes what it can spend
          have hrest := admittedIn_le_balance hrate htail hclock hreadies hused'
            hready'.tokens_nonneg first (hready'.lastRefill_le hused' (not_lt.mp hlate))
          have hcount := admittedIn_cons_le rate b now later first last
          have hpaid := balance_take b rate now
          have hfull := hready.balance_settled
          have hstart : first / 1000000000 * rate ≤ accrued rate now := by
            rw [accrued]
            gcongr
            exact not_lt.mp hearly
          linarith

theorem ready_after (hrate : 1 ≤ rate) {before : List Int} {now : Int}
    (hsorted : (before ++ [now]).Pairwise (· ≤ ·)) (hclock : ∀ t ∈ before ++ [now], t ≠ 0)
    (hready : ∀ t ∈ before ++ [now], Ready rate b t) :
    Ready rate (after rate b before) now := by
  induction before generalizing b with
  | nil => exact hready now List.mem_cons_self
  | cons t before ih =>
      obtain ⟨hfirst, hsorted⟩ := List.pairwise_cons.mp hsorted
      obtain ⟨hnow, hclock⟩ := List.forall_mem_cons.mp hclock
      obtain ⟨hready, -⟩ := List.forall_mem_cons.mp hready
      exact ih hsorted hclock fun t' ht' => ((hready.take hrate hnow).1).mono (hfirst t' ht')

end TokenBucket

open TokenBucket

/-- A window of `T` seconds admits at most `rate * (T + 1)` calls, wherever it begins, and
the token count is in range at every point of every call. -/
theorem pacing_ceiling {rate : Nat} (hrate : 1 ≤ rate) {calls : List Int}
    (hsorted : calls.Pairwise (· ≤ ·)) (hclock : ∀ now ∈ calls, now ≠ 0) :
    (∀ start T : ℚ, 0 ≤ T →
      (admittedIn rate {} calls start (start + T * 1000000000) : ℚ) ≤ rate * (T + 1)) ∧
      ∀ before now later, calls = before ++ now :: later →
        Within rate (after rate {} before) ∧
          Within rate ((after rate {} before).primed rate now) ∧
          Within rate (((after rate {} before).primed rate now).refilled rate now) ∧
          Within rate ((after rate {} before).take rate now).2 := by
  constructor
  · intro start T hT
    have hle : start ≤ start + T * 1000000000 :=
      le_add_of_nonneg_right (mul_nonneg hT (by norm_num))
    calc (admittedIn rate {} calls start (start + T * 1000000000) : ℚ)
        ≤ rate - start / 1000000000 * rate +
            (start + T * 1000000000) / 1000000000 * rate :=
          admittedIn_le hrate hsorted hclock (fun now _ => ready_new hrate now) hle
      _ = rate * (T + 1) := by ring
  · intro before now later hcalls
    have hupTo : (before ++ [now]).Sublist calls := by
      rw [hcalls]
      exact (List.Sublist.refl before).append ((List.nil_sublist later).cons_cons now)
    have hready : Ready rate (after rate {} before) now :=
      ready_after hrate (hsorted.sublist hupTo) (fun t ht => hclock t (hupTo.subset ht))
        fun t _ => ready_new hrate t
    have hnow : now ≠ 0 := hclock now (hcalls ▸ List.mem_append_right _ List.mem_cons_self)
    exact ⟨hready.within, hready.within_primed, hready.within_settled,
      (hready.take hrate hnow).1.within⟩

/-- The ceiling is reached by two calls a second apart. -/
theorem pacing_ceiling_one :
    (admittedIn 1 {} [1, 1, 1000000001] 1 (1 + 1 * 1000000000) : ℚ) ≤ (1 : Nat) * (1 + 1) ∧
      admittedIn 1 {} [1, 1, 1000000001] 1 (1 + 1 * 1000000000) = 2 :=
  have hsorted : [(1 : Int), 1, 1000000001].Pairwise (· ≤ ·) := by decide
  ⟨(pacing_ceiling le_rfl hsorted (by decide)).1 1 1 zero_le_one, by decide +kernel⟩

end Edriel
