import Mathlib

namespace Interleaving

universe u v w

variable {σ : Type u} {ε : Type v} {α : Type w}

/-- The event lists and end states of the runs of a transition relation from
`s₀`.  The newest event stands last. -/
inductive Trace (R : σ → ε → σ → Prop) (s₀ : σ) : List ε → σ → Prop
  | nil : Trace R s₀ [] s₀
  | snoc {evs : List ε} {s : σ} {e : ε} {s' : σ} :
      Trace R s₀ evs s → R s e s' → Trace R s₀ (evs ++ [e]) s'

/-- The transitions of an executable step function, which takes an action and
answers `none` where the action is not enabled.  Only actions that are allowed in
the state they are taken in count. -/
def StepsWhere (ok : σ → α → Prop) (step : σ → α → Option (ε × σ)) :
    σ → ε → σ → Prop :=
  fun s e s' => ∃ a, ok s a ∧ step s a = some (e, s')

abbrev Steps (step : σ → α → Option (ε × σ)) : σ → ε → σ → Prop :=
  StepsWhere (fun _ _ => True) step

namespace Trace

variable {R : σ → ε → σ → Prop} {s₀ : σ}

/-- The invariant rule.  A step may use that its source is itself reached, so
invariants proved earlier are available in the proof of a later one. -/
theorem invariant {P : List ε → σ → Prop} (hinit : P [] s₀)
    (hstep : ∀ evs s e s', Trace R s₀ evs s → P evs s → R s e s' → P (evs ++ [e]) s')
    {evs : List ε} {s : σ} (h : Trace R s₀ evs s) : P evs s := by
  induction h with
  | nil => exact hinit
  | snoc hprev hR ih => exact hstep _ _ _ _ hprev ih hR

theorem append {evs₁ evs₂ : List ε} {s₁ s₂ : σ} (h₁ : Trace R s₀ evs₁ s₁)
    (h₂ : Trace R s₁ evs₂ s₂) : Trace R s₀ (evs₁ ++ evs₂) s₂ := by
  induction h₂ with
  | nil => simpa using h₁
  | snoc _ hR ih =>
      rw [← List.append_assoc]
      exact ih.snoc hR

theorem single {e : ε} {s : σ} (h : R s₀ e s) : Trace R s₀ [e] s :=
  (nil (R := R)).snoc h

theorem of_single {e : ε} {s : σ} (h : Trace R s₀ [e] s) : R s₀ e s := by
  generalize hall : [e] = all at h
  cases h with
  | nil => simp at hall
  | snoc hprev hR =>
      obtain ⟨rfl, hlast⟩ := List.append_inj' ((List.nil_append [e]).trans hall) rfl
      obtain rfl : e = _ := by simpa using hlast
      generalize hnone : ([] : List ε) = none' at hprev
      cases hprev with
      | nil => exact hR
      | snoc _ _ => simp at hnone

theorem split {evs₁ evs₂ : List ε} {s : σ} (h : Trace R s₀ (evs₁ ++ evs₂) s) :
    ∃ m, Trace R s₀ evs₁ m ∧ Trace R m evs₂ s := by
  induction evs₂ using List.reverseRecOn generalizing s with
  | nil => exact ⟨s, by simpa using h, nil⟩
  | append_singleton evs e ih =>
      rw [← List.append_assoc] at h
      generalize hall : (evs₁ ++ evs) ++ [e] = all at h
      cases h with
      | nil => simp at hall
      | snoc hprev hR =>
          obtain ⟨rfl, hlast⟩ := List.append_inj' hall rfl
          obtain rfl : e = _ := by simpa using hlast
          obtain ⟨m, hm₁, hm₂⟩ := ih hprev
          exact ⟨m, hm₁, hm₂.snoc hR⟩

theorem mono {Q : σ → ε → σ → Prop} (hR : ∀ s e s', R s e s' → Q s e s') {evs : List ε}
    {s : σ} (h : Trace R s₀ evs s) : Trace Q s₀ evs s := by
  induction h with
  | nil => exact .nil
  | snoc _ hstep ih => exact ih.snoc (hR _ _ _ hstep)

/-- Follow one part of a composed system: where every step of the whole moves
the part along a run of its own, a run of the whole is a run of the part. -/
theorem project {τ : Type*} {δ : Type*} {Q : τ → δ → τ → Prop} (part : σ → τ)
    (view : ε → List δ)
    (hstep : ∀ evs s e s', Trace R s₀ evs s → R s e s' →
      Trace Q (part s) (view e) (part s'))
    {evs : List ε} {s : σ} (h : Trace R s₀ evs s) :
    Trace Q (part s₀) (evs.flatMap view) (part s) := by
  induction h with
  | nil => exact nil
  | snoc hprev hR ih =>
      rw [List.flatMap_append]
      simpa using ih.append (hstep _ _ _ _ hprev hR)

end Trace

/-- A run under a restriction is a run. -/
theorem Trace.unrestricted {step : σ → α → Option (ε × σ)} {ok : σ → α → Prop} {s₀ : σ}
    {evs : List ε} {s : σ} (h : Trace (StepsWhere ok step) s₀ evs s) :
    Trace (Steps step) s₀ evs s :=
  h.mono fun _ _ _ ⟨a, _, hstep⟩ => ⟨a, trivial, hstep⟩

def exec (step : σ → α → Option (ε × σ)) : σ → List α → Option (List ε × σ)
  | s, [] => some ([], s)
  | s, a :: as =>
      match step s a with
      | none => none
      | some (e, s') => (exec step s' as).map fun p => (e :: p.1, p.2)

/-- A run whose actions are all allowed where they are taken, by an invariant of the run. -/
theorem trace_of_exec_of_kept {step : σ → α → Option (ε × σ)} {ok : σ → α → Prop}
    (P : σ → Prop) {as : List α} {s : σ} {evs : List ε} {s' : σ}
    (hkept : ∀ a ∈ as, ∀ s e s', P s → step s a = some (e, s') → ok s a ∧ P s')
    (hs : P s) (h : exec step s as = some (evs, s')) : Trace (StepsWhere ok step) s evs s' := by
  induction as generalizing s evs with
  | nil =>
      obtain ⟨rfl, rfl⟩ : [] = evs ∧ s = s' := by simpa [exec] using h
      exact .nil
  | cons a as ih =>
      rw [exec] at h
      split at h
      · cases h
      · rename_i e m hstep
        obtain ⟨⟨rest, _⟩, hrest, hp⟩ := Option.map_eq_some_iff.mp h
        obtain ⟨rfl, rfl⟩ : e :: rest = evs ∧ _ = s' := by simpa using hp
        obtain ⟨hallowed, hm⟩ := hkept a (by simp) s e m hs hstep
        have hfirst : StepsWhere ok step s e m := ⟨a, hallowed, hstep⟩
        exact (Trace.single hfirst).append
          (ih (fun b hb => hkept b (by simp [hb])) hm hrest)

theorem trace_of_exec {step : σ → α → Option (ε × σ)} {ok : σ → α → Prop}
    {as : List α} {s : σ} {evs : List ε} {s' : σ}
    (hok : ∀ a ∈ as, ∀ s, ok s a) (h : exec step s as = some (evs, s')) :
    Trace (StepsWhere ok step) s evs s' :=
  trace_of_exec_of_kept (fun _ => True) (fun a ha s _ _ _ _ => ⟨hok a ha s, trivial⟩) trivial h

def logged (step : σ → α → Option (ε × σ)) (s : σ) (a : α) : Option ((α × ε) × σ) :=
  (step s a).map fun p => ((a, p.1), p.2)

theorem step_of_logged {step : σ → α → Option (ε × σ)} {s s' : σ} {a : α} {x : α × ε}
    (h : logged step s a = some (x, s')) : x.1 = a ∧ step s a = some (x.2, s') := by
  obtain ⟨⟨e, _⟩, hstep, hp⟩ := Option.map_eq_some_iff.mp h
  obtain ⟨rfl, rfl⟩ := Prod.mk.inj hp
  exact ⟨rfl, hstep⟩

theorem Trace.unlogged {step : σ → α → Option (ε × σ)} {ok : σ → α → Prop} {s₀ : σ}
    {log : List (α × ε)} {s : σ} (h : Trace (StepsWhere ok (logged step)) s₀ log s) :
    Trace (StepsWhere ok step) s₀ (log.map Prod.snd) s := by
  induction h with
  | nil => exact .nil
  | snoc _ hR ih =>
      obtain ⟨a, hok, hstep⟩ := hR
      rw [List.map_append]
      exact ih.snoc ⟨a, hok, (step_of_logged hstep).2⟩

def guarded (test : σ → α → Bool) (step : σ → α → Option (ε × σ)) (s : σ) (a : α) :
    Option (ε × σ) :=
  if test s a then step s a else none

theorem Trace.of_guarded {test : σ → α → Bool} {step : σ → α → Option (ε × σ)} {s₀ : σ}
    {evs : List ε} {s : σ} (h : Trace (Steps (guarded test step)) s₀ evs s) :
    Trace (StepsWhere (fun s a => test s a = true) step) s₀ evs s := by
  refine h.mono ?_
  rintro s e s' ⟨a, -, hstep⟩
  rw [guarded] at hstep
  split at hstep
  · exact ⟨a, ‹_›, hstep⟩
  · cases hstep

/-! A pool of threads is the list of their program points.  Running thread `i`
takes its point out of the pool and puts the points it goes on to back in. -/

variable {τ : Type*}

/-- The program point of thread `i` and the pool without it. -/
def pick (i : Nat) (pool : List τ) : Option (τ × List τ) :=
  pool[i]?.map fun t => (t, pool.eraseIdx i)

theorem perm_of_pick {i : Nat} {pool : List τ} {t : τ} {rest : List τ}
    (h : pick i pool = some (t, rest)) : pool.Perm (t :: rest) := by
  obtain ⟨t', ht', heq⟩ := Option.map_eq_some_iff.mp h
  obtain ⟨rfl, rfl⟩ : t' = t ∧ pool.eraseIdx i = rest := by simpa using heq
  obtain ⟨hi, rfl⟩ := List.getElem?_eq_some_iff.mp ht'
  exact (List.getElem_cons_eraseIdx_perm hi).symm

theorem mem_of_pick {i : Nat} {pool : List τ} {t : τ} {rest : List τ}
    (h : pick i pool = some (t, rest)) {x : τ} : x ∈ pool ↔ x = t ∨ x ∈ rest := by
  rw [(perm_of_pick h).mem_iff, List.mem_cons]

theorem exists_pick_of_mem {pool : List τ} {t : τ} (h : t ∈ pool) :
    ∃ i rest, pick i pool = some (t, rest) := by
  obtain ⟨i, hi⟩ := List.mem_iff_getElem?.mp h
  exact ⟨i, pool.eraseIdx i, by rw [pick, hi, Option.map_some]⟩

theorem countP_of_pick {i : Nat} {pool : List τ} {t : τ} {rest : List τ}
    (h : pick i pool = some (t, rest)) (p : τ → Bool) :
    pool.countP p = rest.countP p + if p t then 1 else 0 := by
  rw [(perm_of_pick h).countP_eq, List.countP_cons]

@[simp] theorem pick_zero_cons (t : τ) (rest : List τ) :
    pick 0 (t :: rest) = some (t, rest) := by
  simp [pick]

/-- All that a machine puts out on a list of events. -/
def outputs {β : Type*} (step : σ → ε → σ) (out : σ → ε → List β) : σ → List ε → List β
  | _, [] => []
  | s, e :: es => out s e ++ outputs step out (step s e) es

/-- Where the foreign events neither show nor change what is seen, and the own events
show and change it alike in states that look alike, a run looks like its own events. -/
theorem unwind {β : Type*} {step : σ → ε → σ} {out : σ → ε → List β} {own : ε → Bool}
    {Same : σ → σ → Prop}
    (hforeign : ∀ s t e, own e = false → Same s t → Same (step s e) t ∧ out s e = [])
    (hown : ∀ s t e, own e = true → Same s t →
      Same (step s e) (step t e) ∧ out s e = out t e)
    (es : List ε) {s t : σ} (h : Same s t) :
    Same (es.foldl step s) ((es.filter own).foldl step t) ∧
      outputs step out s es = outputs step out t (es.filter own) := by
  induction es generalizing s t with
  | nil => exact ⟨h, rfl⟩
  | cons e es ih =>
      cases he : own e with
      | false =>
          obtain ⟨hsame, hout⟩ := hforeign s t e he h
          rw [List.filter_cons_of_neg (by simp [he]), outputs, hout]
          exact ih hsame
      | true =>
          obtain ⟨hsame, hout⟩ := hown s t e he h
          obtain ⟨hrun, houts⟩ := ih hsame
          rw [List.filter_cons_of_pos he, outputs, outputs, hout, houts]
          exact ⟨hrun, rfl⟩

/-- Some event of the history is a start, and no event after it is an end.  Whether an
event is an end may depend on the history before it. -/
def Since (start : ε → Prop) (ends : List ε → ε → Prop) (evs : List ε) : Prop :=
  ∃ before e after, evs = before ++ e :: after ∧ start e ∧
    ∀ mid e' rest, after = mid ++ e' :: rest → ¬ ends (before ++ e :: mid) e'

theorem not_since_nil {start : ε → Prop} {ends : List ε → ε → Prop} :
    ¬ Since start ends [] := by
  rintro ⟨before, e, after, h, -⟩
  simp at h

theorem since_concat {start : ε → Prop} {ends : List ε → ε → Prop} {evs : List ε} {e : ε} :
    Since start ends (evs ++ [e]) ↔ start e ∨ Since start ends evs ∧ ¬ ends evs e := by
  constructor
  · rintro ⟨before, e₀, after, hevs, hstart, hends⟩
    rcases List.eq_nil_or_concat after with rfl | ⟨after, x, rfl⟩
    · obtain ⟨-, hlast⟩ := List.append_inj' hevs rfl
      obtain rfl : e = e₀ := by simpa using hlast
      exact .inl hstart
    · rw [List.concat_eq_append] at hevs hends
      rw [← List.cons_append, ← List.append_assoc] at hevs
      obtain ⟨rfl, hlast⟩ := List.append_inj' hevs rfl
      obtain rfl : e = x := by simpa using hlast
      refine .inr ⟨⟨before, e₀, after, rfl, hstart, ?_⟩, hends after e [] rfl⟩
      rintro mid e' rest rfl
      exact hends mid e' (rest ++ [e]) (by simp)
  · rintro (hstart | ⟨⟨before, e₀, after, rfl, hstart, hends⟩, hnot⟩)
    · refine ⟨evs, e, [], rfl, hstart, ?_⟩
      intro mid e' rest h
      simp at h
    · refine ⟨before, e₀, after ++ [e], by simp, hstart, ?_⟩
      intro mid e' rest h
      rcases List.eq_nil_or_concat rest with rfl | ⟨rest, x, rfl⟩
      · obtain ⟨rfl, hlast⟩ := List.append_inj' h rfl
        obtain rfl : e = e' := by simpa using hlast
        exact hnot
      · rw [List.concat_eq_append, ← List.cons_append, ← List.append_assoc] at h
        obtain ⟨rfl, -⟩ := List.append_inj' h rfl
        exact hends mid e' rest rfl

/-- `m` runs the sections of two threads, each thread's own in their order. -/
inductive Shuffle : List α → List α → List α → Prop
  | nil : Shuffle [] [] []
  | left {a : α} {l r m : List α} : Shuffle l r m → Shuffle (a :: l) r (a :: m)
  | right {a : α} {l r m : List α} : Shuffle l r m → Shuffle l (a :: r) (a :: m)

theorem shuffle_nil_right {l m : List α} : Shuffle l [] m ↔ m = l := by
  constructor
  · intro h
    generalize hr : ([] : List α) = r at h
    induction h with
    | nil => rfl
    | left _ ih => rw [ih hr]
    | right _ _ => cases hr
  · rintro rfl
    induction m with
    | nil => exact .nil
    | cons a m ih => exact ih.left

theorem shuffle_cons_right {l r m : List α} {b : α} :
    Shuffle l (b :: r) m ↔
      ∃ l₁ l₂ m₂, l = l₁ ++ l₂ ∧ m = l₁ ++ b :: m₂ ∧ Shuffle l₂ r m₂ := by
  constructor
  · intro h
    generalize hr : b :: r = r' at h
    induction h with
    | nil => cases hr
    | @left a l _ m _ ih =>
        obtain ⟨l₁, l₂, m₂, rfl, rfl, hrest⟩ := ih hr
        exact ⟨a :: l₁, l₂, m₂, rfl, rfl, hrest⟩
    | @right a l _ m hrest _ =>
        obtain ⟨rfl, rfl⟩ := List.cons.inj hr
        exact ⟨[], l, m, rfl, rfl, hrest⟩
  · rintro ⟨l₁, l₂, m₂, rfl, rfl, hrest⟩
    induction l₁ with
    | nil => exact hrest.right
    | cons a l₁ ih => exact ih.left

theorem shuffle_singleton {l m : List α} {b : α} :
    Shuffle l [b] m ↔ ∃ l₁ l₂, l = l₁ ++ l₂ ∧ m = l₁ ++ b :: l₂ := by
  rw [shuffle_cons_right]
  constructor
  · rintro ⟨l₁, l₂, m₂, hl, hm, hrest⟩
    rw [shuffle_nil_right.mp hrest] at hm
    exact ⟨l₁, l₂, hl, hm⟩
  · rintro ⟨l₁, l₂, hl, hm⟩
    exact ⟨l₁, l₂, l₂, hl, hm, shuffle_nil_right.mpr rfl⟩

theorem shuffle_pair {l m : List α} {b c : α} :
    Shuffle l [b, c] m ↔
      ∃ l₁ l₂ l₃, l = l₁ ++ (l₂ ++ l₃) ∧ m = l₁ ++ b :: (l₂ ++ c :: l₃) := by
  rw [shuffle_cons_right]
  constructor
  · rintro ⟨l₁, l', m', rfl, rfl, hrest⟩
    obtain ⟨l₂, l₃, rfl, rfl⟩ := shuffle_singleton.mp hrest
    exact ⟨l₁, l₂, l₃, rfl, rfl⟩
  · rintro ⟨l₁, l₂, l₃, rfl, rfl⟩
    exact ⟨l₁, l₂ ++ l₃, l₂ ++ c :: l₃, rfl, rfl, shuffle_singleton.mpr ⟨l₂, l₃, rfl, rfl⟩⟩

theorem place_cases {l₁ l₂ m₁ m₂ : List α} {a b : α} (h : l₁ ++ a :: l₂ = m₁ ++ b :: m₂) :
    l₁ = m₁ ∨ (∃ between, m₁ = l₁ ++ a :: between) ∨ ∃ between, l₁ = m₁ ++ b :: between := by
  rcases List.append_eq_append_iff.mp h with ⟨between, rfl, hrest⟩ | ⟨between, rfl, hrest⟩
  · cases between with
    | nil => exact .inl (List.append_nil l₁).symm
    | cons c between =>
        obtain ⟨rfl, -⟩ := List.cons.inj hrest
        exact .inr (.inl ⟨between, rfl⟩)
  · cases between with
    | nil => exact .inl (List.append_nil m₁)
    | cons c between =>
        obtain ⟨rfl, -⟩ := List.cons.inj hrest
        exact .inr (.inr ⟨between, rfl⟩)

theorem sublist_around_iff {l₁ l₂ s₁ s₂ : List α} {a : α} (h₁ : a ∉ l₁) (h₂ : a ∉ l₂) :
    (s₁ ++ a :: s₂).Sublist (l₁ ++ a :: l₂) ↔ s₁.Sublist l₁ ∧ s₂.Sublist l₂ := by
  constructor
  · intro h
    induction l₁ generalizing s₁ with
    | nil =>
        cases s₁ with
        | nil => exact ⟨.refl _, List.cons_sublist_cons.mp h⟩
        | cons b s₁ =>
            have hmem : a ∈ l₂ := by
              rw [List.nil_append, List.cons_append] at h
              exact h.tail.subset (by simp)
            exact absurd hmem h₂
    | cons b l₁ ih =>
        obtain ⟨hne, hnot⟩ := not_or.mp (List.mem_cons.not.mp h₁)
        rcases List.sublist_cons_iff.mp h with hskip | ⟨r, hr, htake⟩
        · obtain ⟨hs₁, hs₂⟩ := ih hnot hskip
          exact ⟨hs₁.cons b, hs₂⟩
        · cases s₁ with
          | nil => exact absurd (List.cons.inj hr).1 hne
          | cons c s₁ =>
              obtain ⟨rfl, rfl⟩ := List.cons.inj hr
              obtain ⟨hs₁, hs₂⟩ := ih hnot htake
              exact ⟨List.cons_sublist_cons.mpr hs₁, hs₂⟩
  · rintro ⟨hs₁, hs₂⟩
    exact hs₁.append (List.cons_sublist_cons.mpr hs₂)

theorem sublist_around_pair_iff {l₁ l₂ l₃ : List α} {a b c d : α} (hb₁ : b ∉ l₁)
    (hb₂ : b ∉ l₂ ++ c :: l₃) (hc₂ : c ∉ l₂) (hc₃ : c ∉ l₃) :
    [a, b, c, d].Sublist (l₁ ++ b :: (l₂ ++ c :: l₃)) ↔ a ∈ l₁ ∧ d ∈ l₃ := by
  have houter : ([a] ++ b :: [c, d]).Sublist (l₁ ++ b :: (l₂ ++ c :: l₃)) ↔ _ :=
    sublist_around_iff hb₁ hb₂
  have hinner : ([] ++ c :: [d]).Sublist (l₂ ++ c :: l₃) ↔ _ :=
    sublist_around_iff hc₂ hc₃
  rw [List.singleton_sublist] at houter
  rw [List.singleton_sublist] at hinner
  exact houter.trans (and_congr_right fun _ => hinner.trans (and_iff_right (List.nil_sublist _)))

end Interleaving
