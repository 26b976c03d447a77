import Edriel.EdrielConfig
import Edriel.Lib.Binary64
import Edriel.Outbox

namespace Edriel

open Proto3 Interleaving

/-- The bound of an outbox and its water marks as fractions of it. -/
structure OutboxTrio where
  maxFrames : Nat
  hwm : ℚ
  lwm : ℚ
  pos : 1 ≤ maxFrames
  lwm_pos : 0 < lwm
  lwm_lt : lwm < hwm
  hwm_lt : hwm < 1

theorem ne_sentinel_of_readKey {α : Type*} [DecidableEq α] {root : Root} {key : String}
    {parse : Bytes → α → α} {sentinel v : α}
    (h : readKey root key parse sentinel = some (some v)) : v ≠ sentinel := by
  obtain ⟨text, -, hv⟩ := Option.map_eq_some_iff.mp h
  split at hv
  · rename_i hne
    obtain rfl := Option.some.inj hv
    exact hne
  · cases hv

theorem waterMarkKey_mem {stod : Stod} {root : Root} {key : String} {v : ℚ}
    (h : waterMarkKey stod root key = some (some v)) : 0 < v ∧ v < 1 := by
  obtain ⟨text, -, hv⟩ := Option.map_eq_some_iff.mp h
  split at hv
  · rename_i hpos
    obtain rfl := Option.some.inj hv
    refine ⟨hpos, ?_⟩
    revert hpos
    rw [parseWaterMark]
    split_ifs with hempty
    · norm_num
    · split
      · norm_num
      · split_ifs with hwhole hrange
        · norm_num
        · exact fun _ => hrange.2
        · norm_num
  · cases hv

theorem setting_mem {α : Type*} {P : α → Prop} {read : Option (Option α)} {default : α}
    (hdefault : P default) (hread : ∀ v, read = some (some v) → P v) :
    P (setting read default) := by
  cases read with
  | none => exact hdefault
  | some value =>
      cases value with
      | none => exact hdefault
      | some v => exact hread v rfl

/-- Whatever the file says, the three values fit together. -/
theorem loadOutbox_coherent (stod : Stod) (root : Root) {config : FileConfig}
    (hframes : config.reliableOutboxMaxFrames = 1024)
    (hhwm : config.reliableOutboxHwm = 3 / 4) (hlwm : config.reliableOutboxLwm = 1 / 4) :
    1 ≤ (loadOutbox stod root config).reliableOutboxMaxFrames.toNat ∧
      0 < (loadOutbox stod root config).reliableOutboxLwm ∧
      (loadOutbox stod root config).reliableOutboxLwm <
        (loadOutbox stod root config).reliableOutboxHwm ∧
      (loadOutbox stod root config).reliableOutboxHwm < 1 := by
  rw [loadOutbox]
  split_ifs with hfalls
  · refine ⟨?_, by norm_num, by norm_num, by norm_num⟩
    change 1 ≤ (1024 : UInt64).toNat
    decide
  · simp only [Bool.or_eq_true, not_or, Bool.not_eq_true', decide_eq_false_iff_not,
      not_not] at hfalls
    refine ⟨?_, ?_, hfalls.2, ?_⟩
    · refine setting_mem (P := fun n : UInt64 => 1 ≤ n.toNat) (by rw [hframes]; decide) ?_
      intro v hv
      have hne := ne_sentinel_of_readKey hv
      have hnonzero : v.toNat ≠ 0 := fun h => hne (UInt64.toNat_inj.mp h)
      exact Nat.one_le_iff_ne_zero.mpr hnonzero
    · exact setting_mem (P := fun q : ℚ => 0 < q) (by rw [hlwm]; norm_num)
        fun v hv => (waterMarkKey_mem hv).1
    · exact setting_mem (P := fun q : ℚ => q < 1) (by rw [hhwm]; norm_num)
        fun v hv => (waterMarkKey_mem hv).2

theorem loadConfig_coherent (load : Bytes → Option Root) (stod : Stod)
    (content : Option Bytes) :
    1 ≤ (loadConfig load stod content).reliableOutboxMaxFrames.toNat ∧
      0 < (loadConfig load stod content).reliableOutboxLwm ∧
      (loadConfig load stod content).reliableOutboxLwm <
        (loadConfig load stod content).reliableOutboxHwm ∧
      (loadConfig load stod content).reliableOutboxHwm < 1 := by
  have hdefault : 1 ≤ ({} : FileConfig).reliableOutboxMaxFrames.toNat ∧
      0 < ({} : FileConfig).reliableOutboxLwm ∧
      ({} : FileConfig).reliableOutboxLwm < ({} : FileConfig).reliableOutboxHwm ∧
      ({} : FileConfig).reliableOutboxHwm < 1 := by
    exact ⟨by decide, by norm_num, by norm_num, by norm_num⟩
  cases content with
  | none => exact hdefault
  | some bytes =>
      cases bytes with
      | nil => exact hdefault
      | cons b bytes =>
          have hconfig : loadConfig load stod (some (b :: bytes)) =
              ((load (b :: bytes)).map (loadRoot stod)).getD {} := rfl
          rw [hconfig]
          cases load (b :: bytes) with
          | none => exact hdefault
          | some root => exact loadOutbox_coherent stod root rfl rfl rfl

def loadedTrio (load : Bytes → Option Root) (stod : Stod) (content : Option Bytes) :
    OutboxTrio :=
  { maxFrames := (loadConfig load stod content).reliableOutboxMaxFrames.toNat
    hwm := (loadConfig load stod content).reliableOutboxHwm
    lwm := (loadConfig load stod content).reliableOutboxLwm
    pos := (loadConfig_coherent load stod content).1
    lwm_pos := (loadConfig_coherent load stod content).2.1
    lwm_lt := (loadConfig_coherent load stod content).2.2.1
    hwm_lt := (loadConfig_coherent load stod content).2.2.2 }

/-- A fraction of the bound in frames, in exact arithmetic and rounded toward zero. -/
def waterMark (fraction : ℚ) (maxFrames : Nat) : Nat :=
  ⌊fraction * maxFrames⌋₊

/-- The same threshold in doubles, as the constructor computes it: the bound is converted to
the format and the product is rounded to it before it is cut off. -/
def toFrames (fraction : ℚ) (maxFrames : Nat) : Nat :=
  ⌊Binary64.round (fraction * Binary64.round maxFrames)⌋₊

theorem toFrames_eq {fraction : ℚ} {maxFrames frames : Nat} (hmax : maxFrames < 2 ^ 53)
    (hproduct : fraction * maxFrames = frames) (hframes : frames < 2 ^ 53) :
    toFrames fraction maxFrames = frames := by
  rw [toFrames, Binary64.round_natCast hmax, hproduct, Binary64.round_natCast hframes,
    Nat.floor_natCast]

/-- The double nearest to 0.7 lies below it, and its product with 10 is rounded up to 7. -/
example : waterMark (3152519739159347 / 2 ^ 52) 10 = 6 ∧
    toFrames (3152519739159347 / 2 ^ 52) 10 = 7 := by
  decide +kernel

theorem waterMark_lt {fraction : ℚ} {maxFrames : Nat} (hpos : 0 < fraction)
    (hlt : fraction < 1) (hframes : 1 ≤ maxFrames) : waterMark fraction maxFrames < maxFrames := by
  have hbound : (0 : ℚ) < maxFrames := by exact_mod_cast hframes
  rw [waterMark, Nat.floor_lt (mul_pos hpos hbound).le]
  calc fraction * maxFrames < 1 * maxFrames := mul_lt_mul_of_pos_right hlt hbound
    _ = maxFrames := one_mul _

/-- The two clamps together, for a bound that fits the type. -/
theorem clampHwm_eq_min {maxFrames : Nat} (hwm : Nat) (hpos : 1 ≤ maxFrames)
    (hfits : maxFrames ≤ 2 ^ 64) :
    SubscriberReactor.clampHwm maxFrames hwm = min (max hwm 1) (maxFrames - 1) := by
  rw [SubscriberReactor.clampHwm]
  split_ifs with hlow
  · have hwrap : maxFrames + (2 ^ 64 - 1) = maxFrames - 1 + 2 ^ 64 := by omega
    rw [hwrap, Nat.add_mod_right, Nat.mod_eq_of_lt (by omega)]
    omega
  · omega

theorem clampHwm_of_two_le {maxFrames hwm : Nat} (htwo : 2 ≤ maxFrames)
    (hlt : hwm < maxFrames) : SubscriberReactor.clampHwm maxFrames hwm = max hwm 1 := by
  rw [SubscriberReactor.clampHwm, if_neg (by omega)]

/-- The clamp takes the only frame away. -/
theorem clampHwm_one : SubscriberReactor.clampHwm 1 0 = 0 := by
  rfl

theorem clampLwm_lt {hwm : Nat} (lwm : Nat) (hpos : 1 ≤ hwm) :
    SubscriberReactor.clampLwm hwm lwm < hwm := by
  rw [SubscriberReactor.clampLwm]
  split_ifs <;> omega

namespace OutboxTrio

universe u

/-- A stream whose reactor is constructed with the trio, its products being exact. -/
def init (F : Type u) (t : OutboxTrio) : Rpc F :=
  .init t.maxFrames (waterMark t.hwm t.maxFrames) (waterMark t.lwm t.maxFrames)

/-- A stream whose reactor computes its thresholds in doubles. -/
def stream (F : Type u) (t : OutboxTrio) : Rpc F :=
  .init t.maxFrames (toFrames t.hwm t.maxFrames) (toFrames t.lwm t.maxFrames)

/-- The thresholds are in order, and a live stream with nothing queued and no latch takes
the next frame, whatever it has been through. -/
def Coherent (F : Type u) (t : OutboxTrio) : Prop :=
  (t.init F).reactor.lwmFrames < (t.init F).reactor.hwmFrames ∧
    (t.init F).reactor.hwmFrames ≤ t.maxFrames ∧
    ∀ evs s, Trace (Steps Rpc.step) (t.init F) evs s → s.reactor.isLive = true →
      s.reactor.outbox = [] → s.reactor.backpressured = false →
      ∀ f, (s.reactor.enqueue f).1 = .accepted

theorem waterMark_hwm_lt (t : OutboxTrio) : waterMark t.hwm t.maxFrames < t.maxFrames :=
  waterMark_lt (t.lwm_pos.trans t.lwm_lt) t.hwm_lt t.pos

variable {F : Type u} {t : OutboxTrio} {evs : List (RpcEvent F)} {s : Rpc F}

theorem hwmFrames_of_trace (h : Trace (Steps Rpc.step) (t.init F) evs s) :
    s.reactor.hwmFrames =
      SubscriberReactor.clampHwm t.maxFrames (waterMark t.hwm t.maxFrames) :=
  (Rpc.boundInv_of_trace h).hwm_eq

theorem clampHwm_of_one (h : t.maxFrames = 1) :
    SubscriberReactor.clampHwm t.maxFrames (waterMark t.hwm t.maxFrames) = 0 := by
  have hzero : waterMark t.hwm t.maxFrames = 0 := by
    have hlt := t.waterMark_hwm_lt
    omega
  rw [hzero, h]
  exact clampHwm_one

/-- Such a stream refuses every frame for good. -/
theorem refuses_of_one (h : t.maxFrames = 1)
    (htrace : Trace (Steps Rpc.step) (t.init F) evs s) (f : F) :
    (s.reactor.enqueue f).1 ≠ .accepted := by
  intro haccepted
  have hroom := (Rpc.enqueue_of_accepted haccepted).1
  rw [hwmFrames_of_trace htrace, clampHwm_of_one h] at hroom
  exact absurd hroom (Nat.not_lt_zero _)

theorem lt_hwm_of_two_le (h : 2 ≤ t.maxFrames) :
    (t.init F).reactor.lwmFrames < (t.init F).reactor.hwmFrames ∧
      1 ≤ (t.init F).reactor.hwmFrames ∧ (t.init F).reactor.hwmFrames ≤ t.maxFrames := by
  have hmark := t.waterMark_hwm_lt
  have hhwm : (t.init F).reactor.hwmFrames = max (waterMark t.hwm t.maxFrames) 1 :=
    clampHwm_of_two_le h hmark
  have hpos : 1 ≤ (t.init F).reactor.hwmFrames := by
    rw [hhwm]
    exact le_max_right _ _
  refine ⟨?_, hpos, ?_⟩
  · exact clampLwm_lt (waterMark t.lwm t.maxFrames) hpos
  · rw [hhwm]
    omega

/-- The thresholds are coherent exactly when the bound leaves a frame between them. -/
theorem coherent_iff (F : Type u) (t : OutboxTrio) : t.Coherent F ↔ 2 ≤ t.maxFrames := by
  constructor
  · rintro ⟨hmarks, -, -⟩
    by_contra hsmall
    have hone : t.maxFrames = 1 := by
      have hpos := t.pos
      omega
    have hzero : (t.init F).reactor.hwmFrames = 0 := clampHwm_of_one hone
    omega
  · intro htwo
    obtain ⟨hmarks, hpos, hle⟩ := lt_hwm_of_two_le (F := F) htwo
    refine ⟨hmarks, hle, ?_⟩
    intro evs s htrace hlive hempty hopen f
    have hsame : s.reactor.hwmFrames = (t.init F).reactor.hwmFrames := hwmFrames_of_trace htrace
    rw [SubscriberReactor.isLive, Bool.and_eq_true] at hlive
    rw [Rpc.enqueue_eq_accepted_iff, SubscriberReactor.isSendable, hlive.1, hlive.2, hopen,
      hempty, hsame]
    have hroom : 0 < (t.init F).reactor.hwmFrames := hpos
    simpa using hroom

/-- Room for one frame, and the default fractions. -/
def single : OutboxTrio :=
  { maxFrames := 1
    hwm := 3 / 4
    lwm := 1 / 4
    pos := le_rfl
    lwm_pos := by norm_num
    lwm_lt := by norm_num
    hwm_lt := by norm_num }

theorem single_not_coherent :
    ¬ single.Coherent Nat ∧ ∀ f, ((single.init Nat).reactor.enqueue f).1 ≠ .accepted := by
  refine ⟨?_, refuses_of_one rfl .nil⟩
  rintro ⟨-, -, haccepts⟩
  exact refuses_of_one rfl .nil 0 (haccepts [] _ .nil rfl rfl rfl 0)

end OutboxTrio

end Edriel
