import Edriel.EdrielConfig

namespace Edriel

open Proto3 Decimal

def rateLimitKey : String := "reliable_send_rate_limit"

/-- The value a file leaves for the ceiling is the number in its key when that fits below
the sentinel, and the default together with the flag otherwise. -/
def RateExact (config : FileConfig) (text : Bytes) : Prop :=
  (∀ v, Denotes text v → v < 2 ^ 32 - 1 → config.reliableSendRateLimit.toNat = v) ∧
    ((∀ v, Denotes text v → ¬ v < 2 ^ 32 - 1) →
      config.reliableSendRateLimit = 0 ∧ config.fellBackToDefaults = true)

theorem toNat_parseRateLimit {text : Bytes} {v : Nat} (h : Denotes text v) (hv : v < 2 ^ 64)
    (fallback : UInt32) : (parseRateLimit text fallback).toNat = v % 2 ^ 32 := by
  rw [parseRateLimit, readWhole_of_denotes h hv, if_pos rfl, UInt64.toNat_toUInt32,
    UInt64.toNat_ofNat_of_lt' hv]

theorem parseRateLimit_eq_iff {text : Bytes} {v : Nat} (h : Denotes text v) (hv : v < 2 ^ 64)
    (fallback limit : UInt32) :
    parseRateLimit text fallback = limit ↔ v % 2 ^ 32 = limit.toNat := by
  rw [← UInt32.toNat_inj, toNat_parseRateLimit h hv]

def scalarsFallBack (root : Root) : Bool :=
  missing (readKey root "port" parsePort 0) ||
    missing (readKey root "multicast_ip" parseMulticastAddress []) ||
    missing (readKey root "discovery_period_seconds" parseDurationSeconds 0) ||
    missing (readKey root "participant_timeout_seconds" parseDurationSeconds 0) ||
    missing (readKey root "grpc_port" parsePort 0) ||
    missing (readKey root "max_advertised_endpoints" parseMaxEndpoints 0) ||
    invalid (readKey root "receiver_threads" (parseCountRange 1 4) 0) ||
    invalid (readKey root "worker_threads" (parseCountRange 1 16) 0) ||
    invalid (readKey root "rx_ring_slots" parseRingSlots 0) ||
    invalid (readKey root "so_rcvbuf_bytes" (parseCountRange 0 (2 ^ 30)) 4294967295)

/-- A key of the outbox is malformed, or its water marks are not in order. -/
def outboxFallsBack (stod : Stod) (root : Root) : Bool :=
  invalid (readKey root "reliable_outbox_max_frames" parseOutboxMaxFrames 0) ||
    invalid (waterMarkKey stod root "reliable_outbox_hwm") ||
    invalid (waterMarkKey stod root "reliable_outbox_lwm") ||
    !decide (setting (waterMarkKey stod root "reliable_outbox_lwm") (1 / 4) <
      setting (waterMarkKey stod root "reliable_outbox_hwm") (3 / 4))

def fallsBackElsewhere (stod : Stod) (root : Root) : Bool :=
  scalarsFallBack root || outboxFallsBack stod root ||
    (loadAdvertiseAddresses (root "advertise_address")).2 ||
    (loadPeers (setting (readKey root "grpc_port" parsePort 0) 4000) (root "peers")).2

def rateKey (root : Root) : Option (Option UInt32) :=
  readKey root rateLimitKey parseRateLimit 4294967295

theorem loadOutbox_fellBack (stod : Stod) (root : Root) {config : FileConfig}
    (hlwm : config.reliableOutboxLwm = 1 / 4) (hhwm : config.reliableOutboxHwm = 3 / 4) :
    (loadOutbox stod root config).fellBackToDefaults =
      (config.fellBackToDefaults || outboxFallsBack stod root) := by
  rw [loadOutbox, hlwm, hhwm]
  split_ifs with hfalls
  · rw [outboxFallsBack, hfalls, Bool.or_true]
  · rw [Bool.not_eq_true] at hfalls
    rw [outboxFallsBack, hfalls, Bool.or_false]

theorem loadRoot_rate (stod : Stod) (root : Root) :
    (loadRoot stod root).reliableSendRateLimit = setting (rateKey root) 0 ∧
      (loadRoot stod root).fellBackToDefaults =
        (fallsBackElsewhere stod root || invalid (rateKey root)) := by
  refine ⟨rfl, ?_⟩
  have hflag : (loadRoot stod root).fellBackToDefaults =
      (scalarsFallBack root || outboxFallsBack stod root || invalid (rateKey root) ||
        (loadAdvertiseAddresses (root "advertise_address")).2 ||
        (loadPeers (setting (readKey root "grpc_port" parsePort 0) 4000) (root "peers")).2) := by
    change ((loadOutbox stod root _).fellBackToDefaults || _ || _ || _) = _
    rw [loadOutbox_fellBack stod root rfl rfl]
    rfl
  -- the flag of the ceiling is noted before those of the two lists
  have hmoved : ∀ a b c d e : Bool, (a || b || e || c || d) = (a || b || c || d || e) := by
    intro a b c d e
    ac_rfl
  rw [hflag, fallsBackElsewhere]
  exact hmoved _ _ _ _ _

theorem rateKey_eq {root : Root} {text : Bytes}
    (htext : scalarText root rateLimitKey = some text) :
    rateKey root = some (if parseRateLimit text 4294967295 ≠ 4294967295 then
      some (parseRateLimit text 4294967295) else none) := by
  rw [rateKey, readKey, htext, Option.map_some]

theorem rate_of_rejected {root : Root} {text : Bytes}
    (htext : scalarText root rateLimitKey = some text)
    (hrejected : parseRateLimit text 4294967295 = 4294967295) (stod : Stod) :
    (loadRoot stod root).reliableSendRateLimit = 0 ∧
      (loadRoot stod root).fellBackToDefaults = true := by
  obtain ⟨hrate, hflag⟩ := loadRoot_rate stod root
  rw [rateKey_eq htext, if_neg (fun h => h hrejected)] at hrate hflag
  refine ⟨hrate, ?_⟩
  rw [hflag]
  exact Bool.or_true _

theorem rate_of_accepted {root : Root} {text : Bytes}
    (htext : scalarText root rateLimitKey = some text)
    (haccepted : parseRateLimit text 4294967295 ≠ 4294967295) (stod : Stod) :
    (loadRoot stod root).reliableSendRateLimit = parseRateLimit text 4294967295 ∧
      (loadRoot stod root).fellBackToDefaults = fallsBackElsewhere stod root := by
  obtain ⟨hrate, hflag⟩ := loadRoot_rate stod root
  rw [rateKey_eq htext, if_pos haccepted] at hrate hflag
  refine ⟨hrate, ?_⟩
  rw [hflag]
  exact Bool.or_false _

/-- A number that loses its high bits is stored as what is left of it. -/
def Truncates (stod : Stod) (root : Root) (v : Nat) : Prop :=
  2 ^ 32 ≤ v ∧ v < 2 ^ 64 ∧ v % 2 ^ 32 ≠ 2 ^ 32 - 1 ∧
    ¬ (v % 2 ^ 32 = 0 ∧ fallsBackElsewhere stod root = true)

theorem loadRoot_rateExact_iff (stod : Stod) {root : Root} {text : Bytes}
    (htext : scalarText root rateLimitKey = some text) :
    RateExact (loadRoot stod root) text ↔
      ∀ v, Denotes text v → ¬ Truncates stod root v := by
  have hsentinel : (4294967295 : UInt32).toNat = 2 ^ 32 - 1 := rfl
  by_cases hfits : ∃ v, v < 2 ^ 64 ∧ Denotes text v
  · obtain ⟨v, hv, hdenotes⟩ := hfits
    have hone : (∀ w, Denotes text w → ¬ Truncates stod root w) ↔ ¬ Truncates stod root v := by
      constructor
      · exact fun h => h v hdenotes
      · intro h w hw
        obtain rfl := hdenotes.unique hw
        exact h
    have hexact : RateExact (loadRoot stod root) text ↔
        (v < 2 ^ 32 - 1 → (loadRoot stod root).reliableSendRateLimit.toNat = v) ∧
          (¬ v < 2 ^ 32 - 1 → (loadRoot stod root).reliableSendRateLimit = 0 ∧
            (loadRoot stod root).fellBackToDefaults = true) := by
      constructor
      · rintro ⟨hsmall, hother⟩
        refine ⟨hsmall v hdenotes, fun hlarge => hother ?_⟩
        intro w hw
        obtain rfl := hdenotes.unique hw
        exact hlarge
      · rintro ⟨hsmall, hother⟩
        refine ⟨?_, fun h => hother (h v hdenotes)⟩
        intro w hw
        obtain rfl := hdenotes.unique hw
        exact hsmall
    rw [hone, hexact]
    by_cases hrejected : parseRateLimit text 4294967295 = 4294967295
    · obtain ⟨hrate, hflag⟩ := rate_of_rejected htext hrejected stod
      rw [parseRateLimit_eq_iff hdenotes hv, hsentinel] at hrejected
      refine iff_of_true ⟨fun hsmall => ?_, fun _ => ⟨hrate, hflag⟩⟩ ?_
      · omega
      · exact fun htruncates => htruncates.2.2.1 hrejected
    · obtain ⟨hrate, hflag⟩ := rate_of_accepted htext hrejected stod
      rw [parseRateLimit_eq_iff hdenotes hv, hsentinel] at hrejected
      have hzero : parseRateLimit text 4294967295 = 0 ↔ v % 2 ^ 32 = 0 :=
        parseRateLimit_eq_iff hdenotes hv 4294967295 0
      rw [hrate, hflag, toNat_parseRateLimit hdenotes hv, hzero, Truncates]
      constructor
      · rintro ⟨-, hother⟩ ⟨hlarge, -, -, hlost⟩
        exact hlost (hother (by omega))
      · intro hkept
        refine ⟨fun hsmall => Nat.mod_eq_of_lt (by omega), fun hlarge => ?_⟩
        by_contra hlost
        exact hkept ⟨by omega, hv, hrejected, hlost⟩
  · push Not at hfits
    have hrejected : parseRateLimit text 4294967295 = 4294967295 :=
      readWhole_of_not_denotes hfits
    obtain ⟨hrate, hflag⟩ := rate_of_rejected htext hrejected stod
    refine iff_of_true ⟨?_, fun _ => ⟨hrate, hflag⟩⟩ ?_
    · intro v hdenotes hsmall
      exact absurd hdenotes (hfits v (by omega))
    · exact fun v hdenotes htruncates => hfits v htruncates.2.1 hdenotes

/-- The ceiling loads as written or not at all, unless the number has 33 to 64 bits: then its
low half is stored without a word, except where that is the sentinel, or is the default in a
file that falls back for another key. -/
theorem rateLimit_exact_iff (load : Bytes → Option Root) (stod : Stod) {bytes text : Bytes}
    {root : Root} (hne : bytes ≠ []) (hload : load bytes = some root)
    (htext : scalarText root rateLimitKey = some text) :
    RateExact (loadConfig load stod (some bytes)) text ↔
      ∀ v, Denotes text v → ¬ Truncates stod root v := by
  have hconfig : loadConfig load stod (some bytes) = loadRoot stod root := by
    cases bytes with
    | nil => exact absurd rfl hne
    | cons b bytes =>
        change ((load (b :: bytes)).map (loadRoot stod)).getD {} = _
        rw [hload]
        rfl
  rw [hconfig]
  exact loadRoot_rateExact_iff stod htext

def rateRoot (text : Bytes) : Root := fun key =>
  if key = rateLimitKey then some (.scalar text) else none

/-- 4294967297, which is stored as one frame a second. -/
def truncatedText : Bytes :=
  [52, 50, 57, 52, 57, 54, 55, 50, 57, 55]

theorem rate_truncated :
    ¬ RateExact (loadConfig (fun _ => some (rateRoot truncatedText)) (fun _ => none) (some [0]))
      truncatedText := by
  have hdenotes : Denotes truncatedText 4294967297 := by decide +kernel
  change ¬ RateExact (loadRoot (fun _ => none) (rateRoot truncatedText)) truncatedText
  rw [loadRoot_rateExact_iff _ rfl]
  intro h
  refine h 4294967297 hdenotes ⟨by norm_num, by norm_num, by norm_num, ?_⟩
  rintro ⟨hzero, -⟩
  norm_num at hzero

theorem rate_exact_250 :
    RateExact (loadConfig (fun _ => some (rateRoot [50, 53, 48])) (fun _ => none) (some [0]))
      [50, 53, 48] := by
  refine (rateLimit_exact_iff _ _ (List.cons_ne_nil 0 []) rfl rfl).mpr ?_
  intro v hdenotes htruncates
  obtain rfl := hdenotes.unique (by decide +kernel : Denotes [50, 53, 48] 250)
  exact absurd htruncates.1 (by norm_num)

end Edriel
