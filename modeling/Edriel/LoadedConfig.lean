import Edriel.MulticastAddress
import Edriel.RateLimit
import Edriel.WaterMarks

namespace Edriel

open Proto3 Decimal Text

section Parsers

variable {α : Type*}

/-- What a parser makes of a text: the value that it spells, and the fallback otherwise. -/
structure Parses (parse : Bytes → α → α) (spells : Bytes → α → Prop) : Prop where
  taken : ∀ {text v}, spells text v → ∀ fallback, parse text fallback = v
  refused : ∀ {text}, (∀ v, ¬ spells text v) → ∀ fallback, parse text fallback = fallback

def Numbers (range : Nat → Prop) (value : Nat → α) (text : Bytes) (v : α) : Prop :=
  ∃ n, Denotes text n ∧ range n ∧ value n = v

theorem Parses.of_readWhole {accepts : UInt64 → Bool} {convert : UInt64 → α}
    {range : Nat → Prop} {value : Nat → α} (hfits : ∀ n, range n → n < 2 ^ 64)
    (haccepts : ∀ n, n < 2 ^ 64 → (accepts (UInt64.ofNat n) = true ↔ range n))
    (hvalue : ∀ n, range n → convert (UInt64.ofNat n) = value n) :
    Parses (readWhole accepts convert) (Numbers range value) := by
  constructor
  case taken =>
    rintro text v ⟨n, hdenotes, hrange, rfl⟩ fallback
    have hn := hfits n hrange
    rw [readWhole_of_denotes hdenotes hn, if_pos ((haccepts n hn).mpr hrange), hvalue n hrange]
  case refused =>
    intro text hnone fallback
    by_cases hsmall : ∃ n, n < 2 ^ 64 ∧ Denotes text n
    · obtain ⟨n, hn, hdenotes⟩ := hsmall
      rw [readWhole_of_denotes hdenotes hn, if_neg]
      intro h
      exact hnone _ ⟨n, hdenotes, (haccepts n hn).mp h, rfl⟩
    · push Not at hsmall
      exact readWhole_of_not_denotes hsmall

end Parsers

theorem toNat_ofNat_lt_iff {n k : Nat} (hn : n < 2 ^ 64) (hk : k < 2 ^ 64) :
    UInt64.ofNat n < UInt64.ofNat k ↔ n < k := by
  rw [UInt64.lt_iff_toNat_lt, UInt64.toNat_ofNat_of_lt' hn, UInt64.toNat_ofNat_of_lt' hk]

def IsPort (n : Nat) : Prop :=
  1 ≤ n ∧ n ≤ 65535

/-- The seconds that pass the check, which is made on the signed value. -/
def IsDuration (n : Nat) : Prop :=
  1 ≤ n ∧ n ≤ 86400 ∨ 2 ^ 63 ≤ n ∧ n < 2 ^ 64

theorem parses_port : Parses parsePort (Numbers IsPort Nat.toUInt16) := by
  refine Parses.of_readWhole (fun n h => by rw [IsPort] at h; omega) ?_ ?_
  · intro n hn
    have hlow : UInt64.ofNat n < 1 ↔ n < 1 := toNat_ofNat_lt_iff hn (by decide)
    have hhigh : 65535 < UInt64.ofNat n ↔ 65535 < n := toNat_ofNat_lt_iff (by decide) hn
    simp only [hlow, hhigh, Bool.and_eq_true, Bool.not_eq_true', decide_eq_false_iff_not,
      Nat.not_lt, IsPort]
  · rintro n ⟨-, hhigh⟩
    have hn : n < 2 ^ 64 := by omega
    apply UInt16.toNat_inj.mp
    rw [UInt64.toNat_toUInt16, UInt64.toNat_ofNat_of_lt' hn]
    rfl

theorem parses_duration :
    Parses parseDurationSeconds (Numbers IsDuration fun n => (UInt64.ofNat n).toInt64) := by
  constructor
  case taken =>
    rintro text v ⟨n, hdenotes, hrange, rfl⟩ fallback
    rw [IsDuration] at hrange
    rw [parseDurationSeconds_of_denotes hdenotes (by omega), if_pos (by omega)]
  case refused =>
    intro text hnone fallback
    by_cases hsmall : ∃ n, n < 2 ^ 64 ∧ Denotes text n
    · obtain ⟨n, hn, hdenotes⟩ := hsmall
      rw [parseDurationSeconds_of_denotes hdenotes hn, if_neg]
      intro h
      refine hnone _ ⟨n, hdenotes, ?_, rfl⟩
      rw [IsDuration]
      omega
    · push Not at hsmall
      exact readWhole_of_not_denotes hsmall

theorem parses_maxEndpoints : Parses parseMaxEndpoints
    (Numbers (fun n => 1 ≤ n ∧ n < 2 ^ 64) fun n => UInt64.ofNat (min n 64)) := by
  refine Parses.of_readWhole (fun n h => h.2) ?_ ?_
  · intro n hn
    have hlow : UInt64.ofNat n < 1 ↔ n < 1 := toNat_ofNat_lt_iff hn (by decide)
    simp only [hlow, Bool.not_eq_true', decide_eq_false_iff_not, Nat.not_lt, hn, and_true]
  · rintro n ⟨-, hn⟩
    have hcap : kMaxAdvertisedEndpointsCap ≤ UInt64.ofNat n ↔ 64 ≤ n := by
      rw [UInt64.le_iff_toNat_le, UInt64.toNat_ofNat_of_lt' hn]
      rfl
    simp only [hcap]
    split_ifs with hlarge
    · rw [min_eq_right hlarge]
      rfl
    · rw [min_eq_left (Nat.not_le.mp hlarge).le]

theorem parses_countRange (lowest highest : UInt32) : Parses (parseCountRange lowest highest)
    (Numbers (fun n => lowest.toNat ≤ n ∧ n ≤ highest.toNat) UInt32.ofNat) := by
  have hhighest := highest.toNat_lt
  refine Parses.of_readWhole (fun n h => by omega) ?_ ?_
  · intro n hn
    have hlow : UInt64.ofNat n < lowest.toUInt64 ↔ n < lowest.toNat := by
      rw [UInt64.lt_iff_toNat_lt, UInt64.toNat_ofNat_of_lt' hn, UInt32.toNat_toUInt64]
    have hhigh : highest.toUInt64 < UInt64.ofNat n ↔ highest.toNat < n := by
      rw [UInt64.lt_iff_toNat_lt, UInt64.toNat_ofNat_of_lt' hn, UInt32.toNat_toUInt64]
    simp only [hlow, hhigh, Bool.and_eq_true, Bool.not_eq_true', decide_eq_false_iff_not,
      Nat.not_lt]
  · rintro n ⟨-, hhigh⟩
    have hn : n < 2 ^ 64 := by omega
    apply UInt32.toNat_inj.mp
    rw [UInt64.toNat_toUInt32, UInt64.toNat_ofNat_of_lt' hn]
    rfl

theorem parses_ringSlots : Parses parseRingSlots
    (Numbers (fun n => 2 ≤ n ∧ n.isPowerOfTwo ∧ n < 2 ^ 64) UInt64.ofNat) := by
  refine Parses.of_readWhole (fun n h => h.2.2) ?_ (fun n _ => rfl)
  intro n hn
  have hlow : UInt64.ofNat n < 2 ↔ n < 2 := toNat_ofNat_lt_iff hn (by decide)
  by_cases htwo : 2 ≤ n
  · have hpred : (UInt64.ofNat n - 1).toNat = n - 1 := by
      rw [UInt64.toNat_sub_of_le _ _ ?_, UInt64.toNat_ofNat_of_lt' hn]
      · rfl
      · rw [UInt64.le_iff_toNat_le, UInt64.toNat_ofNat_of_lt' hn]
        exact htwo.trans' (by decide)
    have hbits : UInt64.ofNat n &&& (UInt64.ofNat n - 1) = 0 ↔ n.isPowerOfTwo := by
      rw [← UInt64.toNat_inj, UInt64.toNat_and, hpred, UInt64.toNat_ofNat_of_lt' hn]
      exact Nat.and_sub_one_eq_zero_iff_isPowerOfTwo (by omega)
    simp only [hlow, Bool.and_eq_true, Bool.not_eq_true', decide_eq_false_iff_not, Nat.not_lt,
      beq_iff_eq, hbits, hn, and_true]
  · simp only [hlow, Bool.and_eq_true, Bool.not_eq_true', decide_eq_false_iff_not, Nat.not_lt,
      htwo, false_and]

theorem parses_outboxMaxFrames : Parses parseOutboxMaxFrames
    (Numbers (fun n => 1 ≤ n ∧ n < 2 ^ 64) UInt64.ofNat) := by
  refine Parses.of_readWhole (fun n h => h.2) ?_ (fun n _ => rfl)
  intro n hn
  have hzero : UInt64.ofNat n = 0 ↔ n = 0 := by
    rw [← UInt64.toNat_inj, UInt64.toNat_ofNat_of_lt' hn]
    rfl
  rw [bne_iff_ne, ne_eq, hzero]
  omega

theorem parses_rateLimit :
    Parses parseRateLimit (Numbers (fun n => n < 2 ^ 64) UInt32.ofNat) := by
  refine Parses.of_readWhole (fun n h => h) (fun n hn => iff_of_true rfl hn) ?_
  intro n hn
  apply UInt32.toNat_inj.mp
  rw [UInt64.toNat_toUInt32, UInt64.toNat_ofNat_of_lt' hn]
  rfl

theorem parses_multicastAddress :
    Parses parseMulticastAddress fun text v => MulticastGroup text ∧ v = text := by
  constructor
  case taken =>
    rintro text v ⟨hgroup, rfl⟩ fallback
    exact (multicastAddress_grammar _ fallback).1 hgroup
  case refused =>
    intro text hnone fallback
    exact (multicastAddress_grammar text fallback).2 fun hgroup => hnone text ⟨hgroup, rfl⟩

section Keys

variable {α : Type*} {read : Option (Option α)} {text : Option Bytes} {spells : Bytes → α → Prop}

/-- What is read under a key with an optional text. -/
structure Keyed (read : Option (Option α)) (text : Option Bytes) (spells : Bytes → α → Prop) :
    Prop where
  absent : text = none → read = none
  taken : ∀ t v, text = some t → spells t v → read = some (some v)
  refused : ∀ t, text = some t → (∀ v, ¬ spells t v) → read = some none

theorem Keyed.read_iff (h : Keyed read text spells) {v : α} :
    read = some (some v) ↔ ∃ t, text = some t ∧ spells t v := by
  constructor
  · intro hread
    cases htext : text with
    | none =>
        rw [h.absent htext] at hread
        cases hread
    | some t =>
        by_cases hnone : ∀ w, ¬ spells t w
        · rw [h.refused t htext hnone] at hread
          cases hread
        · push Not at hnone
          obtain ⟨w, hw⟩ := hnone
          rw [h.taken t w htext hw] at hread
          obtain rfl := Option.some.inj (Option.some.inj hread)
          exact ⟨t, rfl, hw⟩
  · rintro ⟨t, htext, hv⟩
    exact h.taken t v htext hv

theorem Keyed.missing_iff (h : Keyed read text spells) :
    missing read = false ↔ ∃ t v, text = some t ∧ spells t v := by
  constructor
  · intro hmissing
    match read, hmissing with
    | some (some v), _ =>
        obtain ⟨t, htext, hv⟩ := h.read_iff.mp rfl
        exact ⟨t, v, htext, hv⟩
  · rintro ⟨t, v, htext, hv⟩
    rw [h.taken t v htext hv]
    rfl

theorem Keyed.invalid_iff (h : Keyed read text spells) :
    invalid read = false ↔ ∀ t, text = some t → ∃ v, spells t v := by
  constructor
  · intro hvalid t htext
    by_contra hnone
    push Not at hnone
    rw [h.refused t htext hnone] at hvalid
    cases hvalid
  · intro hspelt
    cases htext : text with
    | none =>
        rw [h.absent htext]
        rfl
    | some t =>
        obtain ⟨v, hv⟩ := hspelt t htext
        rw [h.taken t v htext hv]
        rfl

theorem Keyed.setting_of_taken (h : Keyed read text spells) {t : Bytes} {v : α}
    (htext : text = some t) (hv : spells t v) (default : α) : setting read default = v := by
  rw [h.taken t v htext hv]
  rfl

/-- The parser is called with a sentinel, which is no value of the key. -/
theorem Parses.keyed [DecidableEq α] {parse : Bytes → α → α} (h : Parses parse spells)
    (root : Root) (key : String) (sentinel : α) :
    Keyed (readKey root key parse sentinel) (scalarText root key)
      fun t v => spells t v ∧ v ≠ sentinel := by
  constructor
  case absent =>
    intro htext
    rw [readKey, htext]
    rfl
  case taken =>
    rintro t v htext ⟨hv, hne⟩
    rw [readKey, htext, Option.map_some, h.taken hv, if_pos hne]
  case refused =>
    intro t htext hnone
    rw [readKey, htext, Option.map_some, if_neg]
    intro hne
    by_cases hspelt : ∃ v, spells t v
    · obtain ⟨v, hv⟩ := hspelt
      rw [h.taken hv] at hne
      exact hnone v ⟨hv, hne⟩
    · push Not at hspelt
      exact hne (h.refused hspelt sentinel)

end Keys

def IsMark (stod : Stod) (text : Bytes) (q : ℚ) : Prop :=
  text ≠ [] ∧ stod text = some (q, text.length) ∧ 0 < q ∧ q < 1

theorem parses_waterMark (stod : Stod) :
    Parses (fun text fallback => parseWaterMark stod text 0 1 fallback) (IsMark stod) := by
  constructor
  case taken =>
    rintro text q ⟨hne, hstod, hrange⟩ fallback
    simp only [parseWaterMark, hne, hstod, hrange, if_false, not_true_eq_false, and_self,
      ne_eq]
  case refused =>
    intro text hnone fallback
    rw [parseWaterMark]
    split_ifs with hempty
    · rfl
    · split
      · rfl
      · rename_i q consumed hstod
        split_ifs with hwhole hrange
        · rfl
        · rw [not_not] at hwhole
          rw [hwhole] at hstod
          exact absurd ⟨hempty, hstod, hrange⟩ (hnone q)
        · rfl

theorem waterMark_keyed (stod : Stod) (root : Root) (key : String) :
    Keyed (waterMarkKey stod root key) (scalarText root key) (IsMark stod) := by
  have hparses := parses_waterMark stod
  constructor
  case absent =>
    intro htext
    rw [waterMarkKey, htext]
    rfl
  case taken =>
    intro t q htext hq
    have hparse : parseWaterMark stod t 0 1 (-1) = q := hparses.taken hq (-1)
    rw [waterMarkKey, htext, Option.map_some, hparse, if_pos hq.2.2.1]
  case refused =>
    intro t htext hnone
    have hparse : parseWaterMark stod t 0 1 (-1) = -1 := hparses.refused hnone (-1)
    rw [waterMarkKey, htext, Option.map_some, hparse, if_neg (by norm_num)]

/-- An endpoint with a port behind its last colon. -/
def Dialable (raw : Bytes) : Prop :=
  ∃ host port n, raw = host ++ 58 :: port ∧ 58 ∉ port ∧ Denotes port n ∧ IsPort n

/-- The text of a peer: a host, or an endpoint. -/
def IsPeer (raw : Bytes) : Prop :=
  raw ≠ [] ∧ 58 ∉ raw ∨ Dialable raw

theorem takeWhile_reverse_append {host port : Bytes} (hport : 58 ∉ port) :
    ((host ++ 58 :: port).reverse.takeWhile (· ≠ 58)).reverse = port := by
  have hall : ∀ b ∈ port.reverse, (decide (b ≠ 58)) = true := by
    intro b hb
    rw [decide_eq_true_iff]
    rintro rfl
    exact hport (List.mem_reverse.mp hb)
  rw [List.reverse_append, List.reverse_cons, List.append_assoc,
    List.takeWhile_append_of_pos hall]
  simp

theorem exists_last_colon {raw : Bytes} (h : 58 ∈ raw) :
    ∃ host port, raw = host ++ 58 :: port ∧ 58 ∉ port := by
  obtain ⟨front, back, hsplit, hnot⟩ := List.eq_append_cons_of_mem (List.mem_reverse.mpr h)
  refine ⟨back.reverse, front.reverse, ?_, fun hmem => hnot (List.mem_reverse.mp hmem)⟩
  rw [← List.reverse_reverse raw, hsplit]
  simp

theorem isPort_toNat (n : Nat) (h : IsPort n) : n.toUInt16.toNat = n :=
  UInt16.toNat_ofNat_of_lt' (Nat.lt_succ_of_le h.2)

theorem parsePort_eq_zero_iff (text : Bytes) :
    parsePort text 0 = 0 ↔ ∀ n, Denotes text n → ¬ IsPort n := by
  constructor
  · intro hzero n hdenotes hport
    rw [parses_port.taken ⟨n, hdenotes, hport, rfl⟩] at hzero
    have hn := isPort_toNat n hport
    rw [hzero] at hn
    have hpos := hport.1
    rw [← hn] at hpos
    exact absurd hpos (by decide)
  · intro hnone
    refine parses_port.refused ?_ 0
    rintro v ⟨n, hdenotes, hport, -⟩
    exact hnone n hdenotes hport

theorem dialable_iff {host port : Bytes} (hport : 58 ∉ port) :
    Dialable (host ++ 58 :: port) ↔ ∃ n, Denotes port n ∧ IsPort n := by
  constructor
  · rintro ⟨host', port', n, heq, hport', hn⟩
    obtain ⟨-, rfl⟩ := cut_last hport hport' heq
    exact ⟨n, hn⟩
  · rintro ⟨n, hn⟩
    exact ⟨host, port, n, rfl, hport, hn⟩

theorem addPeer_of_host (grpcPort : UInt16) {raw : Bytes} (hne : raw ≠ [])
    (hcolon : 58 ∉ raw) :
    addPeer grpcPort raw = some (raw ++ 58 :: decimal grpcPort.toNat) := by
  rw [addPeer, if_neg hne, if_pos hcolon, List.append_assoc]
  rfl

theorem addPeer_of_dialable (grpcPort : UInt16) {raw : Bytes} (h : Dialable raw) :
    addPeer grpcPort raw = some raw := by
  obtain ⟨host, port, n, rfl, hport, hn⟩ := h
  have hne : host ++ 58 :: port ≠ [] := by simp
  have hcolon : ¬ 58 ∉ host ++ 58 :: port := by simp
  have hparse : ¬ parsePort port 0 = 0 := by
    rw [parsePort_eq_zero_iff]
    exact fun hnone => hnone n hn.1 hn.2
  rw [addPeer, if_neg hne, if_neg hcolon, takeWhile_reverse_append hport, if_neg hparse]

theorem addPeer_of_not_isPeer (grpcPort : UInt16) {raw : Bytes} (h : ¬ IsPeer raw) :
    addPeer grpcPort raw = none := by
  rw [IsPeer, not_or] at h
  by_cases hne : raw = []
  · rw [addPeer, if_pos hne]
  · have hcolon : 58 ∈ raw := by
      by_contra hnot
      exact h.1 ⟨hne, hnot⟩
    obtain ⟨host, port, rfl, hport⟩ := exists_last_colon hcolon
    have hparse : parsePort port 0 = 0 := by
      rw [parsePort_eq_zero_iff]
      intro n hdenotes hn
      exact h.2 ((dialable_iff hport).mpr ⟨n, hdenotes, hn⟩)
    rw [addPeer, if_neg hne, if_neg (not_not.mpr hcolon), takeWhile_reverse_append hport,
      if_pos hparse]

theorem addPeer_isNone_iff (grpcPort : UInt16) (raw : Bytes) :
    (addPeer grpcPort raw).isNone = false ↔ IsPeer raw := by
  constructor
  · intro hsome
    by_contra hnot
    rw [addPeer_of_not_isPeer grpcPort hnot] at hsome
    cases hsome
  · rintro (⟨hne, hcolon⟩ | hdialable)
    · rw [addPeer_of_host grpcPort hne hcolon]
      rfl
    · rw [addPeer_of_dialable grpcPort hdialable]
      rfl

/-- Whatever is dialed has a port. -/
theorem dialable_of_addPeer {grpcPort : UInt16} (hport : 1 ≤ grpcPort.toNat) {raw p : Bytes}
    (h : addPeer grpcPort raw = some p) : Dialable p := by
  by_cases hpeer : IsPeer raw
  · rcases hpeer with ⟨hne, hcolon⟩ | hdialable
    · rw [addPeer_of_host grpcPort hne hcolon] at h
      obtain rfl := Option.some.inj h
      have hdigits : (58 : UInt8) ∉ decimal grpcPort.toNat := by
        intro hmem
        exact absurd (isDigit_of_mem_decimal hmem).2 (by decide)
      exact ⟨raw, _, _, rfl, hdigits, denotes_decimal _, hport,
        Nat.le_of_lt_succ grpcPort.toNat_lt⟩
    · rw [addPeer_of_dialable grpcPort hdialable] at h
      obtain rfl := Option.some.inj h
      exact hdialable
  · rw [addPeer_of_not_isPeer grpcPort hpeer] at h
    cases h

theorem dialable_of_loadPeers {grpcPort : UInt16} (hport : 1 ≤ grpcPort.toNat)
    (node : Option Yaml) : ∀ p ∈ (loadPeers grpcPort node).1, Dialable p := by
  intro p hp
  match node with
  | none => cases hp
  | some .null => cases hp
  | some .map => cases hp
  | some (.scalar raw) => exact dialable_of_addPeer hport (Option.mem_toList.mp hp)
  | some (.sequence items) =>
      simp only [loadPeers, List.mem_filterMap, List.mem_map, id_eq, exists_eq_right] at hp
      obtain ⟨item, -, hitem⟩ := hp
      obtain ⟨raw, -, hraw⟩ := Option.bind_eq_some_iff.mp hitem
      exact dialable_of_addPeer hport hraw

theorem nil_notMem_loadAdvertiseAddresses (node : Option Yaml) :
    [] ∉ (loadAdvertiseAddresses node).1 := by
  intro hmem
  match node with
  | none => cases hmem
  | some .null => cases hmem
  | some .map => cases hmem
  | some (.scalar address) =>
      rw [loadAdvertiseAddresses] at hmem
      split_ifs at hmem with hempty
      · cases hmem
      · exact hempty (List.mem_singleton.mp hmem).symm
  | some (.sequence items) =>
      simp [loadAdvertiseAddresses] at hmem

theorem loadOutbox_eq (stod : Stod) (root : Root) {config : FileConfig}
    (hframes : config.reliableOutboxMaxFrames = 1024)
    (hhwm : config.reliableOutboxHwm = 3 / 4) (hlwm : config.reliableOutboxLwm = 1 / 4) :
    loadOutbox stod root config =
      { config with
        reliableOutboxMaxFrames := if outboxFallsBack stod root then 1024
          else setting (readKey root "reliable_outbox_max_frames" parseOutboxMaxFrames 0) 1024
        reliableOutboxHwm := if outboxFallsBack stod root then 3 / 4
          else setting (waterMarkKey stod root "reliable_outbox_hwm") (3 / 4)
        reliableOutboxLwm := if outboxFallsBack stod root then 1 / 4
          else setting (waterMarkKey stod root "reliable_outbox_lwm") (1 / 4)
        fellBackToDefaults := config.fellBackToDefaults || outboxFallsBack stod root } := by
  rw [loadOutbox, hframes, hhwm, hlwm]
  split_ifs with hfalls hfalls' hfalls'
  · rw [hfalls', Bool.or_true]
  · exact absurd hfalls hfalls'
  · exact absurd hfalls' hfalls
  · rw [Bool.not_eq_true] at hfalls'
    rw [hfalls', Bool.or_false]

theorem loadRoot_eq (stod : Stod) (root : Root) :
    loadRoot stod root =
      { port := setting (readKey root "port" parsePort 0) 30002
        multicastAddress := setting (readKey root "multicast_ip" parseMulticastAddress [])
          "239.255.0.1".toUTF8.toList
        discoverySendPeriod :=
          setting (readKey root "discovery_period_seconds" parseDurationSeconds 0) 2
        participantTimeout :=
          setting (readKey root "participant_timeout_seconds" parseDurationSeconds 0) 10
        grpcPort := setting (readKey root "grpc_port" parsePort 0) 4000
        advertiseAddresses := (loadAdvertiseAddresses (root "advertise_address")).1
        peerEndpoints :=
          (loadPeers (setting (readKey root "grpc_port" parsePort 0) 4000) (root "peers")).1
        maxAdvertisedEndpoints :=
          setting (readKey root "max_advertised_endpoints" parseMaxEndpoints 0) 4
        receiverThreads := setting (readKey root "receiver_threads" (parseCountRange 1 4) 0) 1
        workerThreads := setting (readKey root "worker_threads" (parseCountRange 1 16) 0) 4
        rxRingSlots := setting (readKey root "rx_ring_slots" parseRingSlots 0) 4096
        soRcvbufBytes :=
          setting (readKey root "so_rcvbuf_bytes" (parseCountRange 0 (2 ^ 30)) 4294967295) 0
        reliableOutboxMaxFrames := if outboxFallsBack stod root then 1024
          else setting (readKey root "reliable_outbox_max_frames" parseOutboxMaxFrames 0) 1024
        reliableOutboxHwm := if outboxFallsBack stod root then 3 / 4
          else setting (waterMarkKey stod root "reliable_outbox_hwm") (3 / 4)
        reliableOutboxLwm := if outboxFallsBack stod root then 1 / 4
          else setting (waterMarkKey stod root "reliable_outbox_lwm") (1 / 4)
        reliableSendRateLimit := setting (rateKey root) 0
        fellBackToDefaults := fallsBackElsewhere stod root || invalid (rateKey root) } := by
  rw [← (loadRoot_rate stod root).2, loadRoot, loadOutbox_eq stod root rfl rfl rfl]
  rfl

/-- A documented duration, or one that has wrapped. -/
def Timed (d : Int64) : Prop :=
  InRange d ∨ d.toInt < 0

instance (d : Int64) : Decidable (Timed d) :=
  inferInstanceAs (Decidable (_ ∨ _))

/-- What every configuration meets. -/
structure FileConfig.Valid (c : FileConfig) : Prop where
  port : 1 ≤ c.port.toNat
  multicastAddress : MulticastGroup c.multicastAddress
  discoverySendPeriod : Timed c.discoverySendPeriod
  participantTimeout : Timed c.participantTimeout
  grpcPort : 1 ≤ c.grpcPort.toNat
  advertiseAddresses : [] ∉ c.advertiseAddresses
  peerEndpoints : ∀ p ∈ c.peerEndpoints, Dialable p
  maxAdvertisedEndpoints :
    1 ≤ c.maxAdvertisedEndpoints.toNat ∧ c.maxAdvertisedEndpoints.toNat ≤ 64
  receiverThreads : 1 ≤ c.receiverThreads.toNat ∧ c.receiverThreads.toNat ≤ 4
  workerThreads : 1 ≤ c.workerThreads.toNat ∧ c.workerThreads.toNat ≤ 16
  rxRingSlots : 2 ≤ c.rxRingSlots.toNat ∧ c.rxRingSlots.toNat.isPowerOfTwo
  soRcvbufBytes : c.soRcvbufBytes.toNat ≤ 2 ^ 30
  reliableOutboxMaxFrames : 1 ≤ c.reliableOutboxMaxFrames.toNat
  reliableOutboxLwm : 0 < c.reliableOutboxLwm
  marks : c.reliableOutboxLwm < c.reliableOutboxHwm
  reliableOutboxHwm : c.reliableOutboxHwm < 1
  reliableSendRateLimit : c.reliableSendRateLimit.toNat < 2 ^ 32 - 1

theorem multicastGroup_default : MulticastGroup "239.255.0.1".toUTF8.toList := by
  refine ⟨0xEFFF0001, by decide, by decide, ?_⟩
  decide +kernel

theorem Keyed.setting_spelt {α : Type*} {read : Option (Option α)} {text : Option Bytes}
    {spells : Bytes → α → Prop} (h : Keyed read text spells) {P : α → Prop} {default : α}
    (hdefault : P default) (hspells : ∀ t v, spells t v → P v) : P (setting read default) := by
  refine setting_mem hdefault ?_
  intro v hread
  obtain ⟨t, -, hv⟩ := h.read_iff.mp hread
  exact hspells t v hv

theorem toInt_duration {n : Nat} (h : IsDuration n) :
    (UInt64.ofNat n).toInt64.toInt = if n < 2 ^ 63 then (n : Int) else n - 2 ^ 64 := by
  rw [IsDuration] at h
  exact toInt_toInt64 (by omega)

theorem timed_of_isDuration {n : Nat} (h : IsDuration n) : Timed (UInt64.ofNat n).toInt64 := by
  rw [Timed, InRange, toInt_duration h]
  rw [IsDuration] at h
  split_ifs <;> omega

theorem valid_loadRoot (stod : Stod) (root : Root) : (loadRoot stod root).Valid := by
  have hport : ∀ key, ∀ default : UInt16, 1 ≤ default.toNat →
      1 ≤ (setting (readKey root key parsePort 0) default).toNat := by
    intro key default hdefault
    refine (parses_port.keyed root key 0).setting_spelt (P := fun v => 1 ≤ v.toNat) hdefault ?_
    rintro t v ⟨⟨n, -, hn, rfl⟩, -⟩
    rw [isPort_toNat n hn]
    exact hn.1
  have hduration : ∀ key, ∀ default : Int64, Timed default →
      Timed (setting (readKey root key parseDurationSeconds 0) default) := by
    intro key default hdefault
    refine (parses_duration.keyed root key 0).setting_spelt hdefault ?_
    rintro t v ⟨⟨n, -, hn, rfl⟩, -⟩
    exact timed_of_isDuration hn
  have hcount : ∀ key, ∀ lowest highest sentinel default : UInt32,
      lowest.toNat ≤ default.toNat ∧ default.toNat ≤ highest.toNat →
      lowest.toNat ≤
          (setting (readKey root key (parseCountRange lowest highest) sentinel) default).toNat ∧
        (setting (readKey root key (parseCountRange lowest highest) sentinel)
          default).toNat ≤ highest.toNat := by
    intro key lowest highest sentinel default hdefault
    refine ((parses_countRange lowest highest).keyed root key sentinel).setting_spelt
      (P := fun v => lowest.toNat ≤ v.toNat ∧ v.toNat ≤ highest.toNat) hdefault ?_
    rintro t v ⟨⟨n, -, hn, rfl⟩, -⟩
    rw [UInt32.toNat_ofNat_of_lt' (hn.2.trans_lt highest.toNat_lt)]
    exact hn
  obtain ⟨hframes, hlwm, hmarks, hhwm⟩ := @loadOutbox_coherent stod root
    { ({} : FileConfig) with fellBackToDefaults := scalarsFallBack root } rfl rfl rfl
  rw [loadOutbox_eq stod root rfl rfl rfl] at hframes hlwm hmarks hhwm
  rw [loadRoot_eq]
  constructor
  case port => exact hport "port" 30002 (by decide)
  case multicastAddress =>
    refine (parses_multicastAddress.keyed root _ []).setting_spelt multicastGroup_default ?_
    rintro t v ⟨⟨hgroup, rfl⟩, -⟩
    exact hgroup
  case discoverySendPeriod => exact hduration _ 2 (.inl (by decide))
  case participantTimeout => exact hduration _ 10 (.inl (by decide))
  case grpcPort => exact hport "grpc_port" 4000 (by decide)
  case advertiseAddresses => exact nil_notMem_loadAdvertiseAddresses _
  case peerEndpoints => exact dialable_of_loadPeers (hport "grpc_port" 4000 (by decide)) _
  case maxAdvertisedEndpoints =>
    refine (parses_maxEndpoints.keyed root _ 0).setting_spelt
      (P := fun v => 1 ≤ v.toNat ∧ v.toNat ≤ 64) (by decide) ?_
    rintro t v ⟨⟨n, -, hn, rfl⟩, -⟩
    rw [UInt64.toNat_ofNat_of_lt' ((min_le_left n 64).trans_lt hn.2)]
    omega
  case receiverThreads => exact hcount _ 1 4 0 1 (by decide)
  case workerThreads => exact hcount _ 1 16 0 4 (by decide)
  case rxRingSlots =>
    refine (parses_ringSlots.keyed root _ 0).setting_spelt
      (P := fun v => 2 ≤ v.toNat ∧ v.toNat.isPowerOfTwo) ⟨by decide, 12, by decide⟩ ?_
    rintro t v ⟨⟨n, -, hn, rfl⟩, -⟩
    rw [UInt64.toNat_ofNat_of_lt' hn.2.2]
    exact ⟨hn.1, hn.2.1⟩
  case soRcvbufBytes => exact (hcount _ 0 (2 ^ 30) 4294967295 0 (by decide)).2
  case reliableOutboxMaxFrames => exact hframes
  case reliableOutboxLwm => exact hlwm
  case marks => exact hmarks
  case reliableOutboxHwm => exact hhwm
  case reliableSendRateLimit =>
    refine (parses_rateLimit.keyed root _ 4294967295).setting_spelt
      (P := fun v => v.toNat < 2 ^ 32 - 1) (by decide) ?_
    rintro t v ⟨-, hne⟩
    have hlt := v.toNat_lt
    have hsentinel : v.toNat ≠ 2 ^ 32 - 1 := fun h => hne (UInt32.toNat_inj.mp h)
    omega

theorem FileConfig.Valid.flag {c : FileConfig} (h : c.Valid) (fellBack : Bool) :
    { c with fellBackToDefaults := fellBack }.Valid := by
  cases h
  constructor <;> assumption

theorem loadRoot_empty (stod : Stod) :
    loadRoot stod (fun _ => none) = { ({} : FileConfig) with fellBackToDefaults := true } := by
  have houtbox : outboxFallsBack stod (fun _ => none) = false := by
    have hmarks : decide ((1 / 4 : ℚ) < 3 / 4) = true := by norm_num
    change (false || false || false || !decide ((1 / 4 : ℚ) < 3 / 4)) = false
    rw [hmarks]
    rfl
  rw [loadRoot_eq, houtbox, fallsBackElsewhere]
  rfl

theorem valid_loadConfig (load : Bytes → Option Root) (stod : Stod) (content : Option Bytes) :
    (loadConfig load stod content).Valid := by
  have hdefault : ({} : FileConfig).Valid := by
    have hempty := valid_loadRoot stod fun _ => none
    rw [loadRoot_empty] at hempty
    exact hempty.flag false
  match content with
  | none => exact hdefault
  | some [] => exact hdefault
  | some (b :: bytes) =>
      have hconfig : loadConfig load stod (some (b :: bytes)) =
          ((load (b :: bytes)).map (loadRoot stod)).getD {} := rfl
      rw [hconfig]
      cases load (b :: bytes) with
      | none => exact hdefault
      | some root => exact valid_loadRoot stod root

/-- The text of a water mark under an optional key. -/
def Marked (stod : Stod) (text : Option Bytes) (q default : ℚ) : Prop :=
  match text with
  | none => q = default
  | some t => t ≠ [] ∧ stod t = some (q, t.length)

/-- The file of a configuration, with a text for each of its water marks.  A configuration that
has fallen back gets a peer that is no text. -/
def FileConfig.file (c : FileConfig) (hwm lwm : Option Bytes) : Root
  | "port" => some (.scalar (decimal c.port.toNat))
  | "multicast_ip" => some (.scalar c.multicastAddress)
  | "discovery_period_seconds" => some (.scalar (decimal c.discoverySendPeriod.toUInt64.toNat))
  | "participant_timeout_seconds" => some (.scalar (decimal c.participantTimeout.toUInt64.toNat))
  | "grpc_port" => some (.scalar (decimal c.grpcPort.toNat))
  | "max_advertised_endpoints" => some (.scalar (decimal c.maxAdvertisedEndpoints.toNat))
  | "receiver_threads" => some (.scalar (decimal c.receiverThreads.toNat))
  | "worker_threads" => some (.scalar (decimal c.workerThreads.toNat))
  | "rx_ring_slots" => some (.scalar (decimal c.rxRingSlots.toNat))
  | "so_rcvbuf_bytes" => some (.scalar (decimal c.soRcvbufBytes.toNat))
  | "reliable_outbox_max_frames" => some (.scalar (decimal c.reliableOutboxMaxFrames.toNat))
  | "reliable_outbox_hwm" => hwm.map .scalar
  | "reliable_outbox_lwm" => lwm.map .scalar
  | "reliable_send_rate_limit" => some (.scalar (decimal c.reliableSendRateLimit.toNat))
  | "advertise_address" => some (.sequence (c.advertiseAddresses.map some))
  | "peers" =>
      some (.sequence (c.peerEndpoints.map some ++ if c.fellBackToDefaults then [none] else []))
  | _ => none

theorem isDuration_of_timed {d : Int64} (h : Timed d) : IsDuration d.toUInt64.toNat := by
  have hn := d.toUInt64.toNat_lt
  have hvalue : d.toInt = (UInt64.ofNat d.toUInt64.toNat).toInt64.toInt := by
    rw [UInt64.ofNat_toNat, Int64.toInt64_toUInt64]
  rw [Timed, InRange, hvalue, toInt_toInt64 hn] at h
  rw [IsDuration]
  split_ifs at h <;> omega

section File

variable {c : FileConfig} {hwm lwm : Option Bytes}

theorem numbers_duration {d : Int64} (h : Timed d) :
    Numbers IsDuration (fun n => (UInt64.ofNat n).toInt64) (decimal d.toUInt64.toNat) d ∧
      d ≠ 0 := by
  refine ⟨⟨_, denotes_decimal _, isDuration_of_timed h, ?_⟩, ?_⟩
  · simp only [UInt64.ofNat_toNat, Int64.toInt64_toUInt64]
  · rintro rfl
    exact absurd h (by decide)

theorem numbers_port {port : UInt16} (h : 1 ≤ port.toNat) :
    Numbers IsPort Nat.toUInt16 (decimal port.toNat) port ∧ port ≠ 0 := by
  refine ⟨⟨_, denotes_decimal _, ⟨h, Nat.le_of_lt_succ port.toNat_lt⟩, ?_⟩, ?_⟩
  · exact UInt16.ofNat_toNat
  · rintro rfl
    exact absurd h (by decide)

theorem numbers_countRange {lowest highest sentinel count : UInt32}
    (h : lowest.toNat ≤ count.toNat ∧ count.toNat ≤ highest.toNat)
    (hsentinel : sentinel.toNat < lowest.toNat ∨ highest.toNat < sentinel.toNat) :
    Numbers (fun n => lowest.toNat ≤ n ∧ n ≤ highest.toNat) UInt32.ofNat
      (decimal count.toNat) count ∧ count ≠ sentinel := by
  refine ⟨⟨_, denotes_decimal _, h, UInt32.ofNat_toNat⟩, ?_⟩
  rintro rfl
  omega

/-- A water mark that is written is read back, and one that is not is the default. -/
theorem marked_key {stod : Stod} {root : Root} {key : String} {text : Option Bytes}
    {q default : ℚ} (htext : scalarText root key = text) (h : Marked stod text q default)
    (hpos : 0 < q) (hlt : q < 1) :
    setting (waterMarkKey stod root key) default = q ∧
      invalid (waterMarkKey stod root key) = false := by
  have hkeyed := waterMark_keyed stod root key
  cases text with
  | none =>
      rw [hkeyed.absent htext]
      exact ⟨Eq.symm h, rfl⟩
  | some t =>
      rw [hkeyed.taken t q htext ⟨h.1, h.2, hpos, hlt⟩]
      exact ⟨rfl, rfl⟩

theorem exists_marked {stod : Stod} {root : Root} (key : String) (default : ℚ) :
    ∃ text, Marked stod text (setting (waterMarkKey stod root key) default) default := by
  match hread : waterMarkKey stod root key with
  | none => exact ⟨none, rfl⟩
  | some none => exact ⟨none, rfl⟩
  | some (some q) =>
      obtain ⟨t, -, hne, hstod, -⟩ := (waterMark_keyed stod root key).read_iff.mp hread
      exact ⟨some t, hne, hstod⟩

theorem loadPeers_file (grpcPort : UInt16) {peers : List Bytes}
    (h : ∀ p ∈ peers, Dialable p) (fellBack : Bool) :
    loadPeers grpcPort
        (some (.sequence (peers.map some ++ if fellBack then [none] else []))) =
      (peers, fellBack) := by
  have hpeers : (peers.map some).map (fun item => item.bind (addPeer grpcPort)) =
      peers.map some := by
    rw [List.map_map]
    refine List.map_congr_left fun p hp => ?_
    exact addPeer_of_dialable grpcPort (h p hp)
  have hfilter : (peers.map some).filterMap id = peers := by
    rw [List.filterMap_map]
    exact List.filterMap_some
  have hany : (peers.map some).any Option.isNone = false := by
    rw [List.any_map, List.any_eq_false]
    exact fun p _ => Bool.false_ne_true
  rw [loadPeers, List.map_append, hpeers, List.filterMap_append, hfilter, List.any_append, hany]
  cases fellBack with
  | true => rw [if_pos rfl]; simp
  | false => simp

theorem loadAdvertiseAddresses_file {addresses : List Bytes} (h : [] ∉ addresses) :
    loadAdvertiseAddresses (some (.sequence (addresses.map some))) = (addresses, false) := by
  have hfilter : (addresses.map some).filterMap id = addresses := by
    rw [List.filterMap_map]
    exact List.filterMap_some
  have hany : (addresses.map some).any Option.isNone = false := by
    rw [List.any_map, List.any_eq_false]
    exact fun p _ => Bool.false_ne_true
  have hall : ∀ a ∈ addresses, decide (a ≠ []) = true := by
    intro a ha
    rw [decide_eq_true_iff]
    rintro rfl
    exact h ha
  rw [loadAdvertiseAddresses, hfilter, hany, List.filter_eq_self.mpr hall]

theorem spells_multicastAddress {s : Bytes} (h : MulticastGroup s) :
    (MulticastGroup s ∧ s = s) ∧ s ≠ [] := by
  refine ⟨⟨h, rfl⟩, ?_⟩
  rintro rfl
  obtain ⟨n, -, -, hn⟩ := h
  rw [formatIpv4, dotted] at hn
  simp at hn

theorem numbers_maxEndpoints {cap : UInt64} (h : 1 ≤ cap.toNat ∧ cap.toNat ≤ 64) :
    Numbers (fun n => 1 ≤ n ∧ n < 2 ^ 64) (fun n => UInt64.ofNat (min n 64))
      (decimal cap.toNat) cap ∧ cap ≠ 0 := by
  refine ⟨⟨_, denotes_decimal _, ⟨h.1, cap.toNat_lt⟩, ?_⟩, ?_⟩
  · simp only [min_eq_left h.2, UInt64.ofNat_toNat]
  · rintro rfl
    exact absurd h.1 (by decide)

theorem numbers_ringSlots {slots : UInt64} (h : 2 ≤ slots.toNat ∧ slots.toNat.isPowerOfTwo) :
    Numbers (fun n => 2 ≤ n ∧ n.isPowerOfTwo ∧ n < 2 ^ 64) UInt64.ofNat
      (decimal slots.toNat) slots ∧ slots ≠ 0 := by
  refine ⟨⟨_, denotes_decimal _, ⟨h.1, h.2, slots.toNat_lt⟩, UInt64.ofNat_toNat⟩, ?_⟩
  rintro rfl
  exact absurd h.1 (by decide)

theorem numbers_outboxMaxFrames {frames : UInt64} (h : 1 ≤ frames.toNat) :
    Numbers (fun n => 1 ≤ n ∧ n < 2 ^ 64) UInt64.ofNat (decimal frames.toNat) frames ∧
      frames ≠ 0 := by
  refine ⟨⟨_, denotes_decimal _, ⟨h, frames.toNat_lt⟩, UInt64.ofNat_toNat⟩, ?_⟩
  rintro rfl
  exact absurd h (by decide)

theorem numbers_rateLimit {limit : UInt32} (h : limit.toNat < 2 ^ 32 - 1) :
    Numbers (fun n => n < 2 ^ 64) UInt32.ofNat (decimal limit.toNat) limit ∧
      limit ≠ 4294967295 := by
  refine ⟨⟨_, denotes_decimal _, limit.toNat_lt.trans (by decide), UInt32.ofNat_toNat⟩, ?_⟩
  rintro rfl
  exact absurd h (by decide)

/-- A valid configuration is loaded from its file. -/
theorem loadRoot_file {stod : Stod} (h : c.Valid)
    (hhwm : Marked stod hwm c.reliableOutboxHwm (3 / 4))
    (hlwm : Marked stod lwm c.reliableOutboxLwm (1 / 4)) :
    loadRoot stod (c.file hwm lwm) = c := by
  have hport : readKey (c.file hwm lwm) "port" parsePort 0 = some (some c.port) :=
    (parses_port.keyed _ _ 0).taken _ _ rfl (numbers_port h.port)
  have haddr : readKey (c.file hwm lwm) "multicast_ip" parseMulticastAddress [] =
      some (some c.multicastAddress) :=
    (parses_multicastAddress.keyed _ _ []).taken _ _ rfl
      (spells_multicastAddress h.multicastAddress)
  have hdisc : readKey (c.file hwm lwm) "discovery_period_seconds" parseDurationSeconds 0 =
      some (some c.discoverySendPeriod) :=
    (parses_duration.keyed _ _ 0).taken _ _ rfl (numbers_duration h.discoverySendPeriod)
  have htimeout : readKey (c.file hwm lwm) "participant_timeout_seconds" parseDurationSeconds 0 =
      some (some c.participantTimeout) :=
    (parses_duration.keyed _ _ 0).taken _ _ rfl (numbers_duration h.participantTimeout)
  have hgrpc : readKey (c.file hwm lwm) "grpc_port" parsePort 0 = some (some c.grpcPort) :=
    (parses_port.keyed _ _ 0).taken _ _ rfl (numbers_port h.grpcPort)
  have hcap : readKey (c.file hwm lwm) "max_advertised_endpoints" parseMaxEndpoints 0 =
      some (some c.maxAdvertisedEndpoints) :=
    (parses_maxEndpoints.keyed _ _ 0).taken _ _ rfl
      (numbers_maxEndpoints h.maxAdvertisedEndpoints)
  have hrcvr : readKey (c.file hwm lwm) "receiver_threads" (parseCountRange 1 4) 0 =
      some (some c.receiverThreads) :=
    ((parses_countRange 1 4).keyed _ _ 0).taken _ _ rfl
      (numbers_countRange h.receiverThreads (.inl (by decide)))
  have hwork : readKey (c.file hwm lwm) "worker_threads" (parseCountRange 1 16) 0 =
      some (some c.workerThreads) :=
    ((parses_countRange 1 16).keyed _ _ 0).taken _ _ rfl
      (numbers_countRange h.workerThreads (.inl (by decide)))
  have hring : readKey (c.file hwm lwm) "rx_ring_slots" parseRingSlots 0 =
      some (some c.rxRingSlots) :=
    (parses_ringSlots.keyed _ _ 0).taken _ _ rfl (numbers_ringSlots h.rxRingSlots)
  have hrcv : readKey (c.file hwm lwm) "so_rcvbuf_bytes" (parseCountRange 0 (2 ^ 30))
      4294967295 = some (some c.soRcvbufBytes) :=
    ((parses_countRange 0 (2 ^ 30)).keyed _ _ 4294967295).taken _ _ rfl
      (numbers_countRange ⟨Nat.zero_le _, h.soRcvbufBytes⟩ (.inr (by decide)))
  have hframes : readKey (c.file hwm lwm) "reliable_outbox_max_frames" parseOutboxMaxFrames 0 =
      some (some c.reliableOutboxMaxFrames) :=
    (parses_outboxMaxFrames.keyed _ _ 0).taken _ _ rfl
      (numbers_outboxMaxFrames h.reliableOutboxMaxFrames)
  have hrate : rateKey (c.file hwm lwm) = some (some c.reliableSendRateLimit) :=
    (parses_rateLimit.keyed _ _ 4294967295).taken _ _ rfl
      (numbers_rateLimit h.reliableSendRateLimit)
  have hhwmText : scalarText (c.file hwm lwm) "reliable_outbox_hwm" = hwm := by
    cases hwm <;> rfl
  have hlwmText : scalarText (c.file hwm lwm) "reliable_outbox_lwm" = lwm := by
    cases lwm <;> rfl
  obtain ⟨hhwmRead, hhwmValid⟩ := marked_key hhwmText hhwm
    (h.reliableOutboxLwm.trans h.marks) h.reliableOutboxHwm
  obtain ⟨hlwmRead, hlwmValid⟩ := marked_key hlwmText hlwm
    h.reliableOutboxLwm (h.marks.trans h.reliableOutboxHwm)
  have houtbox : outboxFallsBack stod (c.file hwm lwm) = false := by
    rw [outboxFallsBack, hframes, hhwmValid, hlwmValid, hhwmRead, hlwmRead,
      decide_eq_true h.marks]
    rfl
  have haddresses : loadAdvertiseAddresses (c.file hwm lwm "advertise_address") =
      (c.advertiseAddresses, false) := loadAdvertiseAddresses_file h.advertiseAddresses
  have hpeers : loadPeers c.grpcPort (c.file hwm lwm "peers") =
      (c.peerEndpoints, c.fellBackToDefaults) :=
    loadPeers_file c.grpcPort h.peerEndpoints c.fellBackToDefaults
  have hset : ∀ {α : Type} (v default : α), setting (some (some v)) default = v :=
    fun _ _ => rfl
  have hscalars : scalarsFallBack (c.file hwm lwm) = false := by
    rw [scalarsFallBack, hport, haddr, hdisc, htimeout, hgrpc, hcap, hrcvr, hwork, hring, hrcv]
    rfl
  have hfell : fallsBackElsewhere stod (c.file hwm lwm) = c.fellBackToDefaults := by
    rw [fallsBackElsewhere, hscalars, houtbox, haddresses, hgrpc, hset, hpeers, Bool.or_false,
      Bool.or_false, Bool.false_or]
  rw [loadRoot_eq, hport, haddr, hdisc, htimeout, hgrpc, hcap, hrcvr, hwork, hring, hrcv, hframes,
    hrate, hhwmRead, hlwmRead, houtbox, haddresses, hfell, hset c.grpcPort, hpeers]
  simp only [hset, Bool.false_eq_true, if_false]
  rw [show invalid (some (some c.reliableSendRateLimit)) = false from rfl, Bool.or_false]

/-- The configurations that some file leaves behind are the valid ones whose water marks are the
defaults or can be written down. -/
theorem loadable_iff (stod : Stod) (c : FileConfig) :
    (∃ root, loadRoot stod root = c) ↔
      c.Valid ∧ (∃ hwm, Marked stod hwm c.reliableOutboxHwm (3 / 4)) ∧
        ∃ lwm, Marked stod lwm c.reliableOutboxLwm (1 / 4) := by
  constructor
  · rintro ⟨root, rfl⟩
    refine ⟨valid_loadRoot stod root, ?_⟩
    rw [loadRoot_eq]
    by_cases hfalls : outboxFallsBack stod root = true
    · simp only [hfalls, if_true]
      exact ⟨⟨none, rfl⟩, ⟨none, rfl⟩⟩
    · simp only [hfalls, Bool.false_eq_true, if_false]
      exact ⟨exists_marked _ _, exists_marked _ _⟩
  · rintro ⟨hvalid, ⟨hwm, hhwm⟩, ⟨lwm, hlwm⟩⟩
    exact ⟨c.file hwm lwm, loadRoot_file hvalid hhwm hlwm⟩

end File

section Clean

variable {α : Type*} [DecidableEq α] {parse : Bytes → α → α} {range : Nat → Prop}
  {value : Nat → α} {sentinel : α}

def Written (root : Root) (key : String) (range : Nat → Prop) : Prop :=
  ∃ t n, scalarText root key = some t ∧ Denotes t n ∧ range n

/-- Nothing else than a number of the range stands under the key. -/
def Unspoilt (root : Root) (key : String) (range : Nat → Prop) : Prop :=
  ∀ t, scalarText root key = some t → ∃ n, Denotes t n ∧ range n

theorem Parses.written_iff (h : Parses parse (Numbers range value)) {clean : Nat → Prop}
    (hclean : ∀ n, clean n ↔ range n ∧ value n ≠ sentinel) (root : Root) (key : String) :
    missing (readKey root key parse sentinel) = false ↔ Written root key clean := by
  rw [(h.keyed root key sentinel).missing_iff]
  constructor
  · rintro ⟨t, v, htext, ⟨n, hdenotes, hn, rfl⟩, hne⟩
    exact ⟨t, n, htext, hdenotes, (hclean n).mpr ⟨hn, hne⟩⟩
  · rintro ⟨t, n, htext, hdenotes, hn⟩
    obtain ⟨hrange, hne⟩ := (hclean n).mp hn
    exact ⟨t, value n, htext, ⟨n, hdenotes, hrange, rfl⟩, hne⟩

theorem Parses.unspoilt_iff (h : Parses parse (Numbers range value)) {clean : Nat → Prop}
    (hclean : ∀ n, clean n ↔ range n ∧ value n ≠ sentinel) (root : Root) (key : String) :
    invalid (readKey root key parse sentinel) = false ↔ Unspoilt root key clean := by
  rw [(h.keyed root key sentinel).invalid_iff]
  constructor
  · intro hspelt t htext
    obtain ⟨v, ⟨n, hdenotes, hn, rfl⟩, hne⟩ := hspelt t htext
    exact ⟨n, hdenotes, (hclean n).mpr ⟨hn, hne⟩⟩
  · intro hclean' t htext
    obtain ⟨n, hdenotes, hn⟩ := hclean' t htext
    obtain ⟨hrange, hne⟩ := (hclean n).mp hn
    exact ⟨value n, ⟨n, hdenotes, hrange, rfl⟩, hne⟩

end Clean

/-- The value of a water mark: its text's, or the default where there is no text. -/
def MarkUnder (stod : Stod) (root : Root) (key : String) (default q : ℚ) : Prop :=
  match scalarText root key with
  | none => q = default
  | some t => IsMark stod t q

theorem markUnder_iff {stod : Stod} {root : Root} {key : String} {default q : ℚ} :
    MarkUnder stod root key default q ↔
      invalid (waterMarkKey stod root key) = false ∧
        setting (waterMarkKey stod root key) default = q := by
  have hkeyed := waterMark_keyed stod root key
  rw [MarkUnder]
  cases htext : scalarText root key with
  | none =>
      rw [hkeyed.absent htext]
      exact ⟨fun h => ⟨rfl, h.symm⟩, fun h => h.2.symm⟩
  | some t =>
      constructor
      · intro hq
        rw [hkeyed.taken t q htext hq]
        exact ⟨rfl, rfl⟩
      · rintro ⟨hvalid, hq⟩
        obtain ⟨v, hv⟩ := hkeyed.invalid_iff.mp hvalid t htext
        rw [hkeyed.setting_of_taken htext hv] at hq
        exact hq ▸ hv

def CleanAddresses : Option Yaml → Prop
  | some .map => False
  | some (.sequence items) => none ∉ items
  | _ => True

def CleanPeers : Option Yaml → Prop
  | none => True
  | some (.scalar raw) => IsPeer raw
  | some (.sequence items) => ∀ item ∈ items, ∃ raw, item = some raw ∧ IsPeer raw
  | some _ => False

/-- A file with all that must be there and nothing that is refused. -/
structure CleanFile (stod : Stod) (root : Root) : Prop where
  port : Written root "port" IsPort
  multicastAddress : ∃ t, scalarText root "multicast_ip" = some t ∧ MulticastGroup t
  discoverySendPeriod : Written root "discovery_period_seconds" IsDuration
  participantTimeout : Written root "participant_timeout_seconds" IsDuration
  grpcPort : Written root "grpc_port" IsPort
  maxAdvertisedEndpoints :
    Written root "max_advertised_endpoints" fun n => 1 ≤ n ∧ n < 2 ^ 64
  receiverThreads : Unspoilt root "receiver_threads" fun n => 1 ≤ n ∧ n ≤ 4
  workerThreads : Unspoilt root "worker_threads" fun n => 1 ≤ n ∧ n ≤ 16
  rxRingSlots : Unspoilt root "rx_ring_slots" fun n => 2 ≤ n ∧ n.isPowerOfTwo ∧ n < 2 ^ 64
  soRcvbufBytes : Unspoilt root "so_rcvbuf_bytes" fun n => n ≤ 2 ^ 30
  reliableOutboxMaxFrames :
    Unspoilt root "reliable_outbox_max_frames" fun n => 1 ≤ n ∧ n < 2 ^ 64
  marks : ∃ hwm lwm, MarkUnder stod root "reliable_outbox_hwm" (3 / 4) hwm ∧
    MarkUnder stod root "reliable_outbox_lwm" (1 / 4) lwm ∧ lwm < hwm
  reliableSendRateLimit :
    Unspoilt root "reliable_send_rate_limit" fun n => n < 2 ^ 64 ∧ n % 2 ^ 32 ≠ 2 ^ 32 - 1
  advertiseAddresses : CleanAddresses (root "advertise_address")
  peerEndpoints : CleanPeers (root "peers")

theorem cleanAddresses_iff (node : Option Yaml) :
    (loadAdvertiseAddresses node).2 = false ↔ CleanAddresses node := by
  match node with
  | none => exact iff_of_true rfl trivial
  | some .null => exact iff_of_true rfl trivial
  | some (.scalar address) => exact iff_of_true rfl trivial
  | some .map => exact iff_of_false Bool.noConfusion id
  | some (.sequence items) =>
      rw [loadAdvertiseAddresses, CleanAddresses, List.any_eq_false]
      constructor
      · intro h hnone
        exact h none hnone rfl
      · rintro h item hitem hnone
        rw [Option.isNone_iff_eq_none.mp hnone] at hitem
        exact h hitem

theorem cleanPeers_iff (grpcPort : UInt16) (node : Option Yaml) :
    (loadPeers grpcPort node).2 = false ↔ CleanPeers node := by
  match node with
  | none => exact iff_of_true rfl trivial
  | some .null => exact iff_of_false Bool.noConfusion id
  | some .map => exact iff_of_false Bool.noConfusion id
  | some (.scalar raw) => exact addPeer_isNone_iff grpcPort raw
  | some (.sequence items) =>
      rw [loadPeers, CleanPeers, List.any_map, List.any_eq_false]
      constructor
      · intro h item hitem
        have hsome := h item hitem
        cases item with
        | none => exact absurd rfl hsome
        | some raw =>
            have hpeer := (addPeer_isNone_iff grpcPort raw).mp (Bool.eq_false_of_not_eq_true hsome)
            exact ⟨raw, rfl, hpeer⟩
      · intro h item hitem hnone
        obtain ⟨raw, rfl, hpeer⟩ := h item hitem
        have hsome := (addPeer_isNone_iff grpcPort raw).mpr hpeer
        exact Bool.false_ne_true (hsome.symm.trans hnone)

theorem isPort_clean (n : Nat) : IsPort n ↔ IsPort n ∧ n.toUInt16 ≠ 0 := by
  refine (and_iff_left_of_imp fun h hzero => ?_).symm
  have hn := isPort_toNat n h
  rw [hzero] at hn
  have hpos := h.1
  rw [← hn] at hpos
  exact absurd hpos (by decide)

theorem isDuration_clean (n : Nat) :
    IsDuration n ↔ IsDuration n ∧ (UInt64.ofNat n).toInt64 ≠ 0 := by
  refine (and_iff_left_of_imp fun h hzero => ?_).symm
  have htimed := timed_of_isDuration h
  rw [hzero] at htimed
  exact absurd htimed (by decide)

theorem ofNat_ne_of_ne {n k : Nat} (hn : n < 2 ^ 64) (hk : k < 2 ^ 64) (h : n ≠ k) :
    UInt64.ofNat n ≠ UInt64.ofNat k := by
  intro heq
  have hnat := congrArg UInt64.toNat heq
  rw [UInt64.toNat_ofNat_of_lt' hn, UInt64.toNat_ofNat_of_lt' hk] at hnat
  exact h hnat

theorem countRange_clean (lowest highest sentinel : UInt32)
    (hsentinel : sentinel.toNat < lowest.toNat ∨ highest.toNat < sentinel.toNat) (n : Nat) :
    (lowest.toNat ≤ n ∧ n ≤ highest.toNat) ↔
      (lowest.toNat ≤ n ∧ n ≤ highest.toNat) ∧ UInt32.ofNat n ≠ sentinel := by
  refine (and_iff_left_of_imp fun h heq => ?_).symm
  have hnat := congrArg UInt32.toNat heq
  rw [UInt32.toNat_ofNat_of_lt' (h.2.trans_lt highest.toNat_lt)] at hnat
  omega

theorem rateLimit_clean (n : Nat) :
    (n < 2 ^ 64 ∧ n % 2 ^ 32 ≠ 2 ^ 32 - 1) ↔ n < 2 ^ 64 ∧ UInt32.ofNat n ≠ 4294967295 := by
  have hvalue : UInt32.ofNat n = 4294967295 ↔ n % 2 ^ 32 = 2 ^ 32 - 1 := by
    rw [← UInt32.toNat_inj, UInt32.toNat_ofNat']
    rfl
  rw [ne_eq, ne_eq, hvalue]

theorem scalarsFallBack_iff (root : Root) :
    scalarsFallBack root = false ↔
      Written root "port" IsPort ∧
      (∃ t, scalarText root "multicast_ip" = some t ∧ MulticastGroup t) ∧
      Written root "discovery_period_seconds" IsDuration ∧
      Written root "participant_timeout_seconds" IsDuration ∧
      Written root "grpc_port" IsPort ∧
      (Written root "max_advertised_endpoints" fun n => 1 ≤ n ∧ n < 2 ^ 64) ∧
      (Unspoilt root "receiver_threads" fun n => 1 ≤ n ∧ n ≤ 4) ∧
      (Unspoilt root "worker_threads" fun n => 1 ≤ n ∧ n ≤ 16) ∧
      (Unspoilt root "rx_ring_slots" fun n => 2 ≤ n ∧ n.isPowerOfTwo ∧ n < 2 ^ 64) ∧
      Unspoilt root "so_rcvbuf_bytes" fun n => n ≤ 2 ^ 30 := by
  have hport : ∀ key, missing (readKey root key parsePort 0) = false ↔ Written root key IsPort :=
    parses_port.written_iff isPort_clean root
  have haddr : missing (readKey root "multicast_ip" parseMulticastAddress []) = false ↔
      ∃ t, scalarText root "multicast_ip" = some t ∧ MulticastGroup t := by
    rw [(parses_multicastAddress.keyed root _ []).missing_iff]
    constructor
    · rintro ⟨t, v, htext, ⟨hgroup, -⟩, -⟩
      exact ⟨t, htext, hgroup⟩
    · rintro ⟨t, htext, hgroup⟩
      exact ⟨t, t, htext, spells_multicastAddress hgroup⟩
  have hduration : ∀ key, missing (readKey root key parseDurationSeconds 0) = false ↔
      Written root key IsDuration := parses_duration.written_iff isDuration_clean root
  have hcap : missing (readKey root "max_advertised_endpoints" parseMaxEndpoints 0) = false ↔
      Written root "max_advertised_endpoints" fun n => 1 ≤ n ∧ n < 2 ^ 64 := by
    refine parses_maxEndpoints.written_iff (fun n => ?_) root _
    refine (and_iff_left_of_imp fun h => ?_).symm
    exact ofNat_ne_of_ne (k := 0) ((min_le_left n 64).trans_lt h.2) (by decide) (by omega)
  have hcount : ∀ key, ∀ highest : UInt32,
      invalid (readKey root key (parseCountRange 1 highest) 0) = false ↔
        Unspoilt root key fun n => 1 ≤ n ∧ n ≤ highest.toNat := fun key highest =>
    (parses_countRange 1 highest).unspoilt_iff
      (countRange_clean 1 highest 0 (.inl (by decide))) root key
  have hring : invalid (readKey root "rx_ring_slots" parseRingSlots 0) = false ↔
      Unspoilt root "rx_ring_slots" fun n => 2 ≤ n ∧ n.isPowerOfTwo ∧ n < 2 ^ 64 := by
    refine parses_ringSlots.unspoilt_iff (fun n => ?_) root _
    refine (and_iff_left_of_imp fun h => ?_).symm
    exact ofNat_ne_of_ne (k := 0) h.2.2 (by decide) (by omega)
  have hrcv : invalid (readKey root "so_rcvbuf_bytes" (parseCountRange 0 (2 ^ 30))
      4294967295) = false ↔ Unspoilt root "so_rcvbuf_bytes" fun n => n ≤ 2 ^ 30 := by
    refine (parses_countRange 0 (2 ^ 30)).unspoilt_iff (fun n => ?_) root _
    rw [← countRange_clean 0 (2 ^ 30) 4294967295 (.inr (by decide)) n]
    exact (and_iff_right (Nat.zero_le n)).symm
  simp only [scalarsFallBack, Bool.or_eq_false_iff, hport, haddr, hduration, hcap, hcount, hring,
    hrcv, and_assoc]
  rfl

theorem outboxFallsBack_iff (stod : Stod) (root : Root) :
    outboxFallsBack stod root = false ↔
      (Unspoilt root "reliable_outbox_max_frames" fun n => 1 ≤ n ∧ n < 2 ^ 64) ∧
      ∃ hwm lwm, MarkUnder stod root "reliable_outbox_hwm" (3 / 4) hwm ∧
        MarkUnder stod root "reliable_outbox_lwm" (1 / 4) lwm ∧ lwm < hwm := by
  have hframes : invalid (readKey root "reliable_outbox_max_frames" parseOutboxMaxFrames 0) =
      false ↔ Unspoilt root "reliable_outbox_max_frames" fun n => 1 ≤ n ∧ n < 2 ^ 64 := by
    refine parses_outboxMaxFrames.unspoilt_iff (fun n => ?_) root _
    refine (and_iff_left_of_imp fun h => ?_).symm
    exact ofNat_ne_of_ne (k := 0) h.2 (by decide) (by omega)
  simp only [outboxFallsBack, Bool.or_eq_false_iff, hframes, Bool.not_eq_false', decide_eq_true_eq,
    and_assoc]
  refine and_congr_right fun _ => ?_
  constructor
  · rintro ⟨hhwm, hlwm, hlt⟩
    exact ⟨_, _, markUnder_iff.mpr ⟨hhwm, rfl⟩, markUnder_iff.mpr ⟨hlwm, rfl⟩, hlt⟩
  · rintro ⟨hwm, lwm, hhwm, hlwm, hlt⟩
    obtain ⟨hhwmValid, rfl⟩ := markUnder_iff.mp hhwm
    obtain ⟨hlwmValid, rfl⟩ := markUnder_iff.mp hlwm
    exact ⟨hhwmValid, hlwmValid, hlt⟩

/-- A file loads without falling back exactly when it is clean. -/
theorem fellBack_iff (stod : Stod) (root : Root) :
    (loadRoot stod root).fellBackToDefaults = false ↔ CleanFile stod root := by
  have hrate : invalid (rateKey root) = false ↔ Unspoilt root "reliable_send_rate_limit"
      fun n => n < 2 ^ 64 ∧ n % 2 ^ 32 ≠ 2 ^ 32 - 1 :=
    parses_rateLimit.unspoilt_iff rateLimit_clean root _
  rw [(loadRoot_rate stod root).2, fallsBackElsewhere, Bool.or_eq_false_iff, Bool.or_eq_false_iff,
    Bool.or_eq_false_iff, Bool.or_eq_false_iff, scalarsFallBack_iff, outboxFallsBack_iff,
    cleanAddresses_iff, cleanPeers_iff, hrate]
  constructor
  · rintro ⟨⟨⟨⟨⟨h₁, h₂, h₃, h₄, h₅, h₆, h₇, h₈, h₉, h₁₀⟩, h₁₁, h₁₂⟩, h₁₃⟩, h₁₄⟩, h₁₅⟩
    exact ⟨h₁, h₂, h₃, h₄, h₅, h₆, h₇, h₈, h₉, h₁₀, h₁₁, h₁₂, h₁₅, h₁₃, h₁₄⟩
  · rintro ⟨h₁, h₂, h₃, h₄, h₅, h₆, h₇, h₈, h₉, h₁₀, h₁₁, h₁₂, h₁₅, h₁₃, h₁₄⟩
    exact ⟨⟨⟨⟨⟨h₁, h₂, h₃, h₄, h₅, h₆, h₇, h₈, h₉, h₁₀⟩, h₁₁, h₁₂⟩, h₁₃⟩, h₁₄⟩, h₁₅⟩

end Edriel
