import Edriel.Lib.Decimal
import Edriel.Lib.Text

/-!
`config.yml`: strict parsers that fall back as a whole, and the values that a file leaves
behind.
-/

namespace Edriel

open Proto3 Decimal

/-- Seconds.  Both durations are bounded by 24 hours. -/
def kMaxConfigurableDuration : Int64 := 86400

def kMaxAdvertisedEndpointsCap : UInt64 := 64

/-- The check is made on the signed value. -/
def parseDurationSeconds : Bytes → Int64 → Int64 :=
  readWhole
    (fun parsed => !decide (parsed < 1) && !decide (kMaxConfigurableDuration < parsed.toInt64))
    UInt64.toInt64

def parsePort : Bytes → UInt16 → UInt16 :=
  readWhole (fun parsed => !decide (parsed < 1) && !decide (65535 < parsed)) UInt64.toUInt16

def parseMaxEndpoints : Bytes → UInt64 → UInt64 :=
  readWhole (fun parsed => !decide (parsed < 1)) fun parsed =>
    if kMaxAdvertisedEndpointsCap ≤ parsed then kMaxAdvertisedEndpointsCap else parsed

def parseCountRange (lowest highest : UInt32) : Bytes → UInt32 → UInt32 :=
  readWhole
    (fun parsed => !decide (parsed < lowest.toUInt64) && !decide (highest.toUInt64 < parsed))
    UInt64.toUInt32

def parseRingSlots : Bytes → UInt64 → UInt64 :=
  readWhole (fun parsed => !decide (parsed < 2) && parsed &&& (parsed - 1) == 0) id

def parseOutboxMaxFrames : Bytes → UInt64 → UInt64 :=
  readWhole (fun parsed => parsed != 0) id

def parseRateLimit : Bytes → UInt32 → UInt32 :=
  readWhole (fun _ => true) UInt64.toUInt32

/-- `std::stod`: the number at the front of a string and how many characters it takes, or
nothing when it throws. -/
abbrev Stod := Bytes → Option (ℚ × Nat)

def parseWaterMark (stod : Stod) (value : Bytes) (minVal maxVal fallback : ℚ) : ℚ :=
  if value = [] then fallback
  else
    match stod value with
    | none => fallback
    | some (parsed, consumed) =>
        if consumed ≠ value.length then fallback
        else if ¬ (minVal < parsed ∧ parsed < maxVal) then fallback
        else parsed

/-- A decimal number up to 255 without leading zeros. -/
def parseOctet (octet : Bytes) : Option UInt64 :=
  if octet = [] ∨ 3 < octet.length ∨ (1 < octet.length ∧ octet.head? = some 48) then none
  else readWhole (fun parsed => !decide (255 < parsed)) some octet none

/-- Four octets, the first of a multicast group. -/
def parseMulticastAddress (value fallback : Bytes) : Bytes :=
  match (value.splitOn 46).mapM parseOctet with
  | none => fallback
  | some octets =>
      match octets with
      | [firstOctet, _, _, _] =>
          if firstOctet < 224 ∨ 239 < firstOctet then fallback else value
      | _ => fallback

/-- What stands under a key; an item of a sequence is text or no scalar. -/
inductive Yaml where
  | null
  | scalar (text : Bytes)
  | sequence (items : List (Option Bytes))
  | map

abbrev Root := String → Option Yaml

structure FileConfig where
  port : UInt16 := 30002
  multicastAddress : Bytes := "239.255.0.1".toUTF8.toList
  discoverySendPeriod : Int64 := 2
  participantTimeout : Int64 := 10
  grpcPort : UInt16 := 4000
  advertiseAddresses : List Bytes := []
  peerEndpoints : List Bytes := []
  maxAdvertisedEndpoints : UInt64 := 4
  receiverThreads : UInt32 := 1
  workerThreads : UInt32 := 4
  rxRingSlots : UInt64 := 4096
  soRcvbufBytes : UInt32 := 0
  reliableOutboxMaxFrames : UInt64 := 1024
  reliableOutboxHwm : ℚ := 3 / 4
  reliableOutboxLwm : ℚ := 1 / 4
  reliableSendRateLimit : UInt32 := 0
  fellBackToDefaults : Bool := false

def scalarText (root : Root) (key : String) : Option Bytes :=
  match root key with
  | some (.scalar text) => some text
  | _ => none

/-- A key that is absent, invalid or has a value: the parsers are called with a sentinel
that no value equals. -/
def readKey {α : Type*} [DecidableEq α] (root : Root) (key : String)
    (parse : Bytes → α → α) (sentinel : α) : Option (Option α) :=
  (scalarText root key).map fun text =>
    if parse text sentinel ≠ sentinel then some (parse text sentinel) else none

def waterMarkKey (stod : Stod) (root : Root) (key : String) : Option (Option ℚ) :=
  (scalarText root key).map fun text =>
    if 0 < parseWaterMark stod text 0 1 (-1) then some (parseWaterMark stod text 0 1 (-1))
    else none

def setting {α : Type*} (read : Option (Option α)) (default : α) : α :=
  read.join.getD default

def missing {α : Type*} (read : Option (Option α)) : Bool :=
  read.join.isNone

def invalid {α : Type*} (read : Option (Option α)) : Bool :=
  read.any Option.isNone

/-- The keys of the outbox fall back together. -/
def loadOutbox (stod : Stod) (root : Root) (config : FileConfig) : FileConfig :=
  let frames := readKey root "reliable_outbox_max_frames" parseOutboxMaxFrames 0
  let hwm := waterMarkKey stod root "reliable_outbox_hwm"
  let lwm := waterMarkKey stod root "reliable_outbox_lwm"
  if invalid frames || invalid hwm || invalid lwm ||
      !decide (setting lwm config.reliableOutboxLwm < setting hwm config.reliableOutboxHwm) then
    { config with
      reliableOutboxMaxFrames := 1024
      reliableOutboxHwm := 3 / 4
      reliableOutboxLwm := 1 / 4
      fellBackToDefaults := true }
  else
    { config with
      reliableOutboxMaxFrames := setting frames config.reliableOutboxMaxFrames
      reliableOutboxHwm := setting hwm config.reliableOutboxHwm
      reliableOutboxLwm := setting lwm config.reliableOutboxLwm }

/-- The addresses to advertise, and whether an item is malformed.  An empty text names
none. -/
def loadAdvertiseAddresses : Option Yaml → List Bytes × Bool
  | none => ([], false)
  | some .null => ([], false)
  | some (.scalar address) => (if address = [] then [] else [address], false)
  | some (.sequence items) =>
      (items.filterMap id |>.filter (· ≠ []), items.any Option.isNone)
  | some .map => ([], true)

/-- `addPeer`: a bare host gets the port of the reliable path. -/
def addPeer (grpcPort : UInt16) (raw : Bytes) : Option Bytes :=
  if raw = [] then none
  else if 58 ∉ raw then some (raw ++ [58] ++ Text.decimal grpcPort.toNat)
  else if parsePort (raw.reverse.takeWhile (· ≠ 58)).reverse 0 = 0 then none
  else some raw

def loadPeers (grpcPort : UInt16) : Option Yaml → List Bytes × Bool
  | none => ([], false)
  | some (.scalar raw) => ((addPeer grpcPort raw).toList, (addPeer grpcPort raw).isNone)
  | some (.sequence items) =>
      let peers := items.map fun item => item.bind (addPeer grpcPort)
      (peers.filterMap id, peers.any Option.isNone)
  | some _ => ([], true)

def loadRoot (stod : Stod) (root : Root) : FileConfig :=
  let port := readKey root "port" parsePort 0
  let addr := readKey root "multicast_ip" parseMulticastAddress []
  let disc := readKey root "discovery_period_seconds" parseDurationSeconds 0
  let timeout := readKey root "participant_timeout_seconds" parseDurationSeconds 0
  let grpc := readKey root "grpc_port" parsePort 0
  let cap := readKey root "max_advertised_endpoints" parseMaxEndpoints 0
  let rcvr := readKey root "receiver_threads" (parseCountRange 1 4) 0
  let work := readKey root "worker_threads" (parseCountRange 1 16) 0
  let ring := readKey root "rx_ring_slots" parseRingSlots 0
  let rcv := readKey root "so_rcvbuf_bytes" (parseCountRange 0 (2 ^ 30)) 4294967295
  let rate := readKey root "reliable_send_rate_limit" parseRateLimit 4294967295
  let defaults : FileConfig := {}
  let grpcPort := setting grpc defaults.grpcPort
  let addresses := loadAdvertiseAddresses (root "advertise_address")
  let peers := loadPeers grpcPort (root "peers")
  let config := loadOutbox stod root
    { defaults with
      port := setting port defaults.port
      multicastAddress := setting addr defaults.multicastAddress
      discoverySendPeriod := setting disc defaults.discoverySendPeriod
      participantTimeout := setting timeout defaults.participantTimeout
      grpcPort := grpcPort
      maxAdvertisedEndpoints := setting cap defaults.maxAdvertisedEndpoints
      receiverThreads := setting rcvr defaults.receiverThreads
      workerThreads := setting work defaults.workerThreads
      rxRingSlots := setting ring defaults.rxRingSlots
      soRcvbufBytes := setting rcv defaults.soRcvbufBytes
      fellBackToDefaults :=
        missing port || missing addr || missing disc || missing timeout || missing grpc ||
          missing cap || invalid rcvr || invalid work || invalid ring || invalid rcv }
  { config with
    reliableSendRateLimit := setting rate defaults.reliableSendRateLimit
    advertiseAddresses := addresses.1
    peerEndpoints := peers.1
    fellBackToDefaults :=
      config.fellBackToDefaults || invalid rate || addresses.2 || peers.2 }

/-- `loadConfig` on the content of the file, if it can be read.  `load` is what yaml-cpp
makes of it: nothing when the file does not parse or is no map. -/
def loadConfig (load : Bytes → Option Root) (stod : Stod) (content : Option Bytes) :
    FileConfig :=
  match content with
  | none => {}
  | some [] => {}
  | some bytes => ((load bytes).map (loadRoot stod)).getD {}

theorem toInt_toInt64 {n : Nat} (hn : n < 2 ^ 64) :
    (UInt64.ofNat n).toInt64.toInt = if n < 2 ^ 63 then (n : Int) else n - 2 ^ 64 := by
  have hbits : (UInt64.ofNat n).toInt64.toInt = (BitVec.ofNat 64 n).toInt := rfl
  rw [hbits, BitVec.toInt_eq_toNat_cond, BitVec.toNat_ofNat, Nat.mod_eq_of_lt hn]
  split_ifs <;> omega

theorem parseDurationSeconds_of_denotes {value : Bytes} {n : Nat} (h : Denotes value n)
    (hn : n < 2 ^ 64) (fallback : Int64) :
    parseDurationSeconds value fallback =
      if 1 ≤ n ∧ (n ≤ 86400 ∨ 2 ^ 63 ≤ n) then (UInt64.ofNat n).toInt64 else fallback := by
  have hone : UInt64.ofNat n < 1 ↔ ¬ 1 ≤ n := by
    rw [UInt64.lt_iff_toNat_lt, UInt64.toNat_ofNat_of_lt' hn]
    exact Nat.not_le.symm
  have hmax : kMaxConfigurableDuration < (UInt64.ofNat n).toInt64 ↔
      ¬ (n ≤ 86400 ∨ 2 ^ 63 ≤ n) := by
    have hbound : kMaxConfigurableDuration.toInt = 86400 := rfl
    rw [Int64.lt_iff_toInt_lt, hbound, toInt_toInt64 hn]
    split_ifs <;> omega
  rw [parseDurationSeconds, readWhole_of_denotes h hn]
  simp only [hone, hmax, decide_not, Bool.not_not, Bool.and_eq_true, decide_eq_true_eq]

/-- A string of digits is taken for its number in the documented range, and everything else
for the fallback. -/
def DurationExact (value : Bytes) (fallback : Int64) : Prop :=
  (∀ n, Denotes value n → 1 ≤ n → n ≤ 86400 →
    (parseDurationSeconds value fallback).toInt = n) ∧
  ((∀ n, Denotes value n → ¬ (1 ≤ n ∧ n ≤ 86400)) →
    parseDurationSeconds value fallback = fallback)

/-- The text is a number that is negative as a signed 64-bit integer. -/
def Wraps (value : Bytes) : Prop :=
  ∃ n, Denotes value n ∧ 2 ^ 63 ≤ n ∧ n < 2 ^ 64

theorem durationExact_iff (value : Bytes) (fallback : Int64) :
    DurationExact value fallback ↔
      ∀ n, Denotes value n → 2 ^ 63 ≤ n → n < 2 ^ 64 → fallback.toInt = n - 2 ^ 64 := by
  constructor
  · rintro ⟨-, hother⟩ n hdenotes hlarge hn
    have hfallback := hother (by
      intro m hm
      obtain rfl := hm.unique hdenotes
      omega)
    rw [parseDurationSeconds_of_denotes hdenotes hn, if_pos ⟨by omega, .inr hlarge⟩] at hfallback
    rw [← hfallback, toInt_toInt64 hn, if_neg (by omega)]
  · intro hwraps
    refine ⟨?_, ?_⟩
    · intro n hdenotes hone hmax
      rw [parseDurationSeconds_of_denotes hdenotes (by omega), if_pos ⟨hone, .inl hmax⟩,
        toInt_toInt64 (by omega), if_pos (by omega)]
    · intro hother
      by_cases hfits : ∃ n, n < 2 ^ 64 ∧ Denotes value n
      · obtain ⟨n, hn, hdenotes⟩ := hfits
        have hrange := hother n hdenotes
        rw [parseDurationSeconds_of_denotes hdenotes hn]
        split_ifs with haccepts
        · apply Int64.toInt_inj.mp
          rw [toInt_toInt64 hn, if_neg (by omega), hwraps n hdenotes (by omega) hn]
        · rfl
      · push Not at hfits
        exact readWhole_of_not_denotes hfits

def InRange (d : Int64) : Prop :=
  1 ≤ d.toInt ∧ d.toInt ≤ 86400

instance (d : Int64) : Decidable (InRange d) :=
  inferInstanceAs (Decidable (_ ∧ _))

theorem inRange_setting_iff (root : Root) (key : String) {default : Int64}
    (hdefault : InRange default) :
    InRange (setting (readKey root key parseDurationSeconds 0) default) ↔
      ∀ text, scalarText root key = some text → ¬ Wraps text := by
  cases htext : scalarText root key with
  | none =>
      rw [readKey, htext]
      exact iff_of_true hdefault nofun
  | some text =>
      have hone : (∀ text', some text = some text' → ¬ Wraps text') ↔ ¬ Wraps text := by
        constructor
        · exact fun h => h text rfl
        · rintro h text' heq
          obtain rfl := Option.some.inj heq
          exact h
      rw [hone, readKey, htext, Option.map_some]
      by_cases hfits : ∃ n, n < 2 ^ 64 ∧ Denotes text n
      · obtain ⟨n, hn, hdenotes⟩ := hfits
        have hwraps : Wraps text ↔ 2 ^ 63 ≤ n := by
          constructor
          · rintro ⟨m, hm, hlarge, -⟩
            exact hm.unique hdenotes ▸ hlarge
          · exact fun hlarge => ⟨n, hdenotes, hlarge, hn⟩
        rw [parseDurationSeconds_of_denotes hdenotes hn, hwraps]
        split_ifs with haccepts hzero
        · -- a number was read, and it is not the sentinel
          change InRange (UInt64.ofNat n).toInt64 ↔ _
          rw [InRange, toInt_toInt64 hn]
          split_ifs <;> omega
        · have hzero' := congrArg Int64.toInt (not_not.mp hzero)
          rw [toInt_toInt64 hn] at hzero'
          change _ = (0 : Int) at hzero'
          split_ifs at hzero' <;> omega
        · rename_i hsentinel
          exact absurd rfl hsentinel
        · exact iff_of_true hdefault (by omega)
      · push Not at hfits
        have hnone : ¬ Wraps text := by
          rintro ⟨n, hdenotes, -, hn⟩
          exact hfits n hn hdenotes
        have hsentinel : parseDurationSeconds text 0 = 0 := readWhole_of_not_denotes hfits
        rw [hsentinel, if_neg (fun h => h rfl)]
        exact iff_of_true hdefault hnone

theorem loadOutbox_durations (stod : Stod) (root : Root) (config : FileConfig) :
    (loadOutbox stod root config).discoverySendPeriod = config.discoverySendPeriod ∧
      (loadOutbox stod root config).participantTimeout = config.participantTimeout := by
  rw [loadOutbox]
  split_ifs
  · exact ⟨rfl, rfl⟩
  · exact ⟨rfl, rfl⟩

theorem loadRoot_durations (stod : Stod) (root : Root) :
    (loadRoot stod root).discoverySendPeriod =
        setting (readKey root "discovery_period_seconds" parseDurationSeconds 0) 2 ∧
      (loadRoot stod root).participantTimeout =
        setting (readKey root "participant_timeout_seconds" parseDurationSeconds 0) 10 :=
  loadOutbox_durations stod root _

/-- A duration is exact unless it wraps to a negative number (which then would have to be the
fallback), and a file leaves durations in range exactly when neither of its keys wraps. -/
theorem durations_exact_iff (load : Bytes → Option Root) (stod : Stod)
    (content : Option Bytes) (value : Bytes) (fallback : Int64) :
    (DurationExact value fallback ↔
      ∀ n, Denotes value n → 2 ^ 63 ≤ n → n < 2 ^ 64 → fallback.toInt = n - 2 ^ 64) ∧
    (InRange (loadConfig load stod content).discoverySendPeriod ∧
        InRange (loadConfig load stod content).participantTimeout ↔
      ∀ bytes root, content = some bytes → bytes ≠ [] → load bytes = some root →
        ∀ key ∈ ["discovery_period_seconds", "participant_timeout_seconds"],
          ∀ text, scalarText root key = some text → ¬ Wraps text) := by
  have htwo : InRange 2 := by decide
  have hten : InRange 10 := by decide
  refine ⟨durationExact_iff value fallback, ?_⟩
  cases content with
  | none => exact iff_of_true ⟨htwo, hten⟩ nofun
  | some bytes =>
      cases bytes with
      | nil =>
          refine iff_of_true ⟨htwo, hten⟩ ?_
          rintro bytes root heq hne
          exact absurd (Option.some.inj heq).symm hne
      | cons b bytes =>
          have hconfig : loadConfig load stod (some (b :: bytes)) =
              ((load (b :: bytes)).map (loadRoot stod)).getD {} := rfl
          rw [hconfig]
          cases hload : load (b :: bytes) with
          | none =>
              refine iff_of_true ⟨htwo, hten⟩ ?_
              rintro bytes' root heq - hroot
              obtain rfl := Option.some.inj heq
              rw [hload] at hroot
              cases hroot
          | some root =>
              obtain ⟨hdisc, htimeout⟩ := loadRoot_durations stod root
              rw [Option.map_some, Option.getD_some, hdisc, htimeout,
                inRange_setting_iff root _ htwo, inRange_setting_iff root _ hten]
              constructor
              · rintro ⟨hperiod, hpeers⟩ bytes' root' heq - hroot key hkey text htext
                obtain rfl := Option.some.inj heq
                obtain rfl := Option.some.inj (hload.symm.trans hroot)
                rcases List.mem_cons.mp hkey with rfl | hkey
                · exact hperiod text htext
                · obtain rfl := List.mem_singleton.mp hkey
                  exact hpeers text htext
              · intro h
                have hkeys := h _ root rfl (List.cons_ne_nil b bytes) hload
                exact ⟨hkeys _ (by simp), hkeys _ (by simp)⟩

/-- 9223372036854775808, the smallest number that wraps. -/
def wrappingText : Bytes :=
  [57, 50, 50, 51, 51, 55, 50, 48, 51, 54, 56, 53, 52, 55, 55, 53, 56, 48, 56]

def wrappingRoot : Root := fun key =>
  if key = "participant_timeout_seconds" then some (.scalar wrappingText) else none

theorem denotes_wrappingText : Denotes wrappingText (2 ^ 63) := by
  decide +kernel

theorem duration_wraps :
    ¬ DurationExact wrappingText 99 ∧
      ¬ InRange (loadConfig (fun _ => some wrappingRoot) (fun _ => none)
        (some [0])).participantTimeout := by
  refine ⟨?_, ?_⟩
  · rw [durationExact_iff]
    intro h
    have hwrapped := h (2 ^ 63) denotes_wrappingText le_rfl (by norm_num)
    have hfallback : (99 : Int64).toInt = 99 := rfl
    omega
  · have htimeout := (loadRoot_durations (fun _ => none) wrappingRoot).2
    have hconfig : loadConfig (fun _ => some wrappingRoot) (fun _ => none) (some [0]) =
        loadRoot (fun _ => none) wrappingRoot := rfl
    rw [hconfig, htimeout, inRange_setting_iff wrappingRoot _ (by decide)]
    intro h
    exact h wrappingText rfl ⟨2 ^ 63, denotes_wrappingText, le_rfl, by norm_num⟩

end Edriel
