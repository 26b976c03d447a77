import Edriel.EdrielConfig
import Edriel.Lib.WireSize
import Edriel.MulticastAddress
import Edriel.Registry

namespace Edriel

open Proto3

/-- The addresses of the local interfaces that a unicast listener can be reached at. -/
def discoverLocalUnicastIpv4 (interfaces : List UInt32) : List Bytes :=
  (interfaces.filter fun hostOrder : UInt32 =>
    let first := (hostOrder >>> 24) &&& 0xFF
    !(first == 0 || first == 127 || decide (224 ≤ first))).map formatIpv4

def FileConfig.endpoint (config : FileConfig) (address : Bytes) : Endpoint :=
  { address, port := config.grpcPort.toUInt32, transport := grpcTcp }

/-- Appends a candidate, unless it is empty, there already, or over the cap. -/
def appendEndpoint (config : FileConfig) (result : List Endpoint) (address : Bytes) :
    List Endpoint :=
  if address = [] ∨ config.maxAdvertisedEndpoints.toNat ≤ result.length then result
  else if result.any fun existing =>
      existing.address == address && existing.port == config.grpcPort.toUInt32 then result
  else result ++ [config.endpoint address]

/-- The configured addresses come before the discovered ones. -/
def buildSelfEndpoints (config : FileConfig) (discovered : List Bytes) : List Endpoint :=
  discovered.foldl (appendEndpoint config)
    (config.advertiseAddresses.foldl (appendEndpoint config) [])

def discoveryMessage (me : Identity) (config : FileConfig) (discovered : List Bytes) :
    Message :=
  .identifier
    { pid := me.pid.toUInt32
      tid := me.tid
      uid := me.uid
      endpoints := buildSelfEndpoints config discovered }

/-- What a heartbeat multicasts.  A failure to serialise leaves the packet empty, and goes
unnoticed. -/
def discoveryPacket (me : Identity) (config : FileConfig) (discovered : List Bytes) : Bytes :=
  prependMagicNumberToPacket
    ((serializeToString (discoveryMessage me config discovered).toFields).getD [])

def advertise (cap : Nat) (addresses : List Bytes) (address : Bytes) : List Bytes :=
  if address = [] ∨ cap ≤ addresses.length ∨ address ∈ addresses then addresses
  else addresses ++ [address]

/-- The first addresses that are neither empty nor repeated, as many as the cap allows. -/
def advertisedAddresses (config : FileConfig) (discovered : List Bytes) : List Bytes :=
  (config.advertiseAddresses ++ discovered).foldl
    (advertise config.maxAdvertisedEndpoints.toNat) []

theorem appendEndpoint_map (config : FileConfig) (addresses : List Bytes) (address : Bytes) :
    appendEndpoint config (addresses.map config.endpoint) address =
      (advertise config.maxAdvertisedEndpoints.toNat addresses address).map config.endpoint := by
  have hpresent : ((addresses.map config.endpoint).any fun existing =>
      existing.address == address && existing.port == config.grpcPort.toUInt32) = true ↔
        address ∈ addresses := by
    rw [List.any_eq_true]
    constructor
    · rintro ⟨existing, hmem, hequal⟩
      obtain ⟨address', hmem', rfl⟩ := List.mem_map.mp hmem
      rw [Bool.and_eq_true, beq_iff_eq, beq_iff_eq] at hequal
      obtain rfl : address' = address := hequal.1
      exact hmem'
    · intro hmem
      refine ⟨config.endpoint address, List.mem_map_of_mem hmem, ?_⟩
      rw [Bool.and_eq_true, beq_iff_eq, beq_iff_eq]
      exact ⟨rfl, rfl⟩
  rw [appendEndpoint, advertise, List.length_map]
  by_cases hskipped : address = [] ∨ config.maxAdvertisedEndpoints.toNat ≤ addresses.length
  · rw [if_pos hskipped, if_pos (by tauto)]
  · rw [if_neg hskipped]
    by_cases hmem : address ∈ addresses
    · rw [if_pos (hpresent.mpr hmem), if_pos (Or.inr (Or.inr hmem))]
    · rw [if_neg (fun h => hmem (hpresent.mp h)), if_neg (by tauto), List.map_append,
        List.map_singleton]

theorem foldl_appendEndpoint (config : FileConfig) (candidates addresses : List Bytes) :
    candidates.foldl (appendEndpoint config) (addresses.map config.endpoint) =
      (candidates.foldl (advertise config.maxAdvertisedEndpoints.toNat) addresses).map
        config.endpoint := by
  induction candidates generalizing addresses with
  | nil => rfl
  | cons address candidates ih =>
      rw [List.foldl_cons, List.foldl_cons, appendEndpoint_map, ih]

theorem buildSelfEndpoints_eq (config : FileConfig) (discovered : List Bytes) :
    buildSelfEndpoints config discovered =
      (advertisedAddresses config discovered).map config.endpoint := by
  have hfirst := foldl_appendEndpoint config config.advertiseAddresses []
  rw [List.map_nil] at hfirst
  rw [buildSelfEndpoints, hfirst, foldl_appendEndpoint, advertisedAddresses, List.foldl_append]

theorem foldl_advertise_mem {cap : Nat} {candidates addresses : List Bytes}
    (hlength : addresses.length ≤ cap) :
    (candidates.foldl (advertise cap) addresses).length ≤ cap ∧
      ∀ address ∈ candidates.foldl (advertise cap) addresses,
        address ∈ addresses ∨ address ∈ candidates := by
  induction candidates generalizing addresses with
  | nil => exact ⟨hlength, fun address hmem => Or.inl hmem⟩
  | cons candidate candidates ih =>
      rw [List.foldl_cons, advertise]
      split_ifs with hskipped
      · obtain ⟨hcap, hmem⟩ := ih hlength
        refine ⟨hcap, fun address h => ?_⟩
        exact (hmem address h).imp_right (List.mem_cons_of_mem candidate)
      · rw [not_or, not_or, Nat.not_le] at hskipped
        have hroom : (addresses ++ [candidate]).length ≤ cap := by
          rw [List.length_append, List.length_singleton]
          omega
        obtain ⟨hcap, hmem⟩ := ih hroom
        refine ⟨hcap, fun address h => ?_⟩
        rcases hmem address h with hearlier | hlater
        · rcases List.mem_append.mp hearlier with hold | hnew
          · exact Or.inl hold
          · rw [List.mem_singleton.mp hnew]
            exact Or.inr List.mem_cons_self
        · exact Or.inr (List.mem_cons_of_mem candidate hlater)

theorem length_advertisedAddresses_le (config : FileConfig) (discovered : List Bytes) :
    (advertisedAddresses config discovered).length ≤ config.maxAdvertisedEndpoints.toNat :=
  (foldl_advertise_mem (Nat.zero_le _)).1

theorem mem_of_mem_advertisedAddresses {config : FileConfig} {discovered : List Bytes}
    {address : Bytes} (h : address ∈ advertisedAddresses config discovered) :
    address ∈ config.advertiseAddresses ++ discovered := by
  rcases (foldl_advertise_mem (Nat.zero_le _)).2 address h with hnil | hmem
  · cases hnil
  · exact hmem

def endpointSize (config : FileConfig) (address : Bytes) : Nat :=
  bytesSize (stringSize address.length + scalarSize config.grpcPort.toNat + scalarSize 1)

def heartbeatSize (me : Identity) (config : FileConfig) (discovered : List Bytes) : Nat :=
  bytesSize (scalarSize me.pid.toUInt32.toNat + scalarSize me.tid.toNat +
    scalarSize me.uid.toNat +
      ((advertisedAddresses config discovered).map (endpointSize config)).sum)

theorem length_serialize_endpoint (config : FileConfig) (address : Bytes) :
    (serialize (config.endpoint address).toFields).length =
      stringSize address.length + scalarSize config.grpcPort.toNat + scalarSize 1 := by
  rw [Endpoint.toFields, length_serialize_append, length_serialize_append,
    length_serialize_bytesField (by decide), length_serialize_scalarField (by decide),
    length_serialize_scalarField (by decide)]
  rfl

theorem length_serialize_discoveryMessage (me : Identity) (config : FileConfig)
    (discovered : List Bytes) :
    (serialize (discoveryMessage me config discovered).toFields).length =
      heartbeatSize me config discovered := by
  rw [discoveryMessage, Message.toFields, length_serialize_messageField (by decide),
    Identifier.toFields, length_serialize_append, length_serialize_append,
    length_serialize_append, length_serialize_scalarField (by decide),
    length_serialize_scalarField (by decide), length_serialize_scalarField (by decide),
    length_serialize_repeated (by decide), buildSelfEndpoints_eq, List.map_map, heartbeatSize]
  congr 4
  funext address
  rw [Function.comp_apply, length_serialize_endpoint, endpointSize]

theorem length_discoveryPacket (me : Identity) (config : FileConfig) (discovered : List Bytes) :
    (discoveryPacket me config discovered).length =
      4 + if heartbeatSize me config discovered ≤ 2 ^ 31 - 1 then
        heartbeatSize me config discovered else 0 := by
  rw [discoveryPacket, prependMagicNumberToPacket, List.length_append, serializeToString,
    length_serialize_discoveryMessage]
  split_ifs
  · rw [Option.getD_some, length_serialize_discoveryMessage]
    rfl
  · rfl

theorem endpointSize_le (config : FileConfig) (address : Bytes) :
    endpointSize config address ≤ address.length + 44 := by
  have haddress := stringSize_le address.length
  have hport := scalarSize_le config.grpcPort.toNat
  have htransport := scalarSize_le 1
  have hfield := bytesSize_le (stringSize address.length + scalarSize config.grpcPort.toNat +
    scalarSize 1)
  rw [endpointSize]
  omega

theorem heartbeatSize_le (me : Identity) (config : FileConfig) (discovered : List Bytes) :
    heartbeatSize me config discovered ≤
      ((advertisedAddresses config discovered).map (endpointSize config)).sum + 44 := by
  have hpid := scalarSize_le me.pid.toUInt32.toNat
  have htid := scalarSize_le me.tid.toNat
  have huid := scalarSize_le me.uid.toNat
  rw [heartbeatSize]
  refine (bytesSize_le _).trans ?_
  omega

/-- Every advertised address is in the packet. -/
theorem length_le_heartbeatSize {config : FileConfig} {discovered : List Bytes}
    {address : Bytes} (h : address ∈ advertisedAddresses config discovered) (me : Identity) :
    address.length ≤ heartbeatSize me config discovered := by
  have hstring := le_stringSize address.length
  have hfield := le_bytesSize (stringSize address.length + scalarSize config.grpcPort.toNat +
    scalarSize 1)
  have hsum : endpointSize config address ≤
      ((advertisedAddresses config discovered).map (endpointSize config)).sum :=
    List.single_le_sum (fun _ _ => Nat.zero_le _) _ (List.mem_map_of_mem h)
  rw [endpointSize] at hsum
  rw [heartbeatSize]
  refine le_trans ?_ (le_bytesSize _)
  omega

/-- The cap together with a bound on the length of the addresses does what the cap alone does
not: four host names of at most 255 bytes, say, always fit. -/
theorem heartbeat_fits_of_bounded {config : FileConfig} {discovered : List Bytes} {bound : Nat}
    (hlength : ∀ address ∈ config.advertiseAddresses ++ discovered, address.length ≤ bound)
    (hcap : config.maxAdvertisedEndpoints.toNat * (bound + 44) ≤ 1452) (me : Identity) :
    (discoveryPacket me config discovered).length ≤ recvBufferSize := by
  have hsum : ((advertisedAddresses config discovered).map (endpointSize config)).sum ≤
      config.maxAdvertisedEndpoints.toNat * (bound + 44) := by
    have heach : ∀ size ∈ (advertisedAddresses config discovered).map (endpointSize config),
        size ≤ bound + 44 := by
      intro size hsize
      obtain ⟨address, hmem, rfl⟩ := List.mem_map.mp hsize
      have hshort := hlength address (mem_of_mem_advertisedAddresses hmem)
      exact (endpointSize_le config address).trans (by omega)
    have htotal := List.sum_le_card_nsmul _ _ heach
    rw [List.length_map, smul_eq_mul] at htotal
    exact htotal.trans (Nat.mul_le_mul_right _ (length_advertisedAddresses_le _ _))
  have hsize := heartbeatSize_le me config discovered
  rw [length_discoveryPacket, recvBufferSize]
  split_ifs <;> omega

/-- A heartbeat fits a datagram exactly when its fields add up to 1496 bytes at most, or to so
many that it is not serialised at all.  Neither the length of an address nor the number of
endpoints sees to that. -/
theorem heartbeat_fits_iff (load : Bytes → Option Root) (stod : Stod) (content : Option Bytes)
    (me : Identity) (discovered : List Bytes) :
    (discoveryPacket me (loadConfig load stod content) discovered).length ≤ recvBufferSize ↔
      heartbeatSize me (loadConfig load stod content) discovered ≤ 1496 ∨
        2 ^ 31 ≤ heartbeatSize me (loadConfig load stod content) discovered := by
  rw [length_discoveryPacket, recvBufferSize]
  split_ifs <;> omega

def longAddress : Bytes :=
  List.replicate 1500 97

def advertisingRoot : Root := fun key =>
  if key = "advertise_address" then some (.scalar longAddress) else none

theorem longAddress_ne_nil : longAddress ≠ [] := by
  rw [longAddress, List.replicate_succ]
  exact List.cons_ne_nil _ _

theorem advertisedAddresses_advertisingRoot :
    advertisedAddresses (loadRoot (fun _ => none) advertisingRoot) [] = [longAddress] := by
  have haddresses : (loadRoot (fun _ => none) advertisingRoot).advertiseAddresses =
      [longAddress] := by
    change (if longAddress = [] then [] else [longAddress]) = _
    rw [if_neg longAddress_ne_nil]
  have hcap : (loadRoot (fun _ => none) advertisingRoot).maxAdvertisedEndpoints.toNat = 4 := by
    change (loadOutbox _ _ _).maxAdvertisedEndpoints.toNat = 4
    rw [loadOutbox]
    split_ifs <;> rfl
  rw [advertisedAddresses, haddresses, hcap]
  change advertise 4 [] longAddress = _
  rw [advertise, if_neg]
  · rfl
  · rintro (hnil | hfull | hmem)
    · exact longAddress_ne_nil hnil
    · exact absurd hfull (by decide)
    · cases hmem

theorem heartbeat_exceeds :
    ¬ (discoveryPacket ⟨1, 1, 1⟩ (loadConfig (fun _ => some advertisingRoot) (fun _ => none)
      (some [0])) []).length ≤ recvBufferSize := by
  change ¬ (discoveryPacket ⟨1, 1, 1⟩ (loadRoot (fun _ => none) advertisingRoot) []).length ≤ _
  have haddresses := advertisedAddresses_advertisingRoot
  have hlow : longAddress.length ≤
      heartbeatSize ⟨1, 1, 1⟩ (loadRoot (fun _ => none) advertisingRoot) [] := by
    apply length_le_heartbeatSize
    rw [haddresses]
    exact List.mem_singleton_self _
  have hhigh := heartbeatSize_le ⟨1, 1, 1⟩ (loadRoot (fun _ => none) advertisingRoot) []
  have hendpoint := endpointSize_le (loadRoot (fun _ => none) advertisingRoot) longAddress
  rw [haddresses, List.map_singleton, List.sum_singleton] at hhigh
  have hlength : longAddress.length = 1500 := List.length_replicate
  rw [length_discoveryPacket, recvBufferSize, if_pos (by omega)]
  omega

end Edriel
