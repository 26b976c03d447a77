import Edriel.EdrielConfig
import Edriel.Lib.Numerals

namespace Edriel

open Proto3 Decimal Text

/-- Four octets with dots between them. -/
def dotted (a b c d : Nat) : Bytes :=
  decimal a ++ [46] ++ decimal b ++ [46] ++ decimal c ++ [46] ++ decimal d

def formatIpv4 (hostOrder : UInt32) : Bytes :=
  dotted ((hostOrder >>> 24) &&& 0xFF).toNat ((hostOrder >>> 16) &&& 0xFF).toNat
    ((hostOrder >>> 8) &&& 0xFF).toNat (hostOrder &&& 0xFF).toNat

/-- The text of an address in 224.0.0.0 .. 239.255.255.255. -/
def MulticastGroup (s : Bytes) : Prop :=
  ∃ h : UInt32, 0xE0000000 ≤ h ∧ h ≤ 0xEFFFFFFF ∧ s = formatIpv4 h

/-- The loop over the octets: the first of them and how many there are.  A turn takes a dot
off the rest. -/
def octetLoop : Nat → Bytes → Option UInt64 → Nat → Option (UInt64 × Nat)
  | 0, _, _, _ => none
  | turns + 1, rest, firstOctet, parts =>
      (parseOctet (rest.takeWhile (· ≠ 46))).bind fun parsed =>
        match rest.dropWhile (· ≠ 46) with
        | [] => some (firstOctet.getD parsed, parts + 1)
        | _ :: rest => octetLoop turns rest (some (firstOctet.getD parsed)) (parts + 1)

theorem splitOn_of_takeWhile (rest : Bytes) :
    rest.splitOn 46 = rest.takeWhile (· ≠ 46) ::
      match rest.dropWhile (· ≠ 46) with
      | [] => []
      | _ :: rest => rest.splitOn 46 := by
  have hnotMem : 46 ∉ rest.takeWhile (· ≠ 46) := by
    intro hmem
    have hne := List.mem_takeWhile_imp hmem
    exact of_decide_eq_true hne rfl
  have hsplit := List.takeWhile_append_dropWhile (p := fun b : UInt8 => decide (b ≠ 46))
    (l := rest)
  cases hdrop : rest.dropWhile (· ≠ 46) with
  | nil =>
      rw [hdrop, List.append_nil] at hsplit
      rw [hsplit] at hnotMem ⊢
      exact List.splitOn_eq_singleton hnotMem
  | cons b rest' =>
      have hb : b = 46 := by
        have hhead := List.head?_dropWhile_not (fun b : UInt8 => decide (b ≠ 46)) rest
        rw [hdrop, List.head?_cons] at hhead
        simpa using hhead
      rw [hdrop, hb] at hsplit
      conv_lhs => rw [← hsplit]
      exact List.splitOn_append_cons_self_of_not_mem hnotMem rest'

theorem octetLoop_eq {turns : Nat} {rest : Bytes} (hturns : rest.length < turns)
    (firstOctet : Option UInt64) (parts : Nat) :
    octetLoop turns rest firstOctet parts =
      ((rest.splitOn 46).mapM parseOctet).map fun octets =>
        (firstOctet.getD (octets.headD 0), parts + octets.length) := by
  induction turns generalizing rest firstOctet parts with
  | zero => exact absurd hturns (Nat.not_lt_zero _)
  | succ turns ih =>
      rw [octetLoop, splitOn_of_takeWhile, List.mapM_cons]
      cases parseOctet (rest.takeWhile (· ≠ 46)) with
      | none => rfl
      | some parsed =>
          cases hdrop : rest.dropWhile (· ≠ 46) with
          | nil => rfl
          | cons b rest' =>
              have hshorter : rest'.length < turns := by
                have hlength := List.length_dropWhile_le (fun b : UInt8 => decide (b ≠ 46)) rest
                rw [hdrop, List.length_cons] at hlength
                omega
              change octetLoop turns rest' (some (firstOctet.getD parsed)) (parts + 1) =
                (((rest'.splitOn 46).mapM parseOctet).bind fun octets =>
                  some (parsed :: octets)).map _
              rw [ih hshorter]
              cases (rest'.splitOn 46).mapM parseOctet with
              | none => rfl
              | some octets =>
                  change some (firstOctet.getD parsed, parts + 1 + octets.length) =
                    some (firstOctet.getD parsed, parts + (octets.length + 1))
                  rw [Nat.add_assoc, Nat.add_comm 1]

/-- The checks behind the loop, which has a turn for every byte and one more. -/
theorem parseMulticastAddress_eq_loop (value fallback : Bytes) :
    parseMulticastAddress value fallback =
      match octetLoop (value.length + 1) value none 0 with
      | none => fallback
      | some (firstOctet, parts) =>
          if parts ≠ 4 then fallback
          else if firstOctet < 224 ∨ 239 < firstOctet then fallback else value := by
  rw [octetLoop_eq (Nat.lt_succ_self _), parseMulticastAddress]
  cases (value.splitOn 46).mapM parseOctet with
  | none => rfl
  | some octets =>
      rcases octets with _ | ⟨a, _ | ⟨b, _ | ⟨c, _ | ⟨d, _ | ⟨e, octets⟩⟩⟩⟩⟩
      · rfl
      · rfl
      · rfl
      · rfl
      · rfl
      · simp

theorem parseOctet_eq_some_iff {octet : Bytes} {v : UInt64} :
    parseOctet octet = some v ↔ v.toNat ≤ 255 ∧ octet = decimal v.toNat := by
  have haccepts : ∀ v : UInt64, (!decide (255 < v)) = true ↔ v.toNat ≤ 255 := by
    intro v
    rw [Bool.not_eq_true', decide_eq_false_iff_not, UInt64.lt_iff_toNat_lt, Nat.not_lt]
    rfl
  rw [parseOctet]
  constructor
  · intro h
    split_ifs at h with hshape
    rw [not_or, not_or] at hshape
    obtain ⟨-, -, hcanonical⟩ := hshape
    by_cases hfits : ∃ n, n < 2 ^ 64 ∧ Denotes octet n
    · obtain ⟨n, hn, hdenotes⟩ := hfits
      rw [readWhole_of_denotes hdenotes hn] at h
      split_ifs at h with hrange
      obtain rfl := Option.some.inj h
      refine ⟨(haccepts _).mp hrange, ?_⟩
      rw [UInt64.toNat_ofNat_of_lt' hn]
      exact eq_decimal_of_denotes hdenotes hcanonical
    · push Not at hfits
      rw [readWhole_of_not_denotes hfits] at h
      cases h
  · rintro ⟨hrange, rfl⟩
    have hlength : (decimal v.toNat).length ≤ 3 :=
      (length_decimal_le_iff (by decide)).mpr (by omega)
    have hdenotes := denotes_decimal v.toNat
    rw [if_neg, readWhole_of_denotes hdenotes v.toNat_lt, UInt64.ofNat_toNat,
      if_pos ((haccepts v).mpr hrange)]
    rw [not_or, not_or]
    exact ⟨hdenotes.1, Nat.not_lt.mpr hlength, canonical_decimal v.toNat⟩

theorem mapM_parseOctet_eq_some_iff {pieces : List Bytes} {octets : List UInt64} :
    pieces.mapM parseOctet = some octets ↔
      pieces = octets.map (fun v => decimal v.toNat) ∧ ∀ v ∈ octets, v.toNat ≤ 255 := by
  induction pieces generalizing octets with
  | nil =>
      rw [List.mapM_nil]
      constructor
      · intro h
        obtain rfl := Option.some.inj h
        exact ⟨rfl, List.forall_mem_nil _⟩
      · rintro ⟨h, -⟩
        rw [List.map_eq_nil_iff.mp h.symm]
        rfl
  | cons piece pieces ih =>
      rw [List.mapM_cons]
      constructor
      · intro h
        obtain ⟨v, hv, hrest⟩ := Option.bind_eq_some_iff.mp h
        obtain ⟨rest, hpieces, heq⟩ := Option.bind_eq_some_iff.mp hrest
        obtain rfl := Option.some.inj heq
        obtain ⟨hrange, rfl⟩ := parseOctet_eq_some_iff.mp hv
        obtain ⟨rfl, hranges⟩ := ih.mp hpieces
        exact ⟨rfl, List.forall_mem_cons.mpr ⟨hrange, hranges⟩⟩
      · rintro ⟨heq, hranges⟩
        cases octets with
        | nil => cases heq
        | cons v rest =>
            obtain ⟨rfl, rfl⟩ := List.cons.inj heq
            obtain ⟨hrange, hranges⟩ := List.forall_mem_cons.mp hranges
            have hv := parseOctet_eq_some_iff.mpr ⟨hrange, rfl⟩
            have hrest := ih.mpr ⟨rfl, hranges⟩
            rw [hv, hrest]
            rfl

theorem octet_eq (h : UInt32) (k : UInt32) (hk : k.toNat < 32) :
    ((h >>> k) &&& 0xFF).toNat = h.toNat / 2 ^ k.toNat % 256 := by
  rw [UInt32.toNat_and, UInt32.toNat_shiftRight, Nat.mod_eq_of_lt hk, Nat.shiftRight_eq_div_pow]
  exact Nat.and_two_pow_sub_one_eq_mod _ 8

theorem dot_notMem_decimal (n : Nat) : (46 : UInt8) ∉ decimal n := by
  intro hmem
  obtain ⟨hlow, -⟩ := isDigit_of_mem_decimal hmem
  exact absurd hlow (by decide)

theorem splitOn_dotted (a b c d : Nat) :
    (dotted a b c d).splitOn 46 = [decimal a, decimal b, decimal c, decimal d] := by
  simp only [dotted, List.append_assoc, List.cons_append, List.nil_append]
  rw [List.splitOn_append_cons_self_of_not_mem (dot_notMem_decimal a),
    List.splitOn_append_cons_self_of_not_mem (dot_notMem_decimal b),
    List.splitOn_append_cons_self_of_not_mem (dot_notMem_decimal c),
    List.splitOn_eq_singleton (dot_notMem_decimal d)]

theorem formatIpv4_eq (h : UInt32) :
    formatIpv4 h = dotted (h.toNat / 2 ^ 24) (h.toNat / 2 ^ 16 % 256) (h.toNat / 2 ^ 8 % 256)
      (h.toNat % 256) := by
  have hfirst : h.toNat / 2 ^ 24 % 256 = h.toNat / 2 ^ 24 := by
    have hlt := h.toNat_lt
    exact Nat.mod_eq_of_lt (by omega)
  have hlast : (h &&& 0xFF).toNat = h.toNat % 256 := by
    rw [UInt32.toNat_and]
    exact Nat.and_two_pow_sub_one_eq_mod _ 8
  have h24 := octet_eq h 24 (by decide)
  have h16 := octet_eq h 16 (by decide)
  have h8 := octet_eq h 8 (by decide)
  rw [formatIpv4, h24, h16, h8, hlast]
  change dotted (h.toNat / 2 ^ 24 % 256) _ _ _ = _
  rw [hfirst]
  rfl

theorem exists_formatIpv4 {a b c d : Nat} (ha : a ≤ 255) (hb : b ≤ 255) (hc : c ≤ 255)
    (hd : d ≤ 255) :
    ∃ h : UInt32, h.toNat / 2 ^ 24 = a ∧ formatIpv4 h = dotted a b c d := by
  have hlt : a * 2 ^ 24 + b * 2 ^ 16 + c * 2 ^ 8 + d < 2 ^ 32 := by omega
  have hnat := UInt32.toNat_ofNat_of_lt' hlt
  refine ⟨UInt32.ofNat (a * 2 ^ 24 + b * 2 ^ 16 + c * 2 ^ 8 + d), ?_, ?_⟩
  · rw [hnat]
    omega
  · have h1 : (a * 2 ^ 24 + b * 2 ^ 16 + c * 2 ^ 8 + d) / 2 ^ 24 = a := by omega
    have h2 : (a * 2 ^ 24 + b * 2 ^ 16 + c * 2 ^ 8 + d) / 2 ^ 16 % 256 = b := by omega
    have h3 : (a * 2 ^ 24 + b * 2 ^ 16 + c * 2 ^ 8 + d) / 2 ^ 8 % 256 = c := by omega
    have h4 : (a * 2 ^ 24 + b * 2 ^ 16 + c * 2 ^ 8 + d) % 256 = d := by omega
    rw [formatIpv4_eq, hnat, h1, h2, h3, h4]

def Accepted (value : Bytes) : Prop :=
  ∃ a b c d : UInt64, (value.splitOn 46).mapM parseOctet = some [a, b, c, d] ∧
    ¬ (a < 224 ∨ 239 < a)

theorem parseMulticastAddress_of_accepted {value : Bytes} (h : Accepted value)
    (fallback : Bytes) : parseMulticastAddress value fallback = value := by
  obtain ⟨a, b, c, d, hoctets, hrange⟩ := h
  rw [parseMulticastAddress, hoctets]
  exact if_neg hrange

theorem parseMulticastAddress_of_not_accepted {value : Bytes} (h : ¬ Accepted value)
    (fallback : Bytes) : parseMulticastAddress value fallback = fallback := by
  rw [parseMulticastAddress]
  split
  · rfl
  · rename_i octets hoctets
    split
    · rename_i a b c d
      split_ifs with hrange
      · rfl
      · exact absurd ⟨a, b, c, d, hoctets, hrange⟩ h
    · rfl

theorem splitOn_eq_iff {value : Bytes} {a b c d : Nat} :
    value.splitOn 46 = [decimal a, decimal b, decimal c, decimal d] ↔ value = dotted a b c d := by
  constructor
  · intro h
    have hback : [46].intercalate (value.splitOn 46) = value := List.intercalate_splitOn 46
    rw [h] at hback
    rw [← hback]
    simp [dotted, List.intercalate]
  · rintro rfl
    exact splitOn_dotted a b c d

theorem accepted_iff_dotted (value : Bytes) :
    Accepted value ↔ ∃ a b c d : Nat, 224 ≤ a ∧ a ≤ 239 ∧ b ≤ 255 ∧ c ≤ 255 ∧ d ≤ 255 ∧
      value = dotted a b c d := by
  have hrange_iff : ∀ v : UInt64, ¬ (v < 224 ∨ 239 < v) ↔ 224 ≤ v.toNat ∧ v.toNat ≤ 239 := by
    intro v
    rw [not_or, UInt64.lt_iff_toNat_lt, UInt64.lt_iff_toNat_lt, Nat.not_lt, Nat.not_lt]
    rfl
  constructor
  · rintro ⟨a, b, c, d, hoctets, hrange⟩
    obtain ⟨hpieces, hranges⟩ := mapM_parseOctet_eq_some_iff.mp hoctets
    obtain ⟨hlow, hhigh⟩ := (hrange_iff a).mp hrange
    exact ⟨a.toNat, b.toNat, c.toNat, d.toNat, hlow, hhigh, hranges b (by simp),
      hranges c (by simp), hranges d (by simp), splitOn_eq_iff.mp hpieces⟩
  · rintro ⟨a, b, c, d, hlow, hhigh, hb, hc, hd, heq⟩
    have hnat : ∀ {n : Nat}, n ≤ 255 → (UInt64.ofNat n).toNat = n := by
      intro n hn
      exact UInt64.toNat_ofNat_of_lt' (hn.trans_lt (by decide))
    refine ⟨UInt64.ofNat a, UInt64.ofNat b, UInt64.ofNat c, UInt64.ofNat d, ?_, ?_⟩
    · rw [splitOn_eq_iff.mpr heq, mapM_parseOctet_eq_some_iff]
      simp only [List.map_cons, List.map_nil, List.forall_mem_cons]
      rw [hnat (by omega : a ≤ 255), hnat hb, hnat hc, hnat hd]
      exact ⟨rfl, by omega, hb, hc, hd, List.forall_mem_nil _⟩
    · rw [hrange_iff, hnat (by omega : a ≤ 255)]
      exact ⟨hlow, hhigh⟩

theorem accepted_iff (value : Bytes) : Accepted value ↔ MulticastGroup value := by
  have hgroup_iff : ∀ h : UInt32, 0xE0000000 ≤ h ∧ h ≤ 0xEFFFFFFF ↔
      224 ≤ h.toNat / 2 ^ 24 ∧ h.toNat / 2 ^ 24 ≤ 239 := by
    intro h
    rw [UInt32.le_iff_toNat_le, UInt32.le_iff_toNat_le]
    change 3758096384 ≤ h.toNat ∧ h.toNat ≤ 4026531839 ↔ _
    omega
  rw [accepted_iff_dotted]
  constructor
  · rintro ⟨a, b, c, d, hlow, hhigh, hb, hc, hd, rfl⟩
    obtain ⟨h, hfirst, hformat⟩ := exists_formatIpv4 (by omega : a ≤ 255) hb hc hd
    obtain ⟨hfrom, hto⟩ := (hgroup_iff h).mpr (hfirst ▸ ⟨hlow, hhigh⟩)
    exact ⟨h, hfrom, hto, hformat.symm⟩
  · rintro ⟨h, hfrom, hto, rfl⟩
    obtain ⟨hlow, hhigh⟩ := (hgroup_iff h).mp ⟨hfrom, hto⟩
    exact ⟨_, _, _, _, hlow, hhigh, by omega, by omega, by omega, formatIpv4_eq h⟩

/-- An address is taken as it is when it is the text of a multicast group, and the fallback
stands for every other string. -/
theorem multicastAddress_grammar (s f : Bytes) :
    (MulticastGroup s → parseMulticastAddress s f = s) ∧
      (¬ MulticastGroup s → parseMulticastAddress s f = f) := by
  rw [← accepted_iff]
  exact ⟨fun h => parseMulticastAddress_of_accepted h f,
    fun h => parseMulticastAddress_of_not_accepted h f⟩

/-- The address of the default configuration is the text of its own number. -/
theorem multicastAddress_default :
    parseMulticastAddress "239.255.0.1".toUTF8.toList [] = "239.255.0.1".toUTF8.toList := by
  refine (multicastAddress_grammar _ []).1 ⟨0xEFFF0001, by decide, by decide, ?_⟩
  decide +kernel

end Edriel
