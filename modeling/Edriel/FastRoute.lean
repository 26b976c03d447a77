import Edriel.WireCursor
import Edriel.Reception

namespace Edriel

open Proto3

/-- A wire record with its whole tag, of which a decoder keeps 32 bits. -/
structure Record where
  tag : Nat
  token : Token

def nextRecord (bs : Bytes) : Option (Record × Bytes) :=
  match readVarint 5 bs with
  | none => none
  | some (tag, _) => (nextToken bs).map fun p => (⟨tag, p.1⟩, p.2)

def recordsUpTo : Nat → Bytes → Option (List Record)
  | _, [] => some []
  | 0, _ :: _ => none
  | k + 1, b :: bs =>
      match nextRecord (b :: bs) with
      | none => none
      | some (r, rest) => (recordsUpTo k rest).map (r :: ·)

def records (bs : Bytes) : Option (List Record) :=
  recordsUpTo bs.length bs

structure RoutingNames where
  topicName : Bytes := []
  messageType : Bytes := []
deriving DecidableEq

namespace RoutingNames

def key (x : RoutingNames) : Bytes :=
  makeCompositeKey x.topicName x.messageType

def complete (x : RoutingNames) : Bool :=
  !x.topicName.isEmpty && !x.messageType.isEmpty

/-- What a length-delimited field of a data message makes of the names. -/
def put (x : RoutingNames) (number : Nat) (payload : Bytes) : RoutingNames :=
  if number = 2 then { x with topicName := payload }
  else if number = 3 then { x with messageType := payload }
  else x

end RoutingNames

/-- The names of a body where both have been given for the first time, unless a group comes
before. -/
def firstNames (x : RoutingNames) : List Record → Option RoutingNames
  | [] => none
  | r :: rs =>
      match r.token with
      | .field ⟨_, .bytes payload⟩ =>
          if (x.put (r.tag / 8) payload).complete then some (x.put (r.tag / 8) payload)
          else firstNames (x.put (r.tag / 8) payload) rs
      | .field _ => firstNames x rs
      | _ => none

def RoutingNames.read (x : RoutingNames) (f : Field) : RoutingNames :=
  match f.value with
  | .bytes payload => x.put f.number payload
  | _ => x

/-- The names that the fields of a body leave, each the last one given. -/
def lastNames (x : RoutingNames) (fs : List Field) : RoutingNames :=
  fs.foldl RoutingNames.read x

/-- The first names of a frame, when its first length-delimited record is a data message. -/
def frameFirstNames : List Record → Option RoutingNames
  | [] => none
  | r :: rs =>
      match r.token with
      | .field ⟨_, .bytes body⟩ =>
          if r.tag / 8 = 3 then (records body).bind (firstNames {}) else none
      | .field _ => frameFirstNames rs
      | _ => none

/-- The names that a member of the frame's oneof leaves: a data message adds to the one
before it, any other member drops it. -/
def memberNames (x : Option RoutingNames) (f : Field) : Option RoutingNames :=
  match f.value with
  | .bytes body =>
      if f.number = 3 then
        some (lastNames (x.getD {}) ((fields (recursionLimit - 1) body).getD []))
      else if f.number = 1 ∨ f.number = 2 then none
      else x
  | _ => x

/-- The last names of a frame that ends as a data message. -/
def frameLastNames (fs : List Field) : Option RoutingNames :=
  fs.foldl memberNames none

/-- What the frame gives behind its first names leaves it a data message with their key. -/
def Settled (frame : Bytes) : Prop :=
  ∀ first, (records frame).bind frameFirstNames = some first →
    ∃ last, (fields recursionLimit frame).bind frameLastNames = some last ∧
      last.key = first.key

namespace WireCursor

theorem varintLoop_of_readVarint {k : Nat} : ∀ {bs rest : Bytes} {n shift : Nat} {out : UInt64},
    readVarint k bs = some (n, rest) → shift + 7 * k ≤ 70 →
      ∃ v, varintLoop out shift bs = some (v, rest) := by
  induction k with
  | zero => intro bs rest n shift out h; cases h
  | succ k ih =>
      intro bs rest n shift out h hshift
      cases bs with
      | nil => cases h
      | cons b bs =>
          rw [readVarint] at h
          rw [varintLoop, if_pos (by omega)]
          split at h
          · rename_i hlast
            obtain ⟨-, rfl⟩ : b.toNat = n ∧ bs = rest := by simpa using h
            rw [if_pos ((and_80_eq_zero_iff b).mpr hlast)]
            exact ⟨_, rfl⟩
          · rename_i hmore
            obtain ⟨⟨m, rest'⟩, hrest, hp⟩ := Option.map_eq_some_iff.mp h
            obtain ⟨-, rfl⟩ : _ = n ∧ rest' = rest := by simpa using hp
            rw [if_neg ((and_80_eq_zero_iff b).not.mpr hmore)]
            exact ih hrest (by omega)

theorem varintLoop_eq_of_readVarint {k : Nat} : ∀ {bs rest : Bytes} {n shift : Nat}
    {out : UInt64}, readVarint k bs = some (n, rest) → shift + 7 * k ≤ 63 →
      out.toNat < 2 ^ shift →
        n < 128 ^ k ∧
          varintLoop out shift bs = some (UInt64.ofNat (out.toNat + n * 2 ^ shift), rest) := by
  induction k with
  | zero => intro bs rest n shift out h; cases h
  | succ k ih =>
      intro bs rest n shift out h hshift hout
      have hroom : 2 ^ shift * 128 ^ (k + 1) ≤ 2 ^ 63 := by
        have hpow : (128 : Nat) ^ (k + 1) = 2 ^ (7 * (k + 1)) := by
          rw [pow_mul]
          rfl
        rw [hpow, ← pow_add]
        exact Nat.pow_le_pow_right (by decide) (by omega)
      have hone : 1 ≤ 128 ^ k := Nat.one_le_pow _ _ (by decide)
      rw [pow_succ] at hroom
      cases bs with
      | nil => cases h
      | cons b bs =>
          rw [readVarint] at h
          rw [varintLoop, if_pos (by omega)]
          have hbyte : b.toNat % 128 * 2 ^ shift < 2 ^ 64 := by
            have hle : b.toNat % 128 * 2 ^ shift ≤ 127 * 2 ^ shift :=
              Nat.mul_le_mul_right _ (by omega)
            have : 2 ^ shift * 128 ≤ 2 ^ shift * (128 ^ k * 128) := by
              apply Nat.mul_le_mul_left
              omega
            omega
          have hread := or_shiftLeft (b := b) (by omega) hout rfl hbyte
          split at h
          · rename_i hlast
            obtain ⟨rfl, rfl⟩ : b.toNat = n ∧ bs = rest := by simpa using h
            rw [Nat.mod_eq_of_lt hlast] at hread
            rw [if_pos ((and_80_eq_zero_iff b).mpr hlast), ← hread, UInt64.ofNat_toNat]
            refine ⟨?_, rfl⟩
            rw [pow_succ]
            omega
          · rename_i hmore
            obtain ⟨⟨m, rest'⟩, hrest, hp⟩ := Option.map_eq_some_iff.mp h
            obtain ⟨rfl, rfl⟩ : b.toNat % 128 + 128 * m = n ∧ rest' = rest := by
              simpa using hp
            have hnext : (out ||| (b &&& 0x7F).toUInt64 <<< UInt64.ofNat shift).toNat <
                2 ^ (shift + 7) := by
              rw [hread, pow_add]
              have hle : b.toNat % 128 * 2 ^ shift ≤ 127 * 2 ^ shift :=
                Nat.mul_le_mul_right _ (by omega)
              omega
            obtain ⟨hm, hloop⟩ := ih hrest (by omega) hnext
            rw [if_neg ((and_80_eq_zero_iff b).not.mpr hmore), hloop, hread]
            refine ⟨by rw [pow_succ]; omega, ?_⟩
            rw [pow_add, add_assoc, add_mul, mul_comm 128 m, mul_assoc, mul_comm 128, ← mul_assoc]
            simp only [show (2 : Nat) ^ 7 = 128 from rfl, mul_assoc]

theorem varint_of_readVarint {k : Nat} {bs rest : Bytes} {n : Nat} (hk : k ≤ 9)
    (h : readVarint k bs = some (n, rest)) :
    n < 128 ^ k ∧ varint bs = some (UInt64.ofNat n, rest) := by
  have hread := varintLoop_eq_of_readVarint h (by omega : 0 + 7 * k ≤ 63)
    (by decide : (0 : UInt64).toNat < 2 ^ 0)
  simpa [varint] using hread

/-- A tag of five bytes has more bits than a decoder keeps. -/
theorem nextTag_of_readVarint {bs rest : Bytes} {tag : Nat}
    (h : readVarint 5 bs = some (tag, rest)) :
    tag / 8 < 2 ^ 32 ∧
      nextTag bs = some (UInt32.ofNat (tag / 8), UInt32.ofNat (tag % 8), rest) := by
  obtain ⟨hlt, hread⟩ := varint_of_readVarint (by decide) h
  exact ⟨by omega, nextTag_of_varint (by omega) hread⟩

theorem lengthDelimited_of_readSized {bs payload rest : Bytes}
    (h : readSized bs = some (payload, rest)) : lengthDelimited bs = some (payload, rest) := by
  rw [readSized] at h
  split at h
  · cases h
  · rename_i size c hsize
    split at h
    · obtain ⟨hlt, hread⟩ := varint_of_readVarint (by decide) hsize
      have hlength : (UInt64.ofNat size).toNat = size := by
        rw [UInt64.toNat_ofNat', Nat.mod_eq_of_lt (by omega)]
      rw [readRaw] at h
      split at h
      · obtain ⟨rfl, rfl⟩ := Prod.mk.inj (Option.some.inj h)
        rw [lengthDelimited, hread]
        simp only [hlength]
        rw [if_neg (by omega)]
      · cases h
    · cases h

theorem skip_of_readRaw {k : Nat} {c raw rest : Bytes} (h : readRaw k c = some (raw, rest)) :
    (if c.length < k then none else some (c.drop k)) = some rest := by
  rw [readRaw] at h
  split at h
  · obtain ⟨-, rfl⟩ := Prod.mk.inj (Option.some.inj h)
    rw [if_neg (by omega)]
  · cases h

/-- What the walk does at a record that the decoder accepts: it reads the payload of a
length-delimited one, skips any other field, and gives up at a group. -/
inductive Turn (bs : Bytes) (r : Record) (rest : Bytes) : Prop
  | delimited (number : Nat) (payload c : Bytes) (htoken : r.token = .field ⟨number, .bytes payload⟩)
      (htag : nextTag bs = some (UInt32.ofNat (r.tag / 8), 2, c)) (hlt : r.tag / 8 < 2 ^ 32)
      (hnumber : number = r.tag % 2 ^ 32 / 8) (hbody : lengthDelimited c = some (payload, rest))
  | skipped (f : Field) (c : Bytes) (fn wt : UInt32) (htoken : r.token = .field f)
      (hvalue : ∀ payload, f.value ≠ .bytes payload) (hwt : wt ≠ 2)
      (htag : nextTag bs = some (fn, wt, c)) (hskip : skipField wt c = some rest)
  | group (c : Bytes) (fn wt : UInt32) (htoken : ∀ f, r.token ≠ .field f) (hwt : wt ≠ 2)
      (htag : nextTag bs = some (fn, wt, c)) (hskip : skipField wt c = none)

theorem turn_of_nextRecord {bs rest : Bytes} {r : Record}
    (h : nextRecord bs = some (r, rest)) : Turn bs r rest := by
  rw [nextRecord] at h
  cases hvarint : readVarint 5 bs with
  | none => rw [hvarint] at h; cases h
  | some p =>
      obtain ⟨tag, c⟩ := p
      rw [hvarint] at h
      obtain ⟨⟨token, rest'⟩, htoken, hp⟩ := Option.map_eq_some_iff.mp h
      obtain ⟨rfl, rfl⟩ := Prod.mk.inj hp
      obtain ⟨hlt, htag⟩ := nextTag_of_readVarint hvarint
      rw [nextToken, readTag, hvarint] at htoken
      dsimp only at htoken
      split at htoken
      · cases htoken
      · rename_i number wireType c' hread
        split at hread
        · cases hread
        · obtain ⟨rfl, hwire, rfl⟩ : tag % 2 ^ 32 / 8 = number ∧ tag % 2 ^ 32 % 8 = wireType ∧
              c = c' := by simpa using hread
          have htype : tag % 8 = wireType := by omega
          rw [htype] at htag
          split at htoken
          · obtain ⟨⟨n, c₁⟩, hn, hp⟩ := Option.map_eq_some_iff.mp htoken
            obtain ⟨rfl, rfl⟩ := Prod.mk.inj hp
            obtain ⟨v, hv⟩ : ∃ v, varintLoop 0 0 c = some (v, c₁) :=
              varintLoop_of_readVarint hn (by decide)
            refine .skipped _ c _ _ rfl (fun payload hf => by cases hf) (by decide) htag ?_
            rw [skipField, if_pos (by decide), varint, hv]
            rfl
          · obtain ⟨⟨raw, c₁⟩, hraw, hp⟩ := Option.map_eq_some_iff.mp htoken
            obtain ⟨rfl, rfl⟩ := Prod.mk.inj hp
            refine .skipped _ c _ _ rfl (fun payload hf => by cases hf) (by decide) htag ?_
            rw [skipField, if_neg (by decide), if_pos (by decide)]
            exact skip_of_readRaw hraw
          · obtain ⟨⟨payload, c₁⟩, hsized, hp⟩ := Option.map_eq_some_iff.mp htoken
            obtain ⟨rfl, rfl⟩ := Prod.mk.inj hp
            exact .delimited _ payload c rfl htag hlt rfl (lengthDelimited_of_readSized hsized)
          · obtain ⟨rfl, rfl⟩ := Prod.mk.inj (Option.some.inj htoken)
            exact .group c _ _ (fun f hf => by cases hf) (by decide) htag rfl
          · obtain ⟨rfl, rfl⟩ := Prod.mk.inj (Option.some.inj htoken)
            exact .group c _ _ (fun f hf => by cases hf) (by decide) htag rfl
          · obtain ⟨⟨raw, c₁⟩, hraw, hp⟩ := Option.map_eq_some_iff.mp htoken
            obtain ⟨rfl, rfl⟩ := Prod.mk.inj hp
            refine .skipped _ c _ _ rfl (fun payload hf => by cases hf) (by decide) htag ?_
            rw [skipField, if_neg (by decide), if_neg (by decide), if_neg (by decide),
              if_pos (by decide)]
            exact skip_of_readRaw hraw
          · cases htoken

end WireCursor

open WireCursor

theorem exists_nextRecord {bs rest : Bytes} {token : Token}
    (h : nextToken bs = some (token, rest)) : ∃ tag, nextRecord bs = some (⟨tag, token⟩, rest) := by
  cases hvarint : readVarint 5 bs with
  | none =>
      rw [nextToken, readTag, hvarint] at h
      cases h
  | some p =>
      refine ⟨p.1, ?_⟩
      rw [nextRecord, hvarint]
      simp only [h, Option.map_some]

theorem exists_recordsUpTo {k : Nat} : ∀ {bs : Bytes} {ts : List Token}, tokens k bs = some ts →
    ∃ rs, recordsUpTo k bs = some rs ∧ rs.map Record.token = ts := by
  induction k with
  | zero =>
      intro bs ts h
      cases bs with
      | nil => exact ⟨[], rfl, by simpa [tokens] using h⟩
      | cons b bs => cases h
  | succ k ih =>
      intro bs ts h
      cases bs with
      | nil => exact ⟨[], rfl, by simpa [tokens] using h⟩
      | cons b bs =>
          rw [tokens] at h
          split at h
          · cases h
          · rename_i token rest hnext
            obtain ⟨ts', hts', rfl⟩ := Option.map_eq_some_iff.mp h
            obtain ⟨rs, hrs, hmap⟩ := ih hts'
            obtain ⟨tag, hrecord⟩ := exists_nextRecord hnext
            refine ⟨⟨tag, token⟩ :: rs, ?_, by rw [List.map_cons, hmap]⟩
            rw [recordsUpTo, hrecord]
            simp only [hrs, Option.map_some]

theorem exists_records {bs : Bytes} {depth : Nat} {fs : List Field}
    (h : fields depth bs = some fs) :
    ∃ rs, records bs = some rs ∧ stripGroups depth [] (rs.map Record.token) = some fs := by
  obtain ⟨ts, hts, hstrip⟩ := Option.bind_eq_some_iff.mp h
  obtain ⟨rs, hrs, rfl⟩ := exists_recordsUpTo hts
  exact ⟨rs, hrs, hstrip⟩

theorem ofNat_eq_iff {n m : Nat} (hn : n < 2 ^ 32) (hm : m < 2 ^ 32) :
    UInt32.ofNat n = UInt32.ofNat m ↔ n = m := by
  rw [← UInt32.toNat_inj, UInt32.toNat_ofNat', UInt32.toNat_ofNat', Nat.mod_eq_of_lt hn,
    Nat.mod_eq_of_lt hm]

theorem routingField_eq_put {number : Nat} {payload c rest : Bytes} (x : RoutingNames)
    (hlt : number < 2 ^ 32) (hbody : lengthDelimited c = some (payload, rest)) :
    routingField (UInt32.ofNat number) x.topicName x.messageType c =
      some ((x.put number payload).topicName, (x.put number payload).messageType, rest) := by
  rw [routingField, RoutingNames.put, readString, hbody]
  have htopic : UInt32.ofNat number = 2 ↔ number = 2 := ofNat_eq_iff hlt (by decide)
  have htype : UInt32.ofNat number = 3 ↔ number = 3 := ofNat_eq_iff hlt (by decide)
  simp only [htopic, htype]
  split_ifs <;> rfl

theorem routingKeyLoop_eq_firstNames {k : Nat} : ∀ {c : Bytes} {rs : List Record}
    {x : RoutingNames}, recordsUpTo k c = some rs → x.complete = false →
      routingKeyLoop k c x.topicName x.messageType =
        (firstNames x rs).map fun y => (y.topicName, y.messageType) := by
  induction k with
  | zero =>
      intro c rs x hrs hx
      cases c with
      | nil =>
          obtain rfl : [] = rs := by simpa [recordsUpTo] using hrs
          exact if_neg (Bool.eq_false_iff.mp hx)
      | cons b c => cases hrs
  | succ k ih =>
      intro c rs x hrs hx
      cases c with
      | nil =>
          obtain rfl : [] = rs := by simpa [recordsUpTo] using hrs
          exact if_neg (Bool.eq_false_iff.mp hx)
      | cons b c =>
          rw [recordsUpTo] at hrs
          split at hrs
          · cases hrs
          · rename_i r rest hnext
            obtain ⟨rs', hrs', rfl⟩ := Option.map_eq_some_iff.mp hrs
            rw [routingKeyLoop, firstNames]
            cases turn_of_nextRecord hnext with
            | delimited number payload c' htoken htag hlt hnumber hbody =>
                rw [htag, htoken]
                dsimp only
                rw [if_neg (by decide), routingField_eq_put x hlt hbody]
                change (if (x.put (r.tag / 8) payload).complete = true then _ else _) = _
                cases hcomplete : (x.put (r.tag / 8) payload).complete with
                | true => rfl
                | false => exact ih hrs' hcomplete
            | skipped f c' fn wt htoken hvalue hwt htag hskip =>
                rw [htag, htoken]
                dsimp only
                rw [if_pos hwt, hskip]
                obtain ⟨number, value⟩ := f
                cases value with
                | bytes payload => exact absurd rfl (hvalue payload)
                | _ => exact ih hrs' hx
            | group c' fn wt htoken hwt htag hskip =>
                rw [htag]
                dsimp only
                rw [if_pos hwt, hskip]
                cases htoken' : r.token with
                | field f => exact absurd htoken' (htoken f)
                | _ => rfl

theorem readDataMessageRoutingKey_eq_firstNames {body : Bytes} {rs : List Record}
    (h : records body = some rs) :
    readDataMessageRoutingKey body =
      (firstNames {} rs).map fun y => (y.topicName, y.messageType) :=
  routingKeyLoop_eq_firstNames (x := {}) h rfl

/-- The walk over a frame finds what its records give first, where the data messages among
its fields can be read. -/
theorem tryReadLoop_eq_frameFirstNames {k depth : Nat} : ∀ {c : Bytes} {rs : List Record}
    {fs : List Field}, recordsUpTo k c = some rs →
      stripGroups depth [] (rs.map Record.token) = some fs →
      (∀ body, ⟨3, .bytes body⟩ ∈ fs → (records body).isSome = true) →
        tryReadLoop k c = (frameFirstNames rs).map RoutingNames.key := by
  induction k with
  | zero =>
      intro c rs fs hrs _ _
      cases c with
      | nil =>
          obtain rfl : [] = rs := by simpa [recordsUpTo] using hrs
          rfl
      | cons b c => cases hrs
  | succ k ih =>
      intro c rs fs hrs hstrip hbodies
      cases c with
      | nil =>
          obtain rfl : [] = rs := by simpa [recordsUpTo] using hrs
          rfl
      | cons b c =>
          rw [recordsUpTo] at hrs
          split at hrs
          · cases hrs
          · rename_i r rest hnext
            obtain ⟨rs', hrs', rfl⟩ := Option.map_eq_some_iff.mp hrs
            rw [tryReadLoop, frameFirstNames]
            rw [List.map_cons] at hstrip
            cases turn_of_nextRecord hnext with
            | delimited number body c' htoken htag hlt hnumber hbody =>
                rw [htoken, stripGroups] at hstrip
                obtain ⟨fs', hfs', rfl⟩ := Option.map_eq_some_iff.mp hstrip
                have hthree : UInt32.ofNat (r.tag / 8) = 3 ↔ r.tag / 8 = 3 :=
                  ofNat_eq_iff hlt (by decide)
                rw [htag, htoken]
                dsimp only
                rw [if_neg (by decide), hbody]
                simp only [hthree]
                split
                · rename_i hdata
                  obtain rfl : number = 3 := by omega
                  obtain ⟨brs, hbrs⟩ :=
                    Option.isSome_iff_exists.mp (hbodies body List.mem_cons_self)
                  rw [readDataMessageRoutingKey_eq_firstNames hbrs, hbrs, Option.bind_some,
                    Option.map_map]
                  rfl
                · rfl
            | skipped f c' fn wt htoken hvalue hwt htag hskip =>
                rw [htoken, stripGroups] at hstrip
                obtain ⟨fs', hfs', rfl⟩ := Option.map_eq_some_iff.mp hstrip
                have hrest := ih hrs' hfs' fun body hmem =>
                  hbodies body (List.mem_cons_of_mem f hmem)
                rw [htag, htoken]
                dsimp only
                rw [if_pos hwt, hskip]
                obtain ⟨number, value⟩ := f
                cases value with
                | bytes payload => exact absurd rfl (hvalue payload)
                | _ => exact hrest
            | group c' fn wt htoken hwt htag hskip =>
                rw [htag]
                dsimp only
                rw [if_pos hwt, hskip]
                cases htoken' : r.token with
                | field f => exact absurd htoken' (htoken f)
                | _ => rfl

def DataMessage.names (d : DataMessage) : RoutingNames :=
  { topicName := d.topicName, messageType := d.messageType }

/-- The names that a decoded message routes by, when it is a data message. -/
def Message.names : Message → Option RoutingNames
  | .dataMessage d => some d.names
  | _ => none

theorem RoutingNames.put_of_ne (x : RoutingNames) {number : Nat} (payload : Bytes)
    (htopic : number ≠ 2) (htype : number ≠ 3) : x.put number payload = x := by
  rw [put, if_neg htopic, if_neg htype]

theorem RoutingNames.read_of_ne (x : RoutingNames) {f : Field}
    (htopic : ∀ s, f ≠ ⟨2, .bytes s⟩) (htype : ∀ s, f ≠ ⟨3, .bytes s⟩) : x.read f = x := by
  obtain ⟨number, value⟩ := f
  cases value with
  | bytes payload =>
      apply put_of_ne
      · rintro rfl
        exact htopic payload rfl
      · rintro rfl
        exact htype payload rfl
  | _ => rfl

theorem names_of_dataMessageMerge {depth : Nat} {d d' : DataMessage} {f : Field}
    (h : DataMessage.merge depth d f = some d') : d'.names = d.names.read f := by
  rw [DataMessage.merge.eq_def] at h
  split at h
  · obtain ⟨i, -, rfl⟩ := Option.map_eq_some_iff.mp h
    rfl
  · split at h
    · obtain rfl := Option.some.inj h
      rfl
    · cases h
  · split at h
    · obtain rfl := Option.some.inj h
      rfl
    · cases h
  · obtain rfl := Option.some.inj h
    rfl
  · rename_i htopic htype _
    obtain rfl := Option.some.inj h
    exact (d.names.read_of_ne htopic htype).symm

theorem names_of_foldlM_dataMessage {depth : Nat} {fs : List Field} : ∀ {d d' : DataMessage},
    fs.foldlM (DataMessage.merge depth) d = some d' → d'.names = lastNames d.names fs := by
  induction fs with
  | nil =>
      intro d d' h
      obtain rfl : d = d' := by simpa using h
      rfl
  | cons f fs ih =>
      intro d d' h
      obtain ⟨c, hc, hrest⟩ := Option.bind_eq_some_iff.mp h
      rw [ih hrest, names_of_dataMessageMerge hc]
      rfl

theorem names_of_dataMessageParse {depth : Nat} {d d' : DataMessage} {body : Bytes}
    (h : DataMessage.parseInto depth d body = some d') :
    ∃ fs, fields depth body = some fs ∧ d'.names = lastNames d.names fs := by
  obtain ⟨fs, hfs, hfold⟩ := Option.bind_eq_some_iff.mp h
  exact ⟨fs, hfs, names_of_foldlM_dataMessage hfold⟩

theorem memberNames_of_ne (x : Option RoutingNames) {f : Field}
    (hidentifier : ∀ b, f ≠ ⟨1, .bytes b⟩) (hadvertisement : ∀ b, f ≠ ⟨2, .bytes b⟩)
    (hdata : ∀ b, f ≠ ⟨3, .bytes b⟩) : memberNames x f = x := by
  obtain ⟨number, value⟩ := f
  cases value with
  | bytes body =>
      have hne₁ : number ≠ 1 := by
        rintro rfl
        exact hidentifier body rfl
      have hne₂ : number ≠ 2 := by
        rintro rfl
        exact hadvertisement body rfl
      have hne₃ : number ≠ 3 := by
        rintro rfl
        exact hdata body rfl
      rw [memberNames]
      dsimp only
      rw [if_neg hne₃, if_neg (not_or.mpr ⟨hne₁, hne₂⟩)]
  | _ => rfl

theorem names_of_messageMerge {m m' : Message} {f : Field}
    (h : Message.merge recursionLimit m f = some m') : m'.names = memberNames m.names f := by
  rw [Message.merge.eq_def] at h
  split at h
  · obtain ⟨i, -, rfl⟩ := Option.map_eq_some_iff.mp h
    rfl
  · obtain ⟨a, -, rfl⟩ := Option.map_eq_some_iff.mp h
    rfl
  · rename_i body
    obtain ⟨d', hd', rfl⟩ := Option.map_eq_some_iff.mp h
    obtain ⟨fs, hfs, hnames⟩ := names_of_dataMessageParse hd'
    rw [Message.names, hnames]
    change _ = some (lastNames (m.names.getD {}) ((fields (recursionLimit - 1) body).getD []))
    rw [hfs]
    cases m with
    | _ => rfl
  · rename_i hidentifier hadvertisement hdata
    obtain rfl := Option.some.inj h
    exact (memberNames_of_ne m.names hidentifier hadvertisement hdata).symm

theorem names_of_foldlM_message {fs : List Field} : ∀ {m m' : Message},
    fs.foldlM (Message.merge recursionLimit) m = some m' →
      m'.names = fs.foldl memberNames m.names := by
  induction fs with
  | nil =>
      intro m m' h
      obtain rfl : m = m' := by simpa using h
      rfl
  | cons f fs ih =>
      intro m m' h
      obtain ⟨c, hc, hrest⟩ := Option.bind_eq_some_iff.mp h
      rw [ih hrest, names_of_messageMerge hc]
      rfl

theorem isSome_records_of_foldlM {fs : List Field} : ∀ {m m' : Message},
    fs.foldlM (Message.merge recursionLimit) m = some m' →
      ∀ body, ⟨3, .bytes body⟩ ∈ fs → (records body).isSome = true := by
  induction fs with
  | nil => intro m m' _ body hmem; cases hmem
  | cons f fs ih =>
      intro m m' h body hmem
      obtain ⟨c, hc, hrest⟩ := Option.bind_eq_some_iff.mp h
      rcases List.mem_cons.mp hmem with rfl | hmem
      · obtain ⟨d', hd', -⟩ := Option.map_eq_some_iff.mp hc
        obtain ⟨fs', hfs', -⟩ := names_of_dataMessageParse hd'
        obtain ⟨rs, hrs, -⟩ := exists_records hfs'
        rw [hrs]
        rfl
      · exact ih hrest body hmem

/-- A key that the fast route finds is the key of the data message that the frame decodes
to. -/
def FastRouteAgrees (frame : Bytes) (m : Message) : Prop :=
  ∀ composite, tryReadRoutingKey frame = some composite →
    ∃ d, m = .dataMessage d ∧ composite = makeCompositeKey d.topicName d.messageType

def decodedTarget {N : Nat} [NeZero N] : Message → Option (Fin N)
  | .identifier i => some (Node.shardIndexForUid i.uid)
  | .dataMessage d =>
      some (Node.shardIndexForTopic (makeCompositeKey d.topicName d.messageType))
  | .advertisement ad =>
      some (Node.shardIndexForTopic
        (makeCompositeKey (ad.topic.getD {}).topicName (ad.topic.getD {}).messageType))
  | .notSet => none

theorem FastRouteAgrees.target {N : Nat} [NeZero N] {frame : Bytes} {m : Message}
    (h : FastRouteAgrees frame m) (hparse : Message.parse frame = some m) :
    Reception.target frame = (decodedTarget m : Option (Fin N)) := by
  rw [Reception.target]
  cases hkey : tryReadRoutingKey frame with
  | some composite =>
      obtain ⟨d, rfl, rfl⟩ := h composite hkey
      rfl
  | none =>
      rw [hparse]
      cases m with
      | _ => rfl

theorem names_eq_some_iff (m : Message) (composite : Bytes) :
    (∃ last, m.names = some last ∧ last.key = composite) ↔
      ∃ d, m = .dataMessage d ∧ composite = makeCompositeKey d.topicName d.messageType := by
  constructor
  · rintro ⟨last, hlast, rfl⟩
    cases m with
    | dataMessage d =>
        obtain rfl := Option.some.inj hlast
        exact ⟨d, rfl, rfl⟩
    | _ => cases hlast
  · rintro ⟨d, rfl, rfl⟩
    exact ⟨d.names, rfl, rfl⟩

/-- On a frame that decodes, the fast route agrees with the decode exactly when the frame
gives nothing behind its first names that changes their key. -/
theorem fast_route_agrees_iff {frame : Bytes} {m : Message} (h : Message.parse frame = some m) :
    FastRouteAgrees frame m ↔ Settled frame := by
  obtain ⟨fs, hfs, hfold⟩ := Option.bind_eq_some_iff.mp h
  obtain ⟨rs, hrs, hstrip⟩ := exists_records hfs
  have hfirst : tryReadRoutingKey frame = (frameFirstNames rs).map RoutingNames.key :=
    tryReadLoop_eq_frameFirstNames hrs hstrip (isSome_records_of_foldlM hfold)
  have hlast : m.names = frameLastNames fs := names_of_foldlM_message hfold
  have hends : ∀ first : RoutingNames, (∃ last, (fields recursionLimit frame).bind
      frameLastNames = some last ∧ last.key = first.key) ↔
        ∃ d, m = .dataMessage d ∧ first.key = makeCompositeKey d.topicName d.messageType := by
    intro first
    rw [← names_eq_some_iff, hlast, hfs, Option.bind_some]
  rw [FastRouteAgrees, Settled, hfirst, hrs, Option.bind_some]
  constructor
  · intro hagrees first hsome
    apply (hends first).mpr
    exact hagrees first.key (by rw [hsome]; rfl)
  · intro hsettled composite hkey
    obtain ⟨first, hsome, rfl⟩ := Option.map_eq_some_iff.mp hkey
    exact (hends first).mp (hsettled first hsome)

/-- A data message on the topic `t` whose topic name is given again, as `u`. -/
def renamed : Bytes :=
  [26, 9, 18, 1, 116, 26, 1, 77, 18, 1, 117]

theorem fast_route_disagrees :
    ∃ m, Message.parse renamed = some m ∧ ¬ FastRouteAgrees renamed m := by
  refine ⟨.dataMessage { topicName := [117], messageType := [77] }, by decide +kernel, ?_⟩
  intro hagrees
  obtain ⟨d, hd, hkey⟩ := hagrees (makeCompositeKey [116] [77]) (by decide +kernel)
  obtain rfl := Message.dataMessage.inj hd
  revert hkey
  decide

theorem fast_route_agrees_iff_renamed :
    FastRouteAgrees renamed (.dataMessage { topicName := [117], messageType := [77] }) ↔
      Settled renamed :=
  fast_route_agrees_iff (by decide +kernel)

end Edriel
