import Edriel.Identity

/-!
The walk over the wire format that routes a datagram before it is decoded, and
what it finds in a frame that carries a data message.
-/

namespace Edriel

open Proto3

/-- The bytes between the cursor and its end. -/
abbrev WireCursor := Bytes

namespace WireCursor

def varintLoop (out : UInt64) (shift : Nat) : WireCursor → Option (UInt64 × WireCursor)
  | [] => none
  | b :: c =>
      if shift < 64 then
        if b &&& 0x80 = 0 then
          some (out ||| (b &&& 0x7F).toUInt64 <<< UInt64.ofNat shift, c)
        else varintLoop (out ||| (b &&& 0x7F).toUInt64 <<< UInt64.ofNat shift) (shift + 7) c
      else none

def varint (c : WireCursor) : Option (UInt64 × WireCursor) :=
  varintLoop 0 0 c

def lengthDelimited (c : WireCursor) : Option (Bytes × WireCursor) :=
  match varint c with
  | none => none
  | some (l, c) =>
      if c.length < l.toNat then none else some (c.take l.toNat, c.drop l.toNat)

def skipField (wireType : UInt32) (c : WireCursor) : Option WireCursor :=
  if wireType = 0 then (varint c).map Prod.snd
  else if wireType = 1 then if c.length < 8 then none else some (c.drop 8)
  else if wireType = 2 then (lengthDelimited c).map Prod.snd
  else if wireType = 5 then if c.length < 4 then none else some (c.drop 4)
  else none

def nextTag (c : WireCursor) : Option (UInt32 × UInt32 × WireCursor) :=
  match varint c with
  | none => none
  | some (tag, c) => some ((tag >>> 3).toUInt32, (tag &&& 7).toUInt32, c)

def readString (c : WireCursor) : Option (Bytes × WireCursor) :=
  lengthDelimited c

end WireCursor

open WireCursor

/-- Reads a length-delimited field: a routing field is kept, `identifier` and
`payload` are skipped. -/
def routingField (fn : UInt32) (topic messageType : Bytes) (c : WireCursor) :
    Option (Bytes × Bytes × WireCursor) :=
  if fn = 2 then (readString c).map fun p => (p.1, messageType, p.2)
  else if fn = 3 then (readString c).map fun p => (topic, p.1, p.2)
  else (lengthDelimited c).map fun p => (topic, messageType, p.2)

def routingFields (topic messageType : Bytes) : Option (Bytes × Bytes) :=
  if !topic.isEmpty && !messageType.isEmpty then some (topic, messageType) else none

/-- The loop of `readDataMessageRoutingKey`; every turn reads a byte at least, so
the length of the cursor bounds the turns. -/
def routingKeyLoop : Nat → WireCursor → Bytes → Bytes → Option (Bytes × Bytes)
  | 0, _, topic, messageType => routingFields topic messageType
  | k + 1, c, topic, messageType =>
      match nextTag c with
      | none => routingFields topic messageType
      | some (fn, wt, c) =>
          if wt ≠ 2 then
            match skipField wt c with
            | none => none
            | some c => routingKeyLoop k c topic messageType
          else
            match routingField fn topic messageType c with
            | none => none
            | some (topic, messageType, c) =>
                if !topic.isEmpty && !messageType.isEmpty then some (topic, messageType)
                else routingKeyLoop k c topic messageType

def readDataMessageRoutingKey (body : Bytes) : Option (Bytes × Bytes) :=
  routingKeyLoop body.length body [] []

/-- The loop of `tryReadRoutingKey`: the first length-delimited field decides. -/
def tryReadLoop : Nat → WireCursor → Option Bytes
  | 0, _ => none
  | k + 1, c =>
      match nextTag c with
      | none => none
      | some (fn, wt, c) =>
          if wt ≠ 2 then
            match skipField wt c with
            | none => none
            | some c => tryReadLoop k c
          else
            match lengthDelimited c with
            | none => none
            | some (body, _) =>
                if fn = 3 then
                  (readDataMessageRoutingKey body).map fun key =>
                    key.1 ++ kTopicKeySeparator :: key.2
                else none

/-- The composite key where the source returns 1, nothing where it returns 0. -/
def tryReadRoutingKey (raw : Bytes) : Option Bytes :=
  tryReadLoop raw.length raw

namespace WireCursor

theorem and_80_eq_zero_iff (b : UInt8) : b &&& 0x80 = 0 ↔ b.toNat < 128 := by
  have hbits : ∀ n : Fin 256, n.val &&& 128 = 0 ↔ n.val < 128 := by decide +kernel
  rw [← UInt8.toNat_inj, UInt8.toNat_and]
  exact hbits ⟨b.toNat, b.toNat_lt⟩

theorem toNat_and_7F (b : UInt8) : (b &&& 0x7F).toNat = b.toNat % 128 := by
  rw [UInt8.toNat_and]
  exact Nat.and_two_pow_sub_one_eq_mod b.toNat 7

theorem or_shiftLeft {out : UInt64} {b : UInt8} {shift d : Nat} (hshift : shift < 64)
    (hout : out.toNat < 2 ^ shift) (hdigit : b.toNat % 128 = d)
    (hfit : d * 2 ^ shift < 2 ^ 64) :
    (out ||| (b &&& 0x7F).toUInt64 <<< UInt64.ofNat shift).toNat =
      out.toNat + d * 2 ^ shift := by
  have hamount : (UInt64.ofNat shift).toNat % 64 = shift := by
    rw [UInt64.toNat_ofNat']
    omega
  have hbits : ((b &&& 0x7F).toUInt64 <<< UInt64.ofNat shift).toNat = 2 ^ shift * d := by
    rw [UInt64.toNat_shiftLeft, UInt8.toNat_toUInt64, toNat_and_7F, hdigit, hamount,
      Nat.shiftLeft_eq, Nat.mod_eq_of_lt hfit, mul_comm]
  rw [UInt64.toNat_or, hbits, Nat.lor_comm, ← Nat.two_pow_add_eq_or_of_lt hout, add_comm,
    mul_comm]

theorem varintLoop_last {k n shift : Nat} {out : UInt64} (rest : Bytes) (hn : n < 128)
    (hshift : shift < 64) (hout : out.toNat < 2 ^ shift)
    (hfit : out.toNat + n * 2 ^ shift < 2 ^ 64) :
    varintLoop out shift (varintBytes (k + 1) n ++ rest) =
      some (UInt64.ofNat (out.toNat + n * 2 ^ shift), rest) := by
  have hbyte : (UInt8.ofNat n).toNat = n := by
    rw [UInt8.toNat_ofNat']
    omega
  have hread := or_shiftLeft (b := UInt8.ofNat n) hshift hout (d := n) (by omega)
    (by omega)
  rw [varintBytes, if_pos hn, List.singleton_append, varintLoop, if_pos hshift,
    if_pos ((and_80_eq_zero_iff _).mpr (by omega)), ← hread, UInt64.ofNat_toNat]

theorem varintLoop_varintBytes (k : Nat) : ∀ (n shift : Nat) (out : UInt64) (rest : Bytes),
    n < 128 ^ (k + 1) → shift < 64 → out.toNat < 2 ^ shift →
      out.toNat + n * 2 ^ shift < 2 ^ 64 →
        varintLoop out shift (varintBytes (k + 1) n ++ rest) =
          some (UInt64.ofNat (out.toNat + n * 2 ^ shift), rest) := by
  induction k with
  | zero =>
      intro n shift out rest hn hshift hout hfit
      exact varintLoop_last rest (by simpa using hn) hshift hout hfit
  | succ k ih =>
      intro n shift out rest hn hshift hout hfit
      by_cases hsmall : n < 128
      · exact varintLoop_last rest hsmall hshift hout hfit
      · have hbyte : (UInt8.ofNat (n % 128 + 128)).toNat = n % 128 + 128 := by
          rw [UInt8.toNat_ofNat']
          omega
        have hpow : 2 ^ (shift + 7) = 128 * 2 ^ shift := by rw [pow_add, mul_comm]; rfl
        have hsplit : n % 128 * 2 ^ shift + n / 128 * 2 ^ (shift + 7) = n * 2 ^ shift := by
          rw [hpow, ← mul_assoc, ← add_mul, mul_comm (n / 128), Nat.mod_add_div]
        have hread := or_shiftLeft (b := UInt8.ofNat (n % 128 + 128)) hshift hout
          (d := n % 128) (by omega) (by omega)
        have hshift' : shift + 7 < 64 := by
          have hone : 2 ^ (shift + 7) ≤ n / 128 * 2 ^ (shift + 7) :=
            Nat.le_mul_of_pos_left _ (by omega)
          have hlt : 2 ^ (shift + 7) < 2 ^ 64 := by omega
          exact (Nat.pow_lt_pow_iff_right (by decide)).mp hlt
        have hdigit : n % 128 * 2 ^ shift ≤ 127 * 2 ^ shift :=
          Nat.mul_le_mul_right _ (by omega)
        have hdiv : n / 128 < 128 ^ (k + 1) := by
          rw [Nat.div_lt_iff_lt_mul (by decide), ← pow_succ]
          exact hn
        rw [varintBytes, if_neg hsmall, List.cons_append, varintLoop, if_pos hshift,
          if_neg ((and_80_eq_zero_iff _).not.mpr (by omega)),
          ih _ _ _ rest hdiv hshift' (by omega) (by omega), hread, add_assoc, hsplit]

theorem varint_encodeVarint {n : Nat} (rest : Bytes) (hn : n < 2 ^ 64) :
    varint (encodeVarint n ++ rest) = some (UInt64.ofNat n, rest) := by
  have hread := varintLoop_varintBytes 9 n 0 0 rest (by norm_num at hn ⊢; omega) (by decide)
    (by decide) (by simpa using hn)
  simpa [varint, encodeVarint] using hread

theorem nextTag_of_varint {c rest : WireCursor} {tag : Nat} (hlt : tag < 2 ^ 64)
    (hread : varint c = some (UInt64.ofNat tag, rest)) :
    nextTag c = some (UInt32.ofNat (tag / 8), UInt32.ofNat (tag % 8), rest) := by
  have htag : (UInt64.ofNat tag).toNat = tag := by
    rw [UInt64.toNat_ofNat', Nat.mod_eq_of_lt hlt]
  have hnumber : (UInt64.ofNat tag >>> 3).toUInt32 = UInt32.ofNat (tag / 8) := by
    rw [← UInt32.toNat_inj, UInt64.toNat_toUInt32, UInt64.toNat_shiftRight, htag,
      UInt32.toNat_ofNat']
    change tag >>> 3 % 2 ^ 32 = _
    rw [Nat.shiftRight_eq_div_pow]
  have htype : (UInt64.ofNat tag &&& 7).toUInt32 = UInt32.ofNat (tag % 8) := by
    rw [← UInt32.toNat_inj, UInt64.toNat_toUInt32, UInt64.toNat_and, htag, UInt32.toNat_ofNat']
    change (tag &&& (2 ^ 3 - 1)) % 2 ^ 32 = _
    rw [Nat.and_two_pow_sub_one_eq_mod]
  rw [nextTag, hread]
  simp only [hnumber, htype]

theorem nextTag_encodeTag {number wireType : Nat} (rest : Bytes) (hlt : number < 2 ^ 29)
    (hw : wireType < 8) :
    nextTag (encodeTag number wireType ++ rest) =
      some (UInt32.ofNat number, UInt32.ofNat wireType, rest) := by
  have hbound : 8 * number + wireType < 2 ^ 64 := by omega
  have hnumber : (8 * number + wireType) / 8 = number := by omega
  have htype : (8 * number + wireType) % 8 = wireType := by omega
  rw [encodeTag, nextTag_of_varint hbound (varint_encodeVarint rest hbound), hnumber, htype]

theorem lengthDelimited_encode {payload : Bytes} (rest : Bytes)
    (hsize : payload.length < 2 ^ 64) :
    lengthDelimited (encodeVarint payload.length ++ payload ++ rest) =
      some (payload, rest) := by
  have hlength : (UInt64.ofNat payload.length).toNat = payload.length := by
    rw [UInt64.toNat_ofNat', Nat.mod_eq_of_lt hsize]
  rw [lengthDelimited, List.append_assoc, varint_encodeVarint _ hsize]
  simp [hlength]

theorem length_lt_of_varintLoop : ∀ {c rest : WireCursor} {out v : UInt64} {shift : Nat},
    varintLoop out shift c = some (v, rest) → rest.length < c.length := by
  intro c
  induction c with
  | nil => intro rest out v shift h; cases h
  | cons b c ih =>
      intro rest out v shift h
      rw [varintLoop] at h
      split at h
      · split at h
        · obtain ⟨-, rfl⟩ : _ = v ∧ c = rest := by simpa using h
          simp
        · have := ih h
          simp only [List.length_cons]
          omega
      · cases h

theorem length_le_of_lengthDelimited {c rest : WireCursor} {body : Bytes}
    (h : lengthDelimited c = some (body, rest)) : rest.length ≤ c.length := by
  rw [lengthDelimited] at h
  split at h
  · cases h
  · rename_i l c' hread
    have := length_lt_of_varintLoop hread
    split at h
    · cases h
    · obtain ⟨-, rfl⟩ : _ = body ∧ c'.drop l.toNat = rest := by simpa using h
      rw [List.length_drop]
      omega

theorem length_le_of_skipField {wireType : UInt32} {c rest : WireCursor}
    (h : skipField wireType c = some rest) : rest.length ≤ c.length := by
  rw [skipField] at h
  split at h
  · obtain ⟨p, hp, rfl⟩ := Option.map_eq_some_iff.mp h
    exact (length_lt_of_varintLoop hp).le
  split at h
  · split at h
    · cases h
    · obtain rfl := Option.some.inj h
      simp
  split at h
  · obtain ⟨p, hp, rfl⟩ := Option.map_eq_some_iff.mp h
    exact length_le_of_lengthDelimited hp
  split at h
  · split at h
    · cases h
    · obtain rfl := Option.some.inj h
      simp
  · cases h

theorem length_lt_of_nextTag {c rest : WireCursor} {fn wt : UInt32}
    (h : nextTag c = some (fn, wt, rest)) : rest.length < c.length := by
  rw [nextTag] at h
  split at h
  · cases h
  · rename_i tag c' hread
    obtain ⟨-, -, rfl⟩ : _ ∧ _ ∧ c' = rest := by simpa using h
    exact length_lt_of_varintLoop hread

end WireCursor

theorem length_le_of_routingField {fn : UInt32} {topic messageType topic' messageType' : Bytes}
    {c rest : WireCursor}
    (h : routingField fn topic messageType c = some (topic', messageType', rest)) :
    rest.length ≤ c.length := by
  have hread : ∀ {p : Bytes × WireCursor}, lengthDelimited c = some p → p.2 = rest →
      rest.length ≤ c.length := by
    rintro p hp rfl
    exact length_le_of_lengthDelimited hp
  rw [routingField] at h
  split at h
  · obtain ⟨p, hp, heq⟩ := Option.map_eq_some_iff.mp h
    exact hread hp (congrArg (·.2.2) heq)
  split at h
  · obtain ⟨p, hp, heq⟩ := Option.map_eq_some_iff.mp h
    exact hread hp (congrArg (·.2.2) heq)
  · obtain ⟨p, hp, heq⟩ := Option.map_eq_some_iff.mp h
    exact hread hp (congrArg (·.2.2) heq)

/-- Turns beyond the length of the cursor find nothing left to read. -/
theorem routingKeyLoop_add (j : Nat) : ∀ (k : Nat) (c : WireCursor) (topic messageType : Bytes),
    c.length ≤ k →
      routingKeyLoop (k + j) c topic messageType = routingKeyLoop k c topic messageType := by
  intro k
  induction k with
  | zero =>
      intro c topic messageType hlen
      obtain rfl := List.length_eq_zero_iff.mp (Nat.le_zero.mp hlen)
      cases j with
      | zero => rfl
      | succ j => rw [Nat.zero_add]; rfl
  | succ k ih =>
      intro c topic messageType hlen
      rw [Nat.add_right_comm, routingKeyLoop, routingKeyLoop]
      cases htag : nextTag c with
      | none => rfl
      | some p =>
          obtain ⟨fn, wt, c'⟩ := p
          have hlt := length_lt_of_nextTag htag
          dsimp only
          split
          · cases hskip : skipField wt c' with
            | none => rfl
            | some rest => exact ih _ _ _ (by have := length_le_of_skipField hskip; omega)
          · cases hfield : routingField fn topic messageType c' with
            | none => rfl
            | some q =>
                obtain ⟨topic', messageType', rest⟩ := q
                have hle := length_le_of_routingField hfield
                dsimp only
                rw [ih _ _ _ (by omega)]

theorem routingKeyLoop_encodeField {k number : Nat} {payload rest : Bytes}
    {topic messageType topic' messageType' : Bytes} (hlt : number < 2 ^ 29)
    (hfield : routingField (UInt32.ofNat number) topic messageType
      (encodeVarint payload.length ++ payload ++ rest) = some (topic', messageType', rest)) :
    routingKeyLoop (k + 1) (encodeField ⟨number, .bytes payload⟩ ++ rest) topic messageType =
      if !topic'.isEmpty && !messageType'.isEmpty then some (topic', messageType')
      else routingKeyLoop k rest topic' messageType' := by
  have htag := nextTag_encodeTag (encodeVarint payload.length ++ payload ++ rest) hlt
    (by decide : 2 < 8)
  rw [encodeField, List.append_assoc, List.append_assoc, ← List.append_assoc (encodeVarint _),
    routingKeyLoop, htag]
  dsimp only
  rw [if_neg (by decide), hfield]

theorem routingKeyLoop_names {k : Nat} {topic messageType : Bytes} (rest : Bytes)
    (htopic : topic ≠ []) (htype : messageType ≠ []) (hsize : topic.length < 2 ^ 64)
    (hsize' : messageType.length < 2 ^ 64) :
    routingKeyLoop (k + 2) (encodeField ⟨2, .bytes topic⟩ ++
      (encodeField ⟨3, .bytes messageType⟩ ++ rest)) [] [] = some (topic, messageType) := by
  have hfirst : routingField (UInt32.ofNat 2) [] [] (encodeVarint topic.length ++ topic ++
      (encodeField ⟨3, .bytes messageType⟩ ++ rest)) =
        some (topic, [], encodeField ⟨3, .bytes messageType⟩ ++ rest) := by
    rw [routingField, if_pos (by decide), readString, lengthDelimited_encode _ hsize]
    rfl
  have hsecond : routingField (UInt32.ofNat 3) topic []
      (encodeVarint messageType.length ++ messageType ++ rest) =
        some (topic, messageType, rest) := by
    rw [routingField, if_neg (by decide), if_pos (by decide), readString,
      lengthDelimited_encode _ hsize']
    rfl
  rw [routingKeyLoop_encodeField (by decide) hfirst, if_neg (by simp),
    routingKeyLoop_encodeField (by decide) hsecond, if_pos (by simp [htopic, htype])]

/-- The loop reads the routing fields of a data message and nothing of its
payload. -/
theorem readDataMessageRoutingKey_serialize {d : DataMessage} (htopic : d.topicName ≠ [])
    (htype : d.messageType ≠ []) (hsize : (serialize d.toFields).length < 2 ^ 64) :
    readDataMessageRoutingKey (serialize d.toFields) = some (d.topicName, d.messageType) := by
  have hshort : ∀ number payload, (⟨number, .bytes payload⟩ : Field) ∈ d.toFields →
      payload.length < 2 ^ 64 := by
    intro number payload hmem
    have := length_le_of_mem_serialize hmem
    omega
  have hnames : ∀ k, routingKeyLoop (k + 2) (encodeField ⟨2, .bytes d.topicName⟩ ++
      (encodeField ⟨3, .bytes d.messageType⟩ ++ serialize (bytesField 4 d.payload))) [] [] =
        some (d.topicName, d.messageType) := fun k =>
    routingKeyLoop_names _ htopic htype
      (hshort 2 _ (by simp [DataMessage.toFields, bytesField, htopic]))
      (hshort 3 _ (by simp [DataMessage.toFields, bytesField, htype]))
  have hfields : serialize d.toFields =
      serialize (messageField 1 (d.identifier.map fun i => serialize i.toFields)) ++
        (encodeField ⟨2, .bytes d.topicName⟩ ++ (encodeField ⟨3, .bytes d.messageType⟩ ++
          serialize (bytesField 4 d.payload))) := by
    simp [DataMessage.toFields, serialize, bytesField, htopic, htype]
  rw [readDataMessageRoutingKey, ← routingKeyLoop_add 3 _ _ _ _ le_rfl]
  generalize (serialize d.toFields).length = k
  rw [hfields]
  cases hidentifier : d.identifier with
  | none => exact hnames (k + 1)
  | some i =>
      have hlt := hshort 1 (serialize i.toFields)
        (by simp [DataMessage.toFields, messageField, hidentifier])
      have hskip : ∀ rest, routingField (UInt32.ofNat 1) [] []
          (encodeVarint (serialize i.toFields).length ++ serialize i.toFields ++ rest) =
            some ([], [], rest) := by
        intro rest
        rw [routingField, if_neg (by decide), if_neg (by decide), lengthDelimited_encode _ hlt]
        rfl
      rw [Option.map_some, messageField, serialize, List.flatMap_cons, List.flatMap_nil,
        List.append_nil, routingKeyLoop_encodeField (by decide) (hskip _), if_neg (by simp)]
      exact hnames k

theorem tryReadRoutingKey_dataMessage {d : DataMessage} (htopic : d.topicName ≠ [])
    (htype : d.messageType ≠ [])
    (hsize : (serialize (Message.dataMessage d).toFields).length < 2 ^ 64) :
    tryReadRoutingKey (serialize (Message.dataMessage d).toFields) =
      some (makeCompositeKey d.topicName d.messageType) := by
  have hbody : (serialize d.toFields).length < 2 ^ 64 := by
    have hmem : (⟨3, .bytes (serialize d.toFields)⟩ : Field) ∈
        (Message.dataMessage d).toFields := by simp [Message.toFields, messageField]
    have := length_le_of_mem_serialize hmem
    omega
  have hfields : serialize (Message.dataMessage d).toFields =
      encodeTag 3 2 ++ (encodeVarint (serialize d.toFields).length ++ serialize d.toFields) := by
    simp [Message.toFields, messageField, serialize, encodeField]
  obtain ⟨k, hk⟩ : ∃ k, (serialize (Message.dataMessage d).toFields).length = k + 1 :=
    ⟨_, (Nat.succ_pred_eq_of_pos (by
      rw [hfields, List.length_append]
      have := List.length_pos_iff.mpr (encodeVarint_ne_nil (8 * 3 + 2))
      rw [encodeTag]
      omega)).symm⟩
  have htag := nextTag_encodeTag
    (encodeVarint (serialize d.toFields).length ++ serialize d.toFields)
    (by decide : 3 < 2 ^ 29) (by decide : 2 < 8)
  have hread := lengthDelimited_encode [] hbody
  rw [List.append_nil] at hread
  rw [tryReadRoutingKey, hk, hfields, tryReadLoop, htag]
  dsimp only
  rw [if_neg (by decide), hread]
  dsimp only
  rw [if_pos (by decide), readDataMessageRoutingKey_serialize htopic htype hbody]
  rfl

end Edriel
