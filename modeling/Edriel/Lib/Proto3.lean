import Mathlib

namespace Proto3

abbrev Bytes := List UInt8

/-- The base-128 digits of `n`, least significant first, at most `k` of them. -/
def varintBytes : Nat → Nat → Bytes
  | 0, _ => []
  | k + 1, n =>
      if n < 128 then [UInt8.ofNat n]
      else UInt8.ofNat (n % 128 + 128) :: varintBytes k (n / 128)

/-- The canonical varint of a 64-bit value: ten bytes are always enough. -/
def encodeVarint (n : Nat) : Bytes :=
  varintBytes 10 n

def readVarint : Nat → Bytes → Option (Nat × Bytes)
  | 0, _ => none
  | _ + 1, [] => none
  | k + 1, b :: bs =>
      if b.toNat < 128 then some (b.toNat, bs)
      else (readVarint k bs).map fun p => (b.toNat % 128 + 128 * p.1, p.2)

theorem readVarint_varintBytes (j : Nat) : ∀ (k n : Nat) (rest : Bytes),
    j ≤ k → n < 128 ^ (j + 1) →
      readVarint (j + 1) (varintBytes (k + 1) n ++ rest) = some (n, rest) := by
  induction j with
  | zero =>
      intro k n rest _ hn
      have hn : n < 128 := by simpa using hn
      have hbyte : (UInt8.ofNat n).toNat = n := by
        rw [UInt8.toNat_ofNat']
        omega
      simp [varintBytes, readVarint, hn, hbyte]
  | succ j ih =>
      intro k n rest hjk hn
      by_cases hsmall : n < 128
      · have hbyte : (UInt8.ofNat n).toNat = n := by
          rw [UInt8.toNat_ofNat']
          omega
        simp [varintBytes, readVarint, hsmall, hbyte]
      · obtain ⟨k, rfl⟩ : ∃ k', k = k' + 1 := ⟨k - 1, by omega⟩
        have hdiv : n / 128 < 128 ^ (j + 1) := by
          rw [Nat.div_lt_iff_lt_mul (by decide), ← pow_succ]
          exact hn
        have hbyte : (UInt8.ofNat (n % 128 + 128)).toNat = n % 128 + 128 := by
          rw [UInt8.toNat_ofNat']
          omega
        rw [varintBytes, if_neg hsmall, List.cons_append, readVarint, hbyte,
          if_neg (by omega), ih k (n / 128) rest (by omega) hdiv]
        simp only [Option.map_some, Option.some.injEq, Prod.mk.injEq, and_true]
        omega

theorem readVarint_encodeVarint {j n : Nat} (rest : Bytes) (hj : j ≤ 9)
    (hn : n < 128 ^ (j + 1)) :
    readVarint (j + 1) (encodeVarint n ++ rest) = some (n, rest) :=
  readVarint_varintBytes j 9 n rest hj hn

theorem length_lt_of_readVarint {k : Nat} : ∀ {bs : Bytes} {n : Nat} {rest : Bytes},
    readVarint k bs = some (n, rest) → rest.length < bs.length := by
  induction k with
  | zero => intro bs n rest h; cases h
  | succ k ih =>
      intro bs n rest h
      cases bs with
      | nil => cases h
      | cons b bs =>
          rw [readVarint] at h
          split at h
          · obtain ⟨-, rfl⟩ : b.toNat = n ∧ bs = rest := by simpa using h
            simp
          · obtain ⟨⟨m, rest'⟩, hrest, hp⟩ := Option.map_eq_some_iff.mp h
            obtain ⟨-, rfl⟩ : _ = n ∧ rest' = rest := by simpa using hp
            have := ih hrest
            simp only [List.length_cons]
            omega

/-- What a field carries, by wire type. -/
inductive Value where
  | varint (n : Nat)
  | fixed64 (raw : Bytes)
  | bytes (payload : Bytes)
  | fixed32 (raw : Bytes)
deriving DecidableEq

structure Field where
  number : Nat
  value : Value
deriving DecidableEq

/-- One wire record.  A group is two records around the records inside it. -/
inductive Token where
  | field (f : Field)
  | startGroup (number : Nat)
  | endGroup (number : Nat)
deriving DecidableEq

/-- The largest size a length prefix may announce: `INT_MAX` less the slop the
parser keeps behind its buffer. -/
def maxSize : Nat :=
  2 ^ 31 - 1 - 16

def readTag (bs : Bytes) : Option (Nat × Nat × Bytes) :=
  match readVarint 5 bs with
  | none => none
  | some (n, rest) =>
      if n % 2 ^ 32 / 8 = 0 then none
      else some (n % 2 ^ 32 / 8, n % 2 ^ 32 % 8, rest)

def readRaw (k : Nat) (bs : Bytes) : Option (Bytes × Bytes) :=
  if k ≤ bs.length then some (bs.take k, bs.drop k) else none

def readSized (bs : Bytes) : Option (Bytes × Bytes) :=
  match readVarint 5 bs with
  | none => none
  | some (size, rest) => if size ≤ maxSize then readRaw size rest else none

def nextToken (bs : Bytes) : Option (Token × Bytes) :=
  match readTag bs with
  | none => none
  | some (number, wireType, rest) =>
      match wireType with
      | 0 => (readVarint 10 rest).map fun p =>
          (.field ⟨number, .varint (p.1 % 2 ^ 64)⟩, p.2)
      | 1 => (readRaw 8 rest).map fun p => (.field ⟨number, .fixed64 p.1⟩, p.2)
      | 2 => (readSized rest).map fun p => (.field ⟨number, .bytes p.1⟩, p.2)
      | 3 => some (.startGroup number, rest)
      | 4 => some (.endGroup number, rest)
      | 5 => (readRaw 4 rest).map fun p => (.field ⟨number, .fixed32 p.1⟩, p.2)
      | _ => none

def tokens : Nat → Bytes → Option (List Token)
  | _, [] => some []
  | 0, _ :: _ => none
  | k + 1, b :: bs =>
      match nextToken (b :: bs) with
      | none => none
      | some (t, rest) => (tokens k rest).map (t :: ·)

def tokenize (bs : Bytes) : Option (List Token) :=
  tokens bs.length bs

/-- Drops every group, since no message of a schema without groups has one, and
refuses unbalanced ones and ones nested deeper than `depth`. -/
def stripGroups (depth : Nat) : List Nat → List Token → Option (List Field)
  | [], [] => some []
  | _ :: _, [] => none
  | stack, .startGroup n :: ts =>
      if stack.length < depth then stripGroups depth (n :: stack) ts else none
  | [], .endGroup _ :: _ => none
  | n :: stack, .endGroup m :: ts =>
      if n = m then stripGroups depth stack ts else none
  | [], .field f :: ts => (stripGroups depth [] ts).map (f :: ·)
  | n :: stack, .field _ :: ts => stripGroups depth (n :: stack) ts

def fields (depth : Nat) (bs : Bytes) : Option (List Field) :=
  (tokenize bs).bind (stripGroups depth [])

def encodeTag (number wireType : Nat) : Bytes :=
  encodeVarint (8 * number + wireType)

def encodeField (f : Field) : Bytes :=
  match f.value with
  | .varint n => encodeTag f.number 0 ++ encodeVarint n
  | .fixed64 raw => encodeTag f.number 1 ++ raw
  | .bytes payload => encodeTag f.number 2 ++ encodeVarint payload.length ++ payload
  | .fixed32 raw => encodeTag f.number 5 ++ raw

def serialize (fs : List Field) : Bytes :=
  fs.flatMap encodeField

def Value.WellFormed : Value → Prop
  | .varint n => n < 2 ^ 64
  | .fixed64 raw => raw.length = 8
  | .bytes payload => payload.length ≤ maxSize
  | .fixed32 raw => raw.length = 4

/-- What an encoder may emit: a legal field number and a value in range. -/
structure Field.WellFormed (f : Field) : Prop where
  number_pos : 0 < f.number
  number_lt : f.number < 2 ^ 29
  value : f.value.WellFormed

theorem readTag_encodeTag {number wireType : Nat} (rest : Bytes)
    (hpos : 0 < number) (hlt : number < 2 ^ 29) (hw : wireType < 8) :
    readTag (encodeTag number wireType ++ rest) = some (number, wireType, rest) := by
  have hread : readVarint 5 (encodeTag number wireType ++ rest) =
      some (8 * number + wireType, rest) :=
    readVarint_encodeVarint rest (by decide) (by norm_num; omega)
  have hmod : (8 * number + wireType) % 2 ^ 32 = 8 * number + wireType :=
    Nat.mod_eq_of_lt (by omega)
  have hdiv : (8 * number + wireType) / 8 = number := by omega
  have hrem : (8 * number + wireType) % 8 = wireType := by omega
  rw [readTag, hread]
  simp only [hmod, hdiv, hrem]
  rw [if_neg (by omega)]

theorem readRaw_append (raw rest : Bytes) :
    readRaw raw.length (raw ++ rest) = some (raw, rest) := by
  simp [readRaw]

theorem readSized_encode {payload : Bytes} (rest : Bytes)
    (hsize : payload.length ≤ maxSize) :
    readSized (encodeVarint payload.length ++ payload ++ rest) =
      some (payload, rest) := by
  have hread : readVarint 5 (encodeVarint payload.length ++ (payload ++ rest)) =
      some (payload.length, payload ++ rest) :=
    readVarint_encodeVarint _ (by decide) (by norm_num [maxSize] at hsize ⊢; omega)
  rw [readSized, List.append_assoc, hread]
  simp only [if_pos hsize]
  exact readRaw_append payload rest

theorem nextToken_encodeField {f : Field} (rest : Bytes) (hf : f.WellFormed) :
    nextToken (encodeField f ++ rest) = some (.field f, rest) := by
  obtain ⟨number, value⟩ := f
  obtain ⟨hpos, hlt, hvalue⟩ := hf
  cases value with
  | varint n =>
      have hn : n < 2 ^ 64 := hvalue
      have hread : readVarint 10 (encodeVarint n ++ rest) = some (n, rest) :=
        readVarint_encodeVarint rest (by decide) (by norm_num at hn ⊢; omega)
      rw [encodeField, List.append_assoc, nextToken,
        readTag_encodeTag _ hpos hlt (by decide)]
      simp only [hread, Option.map_some, Nat.mod_eq_of_lt hn]
  | fixed64 raw =>
      have hraw : raw.length = 8 := hvalue
      rw [encodeField, List.append_assoc, nextToken,
        readTag_encodeTag _ hpos hlt (by decide)]
      simp only [← hraw, readRaw_append, Option.map_some]
  | bytes payload =>
      rw [encodeField, List.append_assoc, List.append_assoc, nextToken,
        readTag_encodeTag _ hpos hlt (by decide)]
      simp only [← List.append_assoc, readSized_encode rest hvalue, Option.map_some]
  | fixed32 raw =>
      have hraw : raw.length = 4 := hvalue
      rw [encodeField, List.append_assoc, nextToken,
        readTag_encodeTag _ hpos hlt (by decide)]
      simp only [← hraw, readRaw_append, Option.map_some]

theorem length_varintBytes_le (k : Nat) : ∀ n, (varintBytes k n).length ≤ k := by
  induction k with
  | zero => intro n; exact le_rfl
  | succ k ih =>
      intro n
      rw [varintBytes]
      split
      · simp
      · simpa using ih (n / 128)

theorem length_encodeVarint_le (n : Nat) : (encodeVarint n).length ≤ 10 :=
  length_varintBytes_le 10 n

theorem length_encodeField_varint_le (number n : Nat) :
    (encodeField ⟨number, .varint n⟩).length ≤ 20 := by
  have htag := length_encodeVarint_le (8 * number + 0)
  have hvalue := length_encodeVarint_le n
  simp only [encodeField, encodeTag, List.length_append]
  omega

theorem length_encodeField_bytes_le (number : Nat) (payload : Bytes) :
    (encodeField ⟨number, .bytes payload⟩).length ≤ 20 + payload.length := by
  have htag := length_encodeVarint_le (8 * number + 2)
  have hsize := length_encodeVarint_le payload.length
  simp only [encodeField, encodeTag, List.length_append]
  omega

theorem encodeVarint_ne_nil (n : Nat) : encodeVarint n ≠ [] := by
  rw [encodeVarint, varintBytes]
  split <;> simp

theorem encodeField_ne_nil (f : Field) : encodeField f ≠ [] := by
  obtain ⟨number, value⟩ := f
  cases value <;> simp [encodeField, encodeTag, encodeVarint_ne_nil]

theorem tokens_serialize {fs : List Field} (hfs : ∀ f ∈ fs, f.WellFormed) :
    ∀ k, (serialize fs).length ≤ k → tokens k (serialize fs) = some (fs.map .field) := by
  induction fs with
  | nil => intro k _; cases k <;> rfl
  | cons f fs ih =>
      intro k hk
      have hcons : serialize (f :: fs) = encodeField f ++ serialize fs := rfl
      obtain ⟨b, bs, hb⟩ := List.exists_cons_of_ne_nil (encodeField_ne_nil f)
      have hlen : (serialize (f :: fs)).length =
          bs.length + 1 + (serialize fs).length := by
        rw [hcons, hb, List.length_append, List.length_cons]
      obtain ⟨k, rfl⟩ : ∃ k', k = k' + 1 := ⟨k - 1, by omega⟩
      have hnext := nextToken_encodeField (serialize fs) (hfs f (by simp))
      have hrest := ih (fun g hg => hfs g (by simp [hg])) k (by omega)
      rw [hcons, hb, List.cons_append, tokens, ← List.cons_append, ← hb, hnext]
      simp only [hrest, Option.map_some, List.map_cons]

theorem stripGroups_fields (depth : Nat) (fs : List Field) :
    stripGroups depth [] (fs.map .field) = some fs := by
  induction fs with
  | nil => rfl
  | cons f fs ih => simp [stripGroups, ih]

/-- The round trip of the record layer: a reader gets back the fields that were
written, in the order they were written. -/
theorem fields_serialize (depth : Nat) {fs : List Field}
    (hfs : ∀ f ∈ fs, f.WellFormed) : fields depth (serialize fs) = some fs := by
  rw [fields, tokenize, tokens_serialize hfs _ le_rfl, Option.bind_some,
    stripGroups_fields]

theorem length_lt_of_readTag {bs : Bytes} {number wireType : Nat} {rest : Bytes}
    (h : readTag bs = some (number, wireType, rest)) : rest.length < bs.length := by
  rw [readTag] at h
  split at h
  · cases h
  · rename_i n rest' hread
    split at h
    · cases h
    · obtain ⟨-, -, rfl⟩ : _ ∧ _ ∧ rest' = rest := by simpa using h
      exact length_lt_of_readVarint hread

theorem length_of_readRaw {k : Nat} {bs raw rest : Bytes}
    (h : readRaw k bs = some (raw, rest)) : raw.length + rest.length = bs.length := by
  rw [readRaw] at h
  split at h
  · obtain ⟨rfl, rfl⟩ : bs.take k = raw ∧ bs.drop k = rest := by simpa using h
    simp only [List.length_take, List.length_drop]
    omega
  · cases h

theorem length_of_readSized {bs payload rest : Bytes}
    (h : readSized bs = some (payload, rest)) :
    payload.length + rest.length < bs.length := by
  rw [readSized] at h
  split at h
  · cases h
  · rename_i size rest' hread
    split at h
    · have := length_of_readRaw h
      have := length_lt_of_readVarint hread
      omega
    · cases h

theorem length_of_nextToken {bs : Bytes} {t : Token} {rest : Bytes}
    (h : nextToken bs = some (t, rest)) :
    rest.length < bs.length ∧
      ∀ number payload, t = .field ⟨number, .bytes payload⟩ →
        payload.length + rest.length + 2 ≤ bs.length := by
  rw [nextToken] at h
  split at h
  · cases h
  · rename_i number wireType rest' htag
    have hlt := length_lt_of_readTag htag
    split at h
    · obtain ⟨⟨n, r⟩, hread, hp⟩ := Option.map_eq_some_iff.mp h
      obtain ⟨rfl, rfl⟩ : _ = t ∧ r = rest := by simpa using hp
      have := length_lt_of_readVarint hread
      exact ⟨by omega, by simp⟩
    · obtain ⟨⟨raw, r⟩, hread, hp⟩ := Option.map_eq_some_iff.mp h
      obtain ⟨rfl, rfl⟩ : _ = t ∧ r = rest := by simpa using hp
      have := length_of_readRaw hread
      exact ⟨by omega, by simp⟩
    · obtain ⟨⟨payload, r⟩, hread, hp⟩ := Option.map_eq_some_iff.mp h
      obtain ⟨rfl, rfl⟩ : _ = t ∧ r = rest := by simpa using hp
      have := length_of_readSized hread
      refine ⟨by omega, ?_⟩
      rintro number' payload' heq
      obtain ⟨-, rfl⟩ : _ ∧ payload = payload' := by simpa using heq
      omega
    · obtain ⟨rfl, rfl⟩ : _ = t ∧ rest' = rest := by simpa using h
      exact ⟨hlt, by simp⟩
    · obtain ⟨rfl, rfl⟩ : _ = t ∧ rest' = rest := by simpa using h
      exact ⟨hlt, by simp⟩
    · obtain ⟨⟨raw, r⟩, hread, hp⟩ := Option.map_eq_some_iff.mp h
      obtain ⟨rfl, rfl⟩ : _ = t ∧ r = rest := by simpa using hp
      have := length_of_readRaw hread
      exact ⟨by omega, by simp⟩
    · cases h

theorem length_of_mem_tokens {k : Nat} : ∀ {bs : Bytes} {ts : List Token},
    tokens k bs = some ts → ∀ {number : Nat} {payload : Bytes},
      .field ⟨number, .bytes payload⟩ ∈ ts → payload.length + 2 ≤ bs.length := by
  induction k with
  | zero =>
      intro bs ts h number payload hmem
      cases bs with
      | nil =>
          obtain rfl : [] = ts := by simpa [tokens] using h
          simp at hmem
      | cons b bs => simp [tokens] at h
  | succ k ih =>
      intro bs ts h number payload hmem
      cases bs with
      | nil =>
          obtain rfl : [] = ts := by simpa [tokens] using h
          simp at hmem
      | cons b bs =>
          rw [tokens] at h
          split at h
          · cases h
          · rename_i t rest hnext
            obtain ⟨ts', hts', rfl⟩ := Option.map_eq_some_iff.mp h
            obtain ⟨hlt, hpayload⟩ := length_of_nextToken hnext
            rcases List.mem_cons.mp hmem with heq | hmem
            · have := hpayload number payload heq.symm
              omega
            · have := ih hts' hmem
              omega

theorem mem_of_mem_stripGroups {depth : Nat} {ts : List Token} {f : Field} :
    ∀ {stack : List Nat} {fs : List Field},
      stripGroups depth stack ts = some fs → f ∈ fs → .field f ∈ ts := by
  induction ts with
  | nil =>
      intro stack fs h hmem
      cases stack with
      | nil =>
          obtain rfl : [] = fs := by simpa [stripGroups] using h
          simp at hmem
      | cons n stack => simp [stripGroups] at h
  | cons t ts ih =>
      intro stack fs h hmem
      cases t with
      | startGroup n =>
          simp only [stripGroups] at h
          split at h
          · exact List.mem_cons_of_mem _ (ih h hmem)
          · cases h
      | endGroup m =>
          cases stack with
          | nil => simp [stripGroups] at h
          | cons n stack =>
              simp only [stripGroups] at h
              split at h
              · exact List.mem_cons_of_mem _ (ih h hmem)
              · cases h
      | field g =>
          cases stack with
          | cons n stack =>
              simp only [stripGroups] at h
              exact List.mem_cons_of_mem _ (ih h hmem)
          | nil =>
              simp only [stripGroups] at h
              obtain ⟨fs', hfs', rfl⟩ := Option.map_eq_some_iff.mp h
              rcases List.mem_cons.mp hmem with rfl | hmem
              · exact List.mem_cons_self
              · exact List.mem_cons_of_mem _ (ih hfs' hmem)

/-- A length-delimited field costs its tag and its size on top of its payload,
so no byte string contains itself as a field. -/
theorem length_of_mem_fields {depth : Nat} {bs : Bytes} {fs : List Field}
    (h : fields depth bs = some fs) {number : Nat} {payload : Bytes}
    (hmem : ⟨number, .bytes payload⟩ ∈ fs) : payload.length + 2 ≤ bs.length := by
  obtain ⟨ts, hts, hstrip⟩ := Option.bind_eq_some_iff.mp h
  exact length_of_mem_tokens hts (mem_of_mem_stripGroups hstrip hmem)

/-- A scalar at its default is left out. -/
def scalarField (number n : Nat) : List Field :=
  if n = 0 then [] else [⟨number, .varint n⟩]

/-- An empty string or byte string is left out. -/
def bytesField (number : Nat) (payload : Bytes) : List Field :=
  if payload = [] then [] else [⟨number, .bytes payload⟩]

/-- A sub-message that is present is written even when its body is empty. -/
def messageField (number : Nat) (body : Option Bytes) : List Field :=
  match body with
  | none => []
  | some payload => [⟨number, .bytes payload⟩]

theorem length_serialize_scalarField_le (number n : Nat) :
    (serialize (scalarField number n)).length ≤ 20 := by
  rw [scalarField]
  split
  · simp [serialize]
  · simpa [serialize] using length_encodeField_varint_le number n

/-- The string fields of proto3 hold UTF-8, and a parser refuses others. -/
def validUtf8 (bs : Bytes) : Bool :=
  ByteArray.validateUTF8 ⟨bs.toArray⟩

@[simp] theorem validUtf8_nil : validUtf8 [] = true := by decide

section Merge

variable {α : Type*} {merge : α → Field → Option α} {a b : α} {number : Nat}

theorem foldlM_scalarField {n : Nat} (hzero : n = 0 → b = a)
    (hne : n ≠ 0 → merge a ⟨number, .varint n⟩ = some b) :
    (scalarField number n).foldlM merge a = some b := by
  by_cases hn : n = 0
  · simp [scalarField, hn, hzero hn]
  · simp [scalarField, hn, hne hn]

theorem foldlM_bytesField {payload : Bytes} (hnil : payload = [] → b = a)
    (hne : payload ≠ [] → merge a ⟨number, .bytes payload⟩ = some b) :
    (bytesField number payload).foldlM merge a = some b := by
  by_cases hp : payload = []
  · simp [bytesField, hp, hnil hp]
  · simp [bytesField, hp, hne hp]

theorem foldlM_messageField {body : Option Bytes} (hnone : body = none → b = a)
    (hsome : ∀ payload, body = some payload →
      merge a ⟨number, .bytes payload⟩ = some b) :
    (messageField number body).foldlM merge a = some b := by
  cases body with
  | none => simp [messageField, hnone rfl]
  | some payload => simp [messageField, hsome payload rfl]

theorem foldlM_eq_none_of_mem {f : Field} {fs : List Field} (hmem : f ∈ fs)
    (hrefused : ∀ a, merge a f = none) (a : α) : fs.foldlM merge a = none := by
  induction fs generalizing a with
  | nil => cases hmem
  | cons g gs ih =>
      rw [List.foldlM_cons]
      rcases List.mem_cons.mp hmem with rfl | hmem
      · rw [hrefused a]
        rfl
      · cases merge a g with
        | none => rfl
        | some a' => exact ih hmem a'

end Merge

theorem length_le_of_mem_serialize {fs : List Field} {number : Nat} {payload : Bytes}
    (hmem : ⟨number, .bytes payload⟩ ∈ fs) :
    payload.length + 2 ≤ (serialize fs).length := by
  obtain ⟨front, back, rfl⟩ := List.append_of_mem hmem
  have htag : 0 < (encodeTag number 2).length :=
    List.length_pos_iff.mpr (encodeVarint_ne_nil _)
  have hsize : 0 < (encodeVarint payload.length).length :=
    List.length_pos_iff.mpr (encodeVarint_ne_nil _)
  simp only [serialize, List.flatMap_append, List.flatMap_cons, List.length_append,
    encodeField]
  omega

/-- What holds of every field a message's own encoder lists, whatever the
lengths of its strings. -/
def Field.Encodable (f : Field) : Prop :=
  0 < f.number ∧ f.number < 2 ^ 29 ∧
    match f.value with
    | .varint n => n < 2 ^ 64
    | .bytes _ => True
    | _ => False

theorem wellFormed_of_length {fs : List Field} (hfs : ∀ f ∈ fs, f.Encodable)
    (hsize : (serialize fs).length ≤ maxSize) : ∀ f ∈ fs, f.WellFormed := by
  intro f hf
  obtain ⟨hpos, hlt, hvalue⟩ := hfs f hf
  obtain ⟨number, value⟩ := f
  cases value with
  | varint n => exact ⟨hpos, hlt, hvalue⟩
  | fixed64 raw => exact hvalue.elim
  | fixed32 raw => exact hvalue.elim
  | bytes payload =>
      have hle : payload.length ≤ maxSize := by
        have := length_le_of_mem_serialize hf
        omega
      exact ⟨hpos, hlt, hle⟩

theorem encodable_of_mem_scalarField {number n : Nat} {f : Field} (hpos : 0 < number)
    (hlt : number < 2 ^ 29) (hn : n < 2 ^ 64) (hf : f ∈ scalarField number n) :
    f.Encodable := by
  rw [scalarField] at hf
  split at hf
  · simp at hf
  · obtain rfl := List.mem_singleton.mp hf
    exact ⟨hpos, hlt, hn⟩

theorem encodable_of_mem_bytesField {number : Nat} {payload : Bytes} {f : Field}
    (hpos : 0 < number) (hlt : number < 2 ^ 29) (hf : f ∈ bytesField number payload) :
    f.Encodable := by
  rw [bytesField] at hf
  split at hf
  · simp at hf
  · obtain rfl := List.mem_singleton.mp hf
    exact ⟨hpos, hlt, trivial⟩

theorem encodable_of_mem_messageField {number : Nat} {body : Option Bytes} {f : Field}
    (hpos : 0 < number) (hlt : number < 2 ^ 29) (hf : f ∈ messageField number body) :
    f.Encodable := by
  cases body with
  | none => simp [messageField] at hf
  | some payload =>
      obtain rfl := List.mem_singleton.mp hf
      exact ⟨hpos, hlt, trivial⟩

/-- A parser of a body: its fields are merged one by one into `a`. -/
def parseInto {α : Type*} (depth : Nat) (merge : α → Field → Option α) (a : α)
    (bs : Bytes) : Option α :=
  (fields depth bs).bind (List.foldlM merge a)

theorem parseInto_serialize {α : Type*} (depth : Nat) (merge : α → Field → Option α)
    (a : α) {fs : List Field} (hfs : ∀ f ∈ fs, f.Encodable)
    (hsize : (serialize fs).length ≤ maxSize) :
    parseInto depth merge a (serialize fs) = fs.foldlM merge a := by
  rw [parseInto, fields_serialize depth (wellFormed_of_length hfs hsize),
    Option.bind_some]

/-- What every merge keeps holds of the parsed message.  A merge may use that a
payload is shorter than the body it was found in. -/
theorem parseInto_invariant {α : Type*} {depth : Nat} {merge : α → Field → Option α}
    {a b : α} {bs : Bytes} (P : α → Prop) (hinit : P a)
    (hmerge : ∀ a f b, (∀ payload, f.value = .bytes payload →
      payload.length + 2 ≤ bs.length) → P a → merge a f = some b → P b)
    (h : parseInto depth merge a bs = some b) : P b := by
  obtain ⟨fs, hfs, hfold⟩ := Option.bind_eq_some_iff.mp h
  have hshort : ∀ f ∈ fs, ∀ payload, f.value = .bytes payload →
      payload.length + 2 ≤ bs.length := by
    rintro ⟨number, value⟩ hf payload rfl
    exact length_of_mem_fields hfs hf
  clear h hfs
  induction fs generalizing a with
  | nil =>
      obtain rfl : a = b := by simpa using hfold
      exact hinit
  | cons f fs ih =>
      obtain ⟨c, hc, hrest⟩ := Option.bind_eq_some_iff.mp hfold
      exact ih (hmerge a f c (hshort f (by simp)) hinit hc) hrest
        (fun g hg => hshort g (by simp [hg]))

theorem parseInto_serialize_eq_none {α : Type*} {depth : Nat}
    {merge : α → Field → Option α} {fs : List Field} {f : Field}
    (hfs : ∀ f ∈ fs, f.Encodable) (hsize : (serialize fs).length ≤ maxSize) (hmem : f ∈ fs)
    (hrefused : ∀ a, merge a f = none) (a : α) : parseInto depth merge a (serialize fs) = none := by
  rw [parseInto_serialize depth merge a hfs hsize]
  exact foldlM_eq_none_of_mem hmem hrefused a

theorem fields_truncated (depth : Nat) {number j : Nat} {payload : Bytes} (hpos : 0 < number)
    (hlt : number < 2 ^ 29) (hsize : payload.length < 2 ^ 35) (hj : j < payload.length) :
    fields depth (encodeTag number 2 ++ encodeVarint payload.length ++ payload.take j) = none := by
  have hread : readVarint 5 (encodeVarint payload.length ++ payload.take j) =
      some (payload.length, payload.take j) :=
    readVarint_encodeVarint _ (by decide) (by norm_num at hsize ⊢; omega)
  have hraw : readRaw payload.length (payload.take j) = none := by
    rw [readRaw, if_neg]
    rw [List.length_take]
    omega
  have hsized : readSized (encodeVarint payload.length ++ payload.take j) = none := by
    rw [readSized, hread]
    simp only [hraw, ite_self]
  have hnext : nextToken (encodeTag number 2 ++ encodeVarint payload.length ++ payload.take j) =
      none := by
    rw [List.append_assoc, nextToken, readTag_encodeTag _ hpos hlt (by decide)]
    simp only [hsized, Option.map_none]
  have hne : encodeTag number 2 ++ encodeVarint payload.length ++ payload.take j ≠ [] := by
    simp [encodeTag, encodeVarint_ne_nil]
  obtain ⟨b, bs, hb⟩ := List.exists_cons_of_ne_nil hne
  rw [fields, tokenize, hb, List.length_cons, tokens, ← hb, hnext]
  rfl

end Proto3
