import Edriel.Lib.Memory
import Edriel.WireCursor
import Edriel.Registry

/-!
The routing walk over raw memory, where `p + length` is taken modulo `2 ^ 64`, and which
frames it gets through safely. A cursor is its `p`; `stop` is its `end`.
-/

namespace Edriel

open Proto3 Memory

/-- What the walk does: it assigns to the `p` of a cursor, or copies a range out of memory. -/
inductive CursorEvent where
  | moved (source target : UInt64)
  | copied (start length : UInt64)
deriving DecidableEq

structure Walked (α : Type) where
  log : List CursorEvent
  p : UInt64
  result : α

/-- How a field ends: refused, with a `std::length_error`, or read. -/
inductive Fetched (α : Type) where
  | malformed
  | tooLong
  | got (a : α)
deriving DecidableEq

def Fetched.map {α β : Type} (f : α → β) : Fetched α → Fetched β
  | .malformed => .malformed
  | .tooLong => .tooLong
  | .got a => .got (f a)

/-- How far a loop is. -/
inductive Verdict (α : Type) where
  | running
  | threw
  | returned (a : α)
deriving DecidableEq

def Verdict.map {α β : Type} (f : α → β) : Verdict α → Verdict β
  | .running => .running
  | .threw => .threw
  | .returned a => .returned (f a)

def maxStringSize : Nat := 2 ^ 63 - 1

namespace RawCursor

variable (mem : UInt64 → UInt8) (stop : UInt64)

def varintLoop : Nat → UInt64 → Nat → UInt64 → Walked (Option UInt64)
  | 0, _, _, p => ⟨[], p, none⟩
  | k + 1, out, shift, p =>
      if p < stop ∧ shift < 64 then
        if mem p &&& 0x80 = 0 then
          ⟨[.moved p (p + 1)], p + 1,
            some (out ||| (mem p &&& 0x7F).toUInt64 <<< UInt64.ofNat shift)⟩
        else
          let rest := varintLoop k (out ||| (mem p &&& 0x7F).toUInt64 <<< UInt64.ofNat shift)
            (shift + 7) (p + 1)
          { rest with log := .moved p (p + 1) :: rest.log }
      else ⟨[], p, none⟩

def varint (p : UInt64) : Walked (Option UInt64) :=
  varintLoop mem stop 10 0 0 p

/-- `if (p + size > end) return false; p += size`. -/
def advance (p size : UInt64) : Walked Bool :=
  if stop < p + size then ⟨[], p, false⟩ else ⟨[.moved p (p + size)], p + size, true⟩

def lengthDelimited (p : UInt64) : Walked (Option (UInt64 × UInt64)) :=
  let v := varint mem stop p
  match v.result with
  | none => ⟨v.log, v.p, none⟩
  | some length =>
      let a := advance stop v.p length
      ⟨v.log ++ a.log, a.p, if a.result then some (v.p, length) else none⟩

def skipField (wireType : UInt32) (p : UInt64) : Walked Bool :=
  if wireType = 0 then
    let v := varint mem stop p
    ⟨v.log, v.p, v.result.isSome⟩
  else if wireType = 1 then advance stop p 8
  else if wireType = 2 then
    let s := lengthDelimited mem stop p
    ⟨s.log, s.p, s.result.isSome⟩
  else if wireType = 5 then advance stop p 4
  else ⟨[], p, false⟩

def nextTag (p : UInt64) : Walked (Option (UInt32 × UInt32)) :=
  if stop ≤ p then ⟨[], p, none⟩
  else
    let v := varint mem stop p
    ⟨v.log, v.p, v.result.map fun tag : UInt64 => ((tag >>> 3).toUInt32, (tag &&& 7).toUInt32)⟩

def readString (p : UInt64) : Walked (Fetched Bytes) :=
  let s := lengthDelimited mem stop p
  match s.result with
  | none => ⟨s.log, s.p, .malformed⟩
  | some (start, length) =>
      if maxStringSize < length.toNat then ⟨s.log, s.p, .tooLong⟩
      else ⟨s.log ++ [.copied start length], s.p, .got (bytesAt mem start length.toNat)⟩

def routingField (fn : UInt32) (topic messageType : Bytes) (p : UInt64) :
    Walked (Fetched (Bytes × Bytes)) :=
  if fn = 2 then
    let s := readString mem stop p
    ⟨s.log, s.p, s.result.map fun topic => (topic, messageType)⟩
  else if fn = 3 then
    let s := readString mem stop p
    ⟨s.log, s.p, s.result.map fun messageType => (topic, messageType)⟩
  else
    let s := lengthDelimited mem stop p
    match s.result with
    | none => ⟨s.log, s.p, .malformed⟩
    | some _ => ⟨s.log, s.p, .got (topic, messageType)⟩

/-- The loop of `readDataMessageRoutingKey`, for at most so many turns. -/
def routingKeyLoop : Nat → UInt64 → Bytes → Bytes →
    List CursorEvent × Verdict (Option (Bytes × Bytes))
  | 0, _, _, _ => ([], .running)
  | n + 1, p, topic, messageType =>
      let t := nextTag mem stop p
      match t.result with
      | none => (t.log, .returned (routingFields topic messageType))
      | some (fn, wt) =>
          if wt ≠ 2 then
            let s := skipField mem stop wt t.p
            if s.result then
              let r := routingKeyLoop n s.p topic messageType
              (t.log ++ (s.log ++ r.1), r.2)
            else (t.log ++ s.log, .returned none)
          else
            let f := routingField mem stop fn topic messageType t.p
            match f.result with
            | .malformed => (t.log ++ f.log, .returned none)
            | .tooLong => (t.log ++ f.log, .threw)
            | .got (topic, messageType) =>
                if !topic.isEmpty && !messageType.isEmpty then
                  (t.log ++ f.log, .returned (some (topic, messageType)))
                else
                  let r := routingKeyLoop n f.p topic messageType
                  (t.log ++ (f.log ++ r.1), r.2)

/-- The loop of `tryReadRoutingKey`; `turns` bounds the inner loop. -/
def tryReadLoop (turns : Nat) : Nat → UInt64 → List CursorEvent × Verdict (Option Bytes)
  | 0, _ => ([], .running)
  | n + 1, p =>
      let t := nextTag mem stop p
      match t.result with
      | none => (t.log, .returned none)
      | some (fn, wt) =>
          if wt ≠ 2 then
            let s := skipField mem stop wt t.p
            if s.result then
              let r := tryReadLoop turns n s.p
              (t.log ++ (s.log ++ r.1), r.2)
            else (t.log ++ s.log, .returned none)
          else
            let s := lengthDelimited mem stop t.p
            match s.result with
            | none => (t.log ++ s.log, .returned none)
            | some (body, length) =>
                if fn = 3 then
                  let r := routingKeyLoop mem (body + length) turns body [] []
                  (t.log ++ (s.log ++ r.1),
                    r.2.map fun key => key.map fun key => key.1 ++ kTopicKeySeparator :: key.2)
                else (t.log ++ s.log, .returned none)

/-- So many turns of `tryReadRoutingKey` on the frame of `len` bytes at `raw`. -/
def tryReadRoutingKey (turns : Nat) (raw len : UInt64) :
    List CursorEvent × Verdict (Option Bytes) :=
  tryReadLoop mem (raw + len) turns turns raw

end RawCursor

/-- A cursor moves forwards and stays in the frame, and what is copied lies in it. -/
def CursorEvent.Inside (first last : UInt64) : CursorEvent → Prop
  | .moved source target => first ≤ source ∧ source ≤ target ∧ target ≤ last
  | .copied start length => first ≤ start ∧ start.toNat + length.toNat ≤ last.toNat

/-- The walk over a frame comes to an end, and all that it does on the way stays inside. -/
def WalksSafely (mem : UInt64 → UInt8) (raw len : UInt64) : Prop :=
  ∃ turns log key, RawCursor.tryReadRoutingKey mem turns raw len = (log, .returned key) ∧
    ∀ e ∈ log, e.Inside raw (raw + len)

/-- Where the skip of a field ends, as a number: `c` are the bytes behind its tag, and `top`
is the address behind them. -/
def skipTargets (top : Nat) (wireType : UInt32) (c : WireCursor) : List Nat :=
  if wireType = 1 then [top - c.length + 8]
  else if wireType = 2 then
    match WireCursor.varint c with
    | none => []
    | some (length, c) => [top - c.length + length.toNat]
  else if wireType = 5 then [top - c.length + 4]
  else []

/-- The ends of the skips in the body of a data message, up to where its walk stops. -/
def bodyTargets (top : Nat) : Nat → WireCursor → Bytes → Bytes → List Nat
  | 0, _, _, _ => []
  | k + 1, c, topic, messageType =>
      match WireCursor.nextTag c with
      | none => []
      | some (fn, wt, c) =>
          skipTargets top wt c ++
            if wt ≠ 2 then
              match WireCursor.skipField wt c with
              | none => []
              | some c => bodyTargets top k c topic messageType
            else
              match routingField fn topic messageType c with
              | none => []
              | some (topic, messageType, c) =>
                  if !topic.isEmpty && !messageType.isEmpty then []
                  else bodyTargets top k c topic messageType

def frameTargets (top : Nat) : Nat → WireCursor → List Nat
  | 0, _ => []
  | k + 1, c =>
      match WireCursor.nextTag c with
      | none => []
      | some (fn, wt, c) =>
          skipTargets top wt c ++
            if wt ≠ 2 then
              match WireCursor.skipField wt c with
              | none => []
              | some c => frameTargets top k c
            else
              match WireCursor.lengthDelimited c with
              | none => []
              | some (body, c) =>
                  if fn = 3 then bodyTargets (top - c.length) body.length body [] [] else []

/-- No skip that the walk over a frame at this address makes runs out of the address
space. -/
def SkipsFit (raw : Nat) (frame : Bytes) : Prop :=
  ∀ t ∈ frameTargets (raw + frame.length) frame.length frame, t < 2 ^ 64

def Strays (log : List CursorEvent) : Prop :=
  ∃ source target, .moved source target ∈ log ∧ target < source

theorem strays_append_left {l₁ l₂ : List CursorEvent} (h : Strays l₁) : Strays (l₁ ++ l₂) := by
  obtain ⟨source, target, hmem, hlt⟩ := h
  exact ⟨source, target, List.mem_append_left l₂ hmem, hlt⟩

theorem strays_append_right {l₁ l₂ : List CursorEvent} (h : Strays l₂) : Strays (l₁ ++ l₂) := by
  obtain ⟨source, target, hmem, hlt⟩ := h
  exact ⟨source, target, List.mem_append_right l₁ hmem, hlt⟩

theorem Strays.not_inside {log : List CursorEvent} (h : Strays log) (first last : UInt64) :
    ¬ ∀ e ∈ log, e.Inside first last := by
  obtain ⟨source, target, hmem, hlt⟩ := h
  intro hinside
  exact UInt64.not_le.mpr hlt (hinside _ hmem).2.1

theorem skipTargets_two (top : Nat) (c : WireCursor) :
    skipTargets top 2 c =
      match WireCursor.varint c with
      | none => []
      | some (length, c) => [top - c.length + length.toNat] := by
  rw [skipTargets, if_neg (by decide), if_pos rfl]

/-- A call that starts in a frame does what a read of the bytes does: it stays inside, and where
the read succeeds it ends in front of what is left. -/
inductive Follows {α β : Type} (mem : UInt64 → UInt8) (stop first last : UInt64) (bad : β)
    (good : α → β → Prop) (left : α → WireCursor) : Walked β → Option α → Prop
  | failed {log : List CursorEvent} {p : UInt64} (hlog : ∀ e ∈ log, e.Inside first last) :
      Follows mem stop first last bad good left ⟨log, p, bad⟩ none
  | got {log : List CursorEvent} {p : UInt64} {b : β} (a : α)
      (hlog : ∀ e ∈ log, e.Inside first last) (hresult : good a b)
      (hspan : Spans mem p stop (left a)) (hle : first ≤ p) :
      Follows mem stop first last bad good left ⟨log, p, b⟩ (some a)

namespace RawCursor

variable {mem : UInt64 → UInt8} {stop p first last : UInt64} {c : WireCursor}

section Follows

variable {α β α' β' : Type} {bad : β} {good : α → β → Prop} {left : α → WireCursor}
  {good' : α' → β' → Prop} {left' : α' → WireCursor} {w : Walked β} {read : Option α}

theorem follows_map (f : β → β') (g : α → α') (hgood : ∀ a b, good a b → good' (g a) (f b))
    (hleft : ∀ a, left' (g a) = left a)
    (h : Follows mem stop first last bad good left w read) :
    Follows mem stop first last (f bad) good' left' ⟨w.log, w.p, f w.result⟩ (read.map g) := by
  cases h with
  | failed hlog => exact .failed hlog
  | got a hlog hresult hspan hle =>
      refine .got (g a) hlog (hgood a _ hresult) ?_ hle
      rw [hleft]
      exact hspan

theorem follows_append {log : List CursorEvent} (hlog : ∀ e ∈ log, e.Inside first last)
    (h : Follows mem stop first last bad good left w read) :
    Follows mem stop first last bad good left { w with log := log ++ w.log } read := by
  cases h with
  | failed hrest => exact .failed (List.forall_mem_append.mpr ⟨hlog, hrest⟩)
  | got a hrest hresult hspan hle =>
      exact .got a (List.forall_mem_append.mpr ⟨hlog, hrest⟩) hresult hspan hle

end Follows

theorem inside_moved {target : UInt64} (hfirst : first ≤ p) (hforward : p ≤ target)
    (hlast : target ≤ last) : ∀ e ∈ [CursorEvent.moved p target], e.Inside first last := by
  intro e he
  rw [List.mem_singleton.mp he]
  exact ⟨hfirst, hforward, hlast⟩

theorem varintLoop_follows {k : Nat} : ∀ {p out : UInt64} {shift : Nat} {c : WireCursor},
    Spans mem p stop c → first ≤ p → stop ≤ last → 64 ≤ shift + 7 * k →
      Follows mem stop first last none (fun q b => b = some q.1) Prod.snd
        (varintLoop mem stop k out shift p) (WireCursor.varintLoop out shift c) := by
  induction k with
  | zero =>
      intro p out shift c h hfirst hlast hk
      have hread : WireCursor.varintLoop out shift c = none := by
        cases c with
        | nil => rfl
        | cons b c => rw [WireCursor.varintLoop, if_neg (by omega)]
      rw [hread]
      exact .failed (List.forall_mem_nil _)
  | succ k ih =>
      intro p out shift c h hfirst hlast hk
      cases c with
      | nil =>
          rw [varintLoop, if_neg (by rw [h.eq_of_nil]; simp)]
          exact .failed (List.forall_mem_nil _)
      | cons b c =>
          by_cases hshift : shift < 64
          · have hforward : p ≤ p + 1 := by
              have hnext := h.toNat_next
              rw [UInt64.le_iff_toNat_le]
              omega
            have hnext : first ≤ p + 1 := UInt64.le_trans hfirst hforward
            have hstep := inside_moved hfirst hforward
              (UInt64.le_trans (UInt64.le_iff_toNat_le.mpr h.tail.le) hlast)
            rw [varintLoop, if_pos ⟨h.lt, hshift⟩, WireCursor.varintLoop, if_pos hshift, h.head]
            split
            · exact .got (_, c) hstep rfl h.tail hnext
            · exact follows_append hstep
                (ih h.tail hnext hlast (by omega : 64 ≤ shift + 7 + 7 * k))
          · rw [varintLoop, if_neg (by simp [hshift]), WireCursor.varintLoop, if_neg hshift]
            exact .failed (List.forall_mem_nil _)

theorem varint_follows (h : Spans mem p stop c) (hfirst : first ≤ p) (hlast : stop ≤ last) :
    Follows mem stop first last none (fun q b => b = some q.1) Prod.snd (varint mem stop p)
      (WireCursor.varint c) :=
  varintLoop_follows h hfirst hlast (by decide)

theorem nextTag_follows (h : Spans mem p stop c) (hfirst : first ≤ p) (hlast : stop ≤ last) :
    Follows mem stop first last none (fun q b => b = some (q.1, q.2.1)) (fun q => q.2.2)
      (nextTag mem stop p) (WireCursor.nextTag c) := by
  cases c with
  | nil =>
      rw [nextTag, if_pos (by rw [h.eq_of_nil]; exact UInt64.le_refl stop)]
      exact .failed (List.forall_mem_nil _)
  | cons b c =>
      have hread : WireCursor.nextTag (b :: c) = (WireCursor.varint (b :: c)).map
          fun q : UInt64 × WireCursor => ((q.1 >>> 3).toUInt32, (q.1 &&& 7).toUInt32, q.2) := by
        rw [WireCursor.nextTag]
        cases WireCursor.varint (b :: c) with
        | none => rfl
        | some q => rfl
      rw [nextTag, if_neg (UInt64.not_le.mpr h.lt), hread]
      apply follows_map (Option.map _) _ _ _ (varint_follows h hfirst hlast)
      · intro q r hr
        rw [hr]
        rfl
      · exact fun _ => rfl

theorem advance_follows {size : UInt64} (h : Spans mem p stop c) (hfirst : first ≤ p)
    (hlast : stop ≤ last) (hfits : p.toNat + size.toNat < 2 ^ 64) :
    Follows mem stop first last false (fun _ b => b = true) id (advance stop p size)
      (if c.length < size.toNat then none else some (c.drop size.toNat)) := by
  rw [advance]
  by_cases hshort : c.length < size.toNat
  · rw [if_pos ((h.lt_add_iff hfits).mpr hshort), if_pos hshort]
    exact .failed (List.forall_mem_nil _)
  · have hspan := (h.split (Nat.le_of_not_lt hshort)).2
    have hforward : p ≤ p + size := by
      rw [UInt64.le_iff_toNat_le, toNat_add_of_lt hfits]
      omega
    have hend : p + size ≤ last := UInt64.le_trans (UInt64.le_iff_toNat_le.mpr hspan.le) hlast
    rw [if_neg ((h.lt_add_iff hfits).not.mpr hshort), if_neg hshort]
    exact .got _ (inside_moved hfirst hforward hend) rfl hspan
      (UInt64.le_trans hfirst hforward)

/-- A length that runs out of the address space takes the cursor back. -/
theorem strays_advance {size : UInt64} (h : Spans mem p stop c)
    (hwraps : 2 ^ 64 ≤ p.toNat + size.toNat) : Strays (advance stop p size).log := by
  have hback := toNat_add_lt_of_le hwraps
  have hstop : ¬ stop < p + size := by
    have := h.le
    rw [UInt64.lt_iff_toNat_lt]
    omega
  rw [advance, if_neg hstop]
  exact ⟨p, p + size, List.mem_singleton_self _, UInt64.lt_iff_toNat_lt.mpr hback⟩

def BodyAt (mem : UInt64 → UInt8) (stop first : UInt64) (q : Bytes × WireCursor)
    (b : Option (UInt64 × UInt64)) : Prop :=
  ∃ start length, b = some (start, length) ∧ first ≤ start ∧
    Spans mem start (start + length) q.1 ∧ Spans mem (start + length) stop q.2

theorem lengthDelimited_follows (h : Spans mem p stop c) (hfirst : first ≤ p)
    (hlast : stop ≤ last) (hfits : ∀ t ∈ skipTargets stop.toNat 2 c, t < 2 ^ 64) :
    Follows mem stop first last none (BodyAt mem stop first) Prod.snd
      (lengthDelimited mem stop p) (WireCursor.lengthDelimited c) := by
  have hvarint := varint_follows h hfirst hlast
  rw [skipTargets_two] at hfits
  rw [lengthDelimited, WireCursor.lengthDelimited]
  generalize varint mem stop p = v at hvarint ⊢
  generalize WireCursor.varint c = read at hvarint hfits ⊢
  cases hvarint with
  | failed hlog => exact .failed hlog
  | @got log start b q hlog hresult hspan hle =>
      obtain ⟨length, c₁⟩ := q
      obtain rfl : b = some length := hresult
      have hend : start.toNat + length.toNat < 2 ^ 64 := by
        have hsize : start.toNat + c₁.length = stop.toNat := hspan.size
        have := hfits _ (List.mem_singleton_self _)
        omega
      have hadvance := advance_follows hspan hle hlast hend
      dsimp only at hadvance ⊢
      generalize advance stop start length = a at hadvance ⊢
      by_cases hshort : c₁.length < length.toNat
      · rw [if_pos hshort] at hadvance ⊢
        cases hadvance with
        | failed hrest => exact .failed (List.forall_mem_append.mpr ⟨hlog, hrest⟩)
      · rw [if_neg hshort] at hadvance ⊢
        cases hadvance with
        | got _ hrest htrue hafter hnext =>
            obtain rfl := htrue
            obtain ⟨hbody, hbehind⟩ := hspan.split (Nat.le_of_not_lt hshort)
            exact .got (_, _) (List.forall_mem_append.mpr ⟨hlog, hrest⟩)
              ⟨start, length, rfl, hle, hbody, hbehind⟩ hafter hnext

theorem strays_lengthDelimited (h : Spans mem p stop c)
    (hwraps : ∃ t ∈ skipTargets stop.toNat 2 c, 2 ^ 64 ≤ t) :
    Strays (lengthDelimited mem stop p).log := by
  obtain ⟨t, ht, hlarge⟩ := hwraps
  have hvarint := varint_follows h (UInt64.le_refl p) (UInt64.le_refl stop)
  rw [skipTargets_two] at ht
  rw [lengthDelimited]
  generalize varint mem stop p = v at hvarint ⊢
  generalize WireCursor.varint c = read at hvarint ht
  cases hvarint with
  | failed hlog => cases ht
  | @got log start b q hlog hresult hspan hle =>
      obtain ⟨length, c₁⟩ := q
      obtain rfl : b = some length := hresult
      have hsize : start.toNat + c₁.length = stop.toNat := hspan.size
      rw [List.mem_singleton.mp ht] at hlarge
      have hwraps : 2 ^ 64 ≤ start.toNat + length.toNat := by omega
      exact strays_append_right (strays_advance hspan hwraps)

theorem skipField_follows {wt : UInt32} (h : Spans mem p stop c) (hfirst : first ≤ p)
    (hlast : stop ≤ last) (hfits : ∀ t ∈ skipTargets stop.toNat wt c, t < 2 ^ 64) :
    Follows mem stop first last false (fun _ b => b = true) id (skipField mem stop wt p)
      (WireCursor.skipField wt c) := by
  have hsize := h.size
  rw [skipTargets] at hfits
  rw [skipField, WireCursor.skipField]
  by_cases hzero : wt = 0
  · rw [if_pos hzero, if_pos hzero]
    apply follows_map Option.isSome Prod.snd _ _ (varint_follows h hfirst hlast)
    · intro q b hb
      rw [hb]
      rfl
    · exact fun _ => rfl
  rw [if_neg hzero, if_neg hzero]
  by_cases hone : wt = 1
  · rw [if_pos hone] at hfits
    rw [if_pos hone, if_pos hone]
    have hend := hfits _ (List.mem_singleton_self _)
    exact advance_follows h hfirst hlast (by rw [show (8 : UInt64).toNat = 8 from rfl]; omega)
  rw [if_neg hone] at hfits
  rw [if_neg hone, if_neg hone]
  by_cases htwo : wt = 2
  · subst htwo
    rw [← skipTargets_two stop.toNat c] at hfits
    rw [if_pos rfl, if_pos rfl]
    apply follows_map Option.isSome Prod.snd _ _ (lengthDelimited_follows h hfirst hlast hfits)
    · rintro q b ⟨start, length, hb, -⟩
      rw [hb]
      rfl
    · exact fun _ => rfl
  rw [if_neg htwo] at hfits
  rw [if_neg htwo, if_neg htwo]
  by_cases hfive : wt = 5
  · rw [if_pos hfive] at hfits
    rw [if_pos hfive, if_pos hfive]
    have hend := hfits _ (List.mem_singleton_self _)
    exact advance_follows h hfirst hlast (by rw [show (4 : UInt64).toNat = 4 from rfl]; omega)
  · rw [if_neg hfive, if_neg hfive]
    exact .failed (List.forall_mem_nil _)

theorem strays_skipField {wt : UInt32} (h : Spans mem p stop c)
    (hwraps : ∃ t ∈ skipTargets stop.toNat wt c, 2 ^ 64 ≤ t) :
    Strays (skipField mem stop wt p).log := by
  have hsize := h.size
  obtain ⟨t, ht, hlarge⟩ := hwraps
  rw [skipField]
  by_cases hone : wt = 1
  · rw [skipTargets, if_pos hone] at ht
    rw [List.mem_singleton.mp ht] at hlarge
    rw [if_neg (by rw [hone]; decide), if_pos hone]
    exact strays_advance h (by rw [show (8 : UInt64).toNat = 8 from rfl]; omega)
  by_cases htwo : wt = 2
  · rw [if_neg (by rw [htwo]; decide), if_neg hone, if_pos htwo]
    rw [htwo] at ht
    exact strays_lengthDelimited h ⟨t, ht, hlarge⟩
  rw [skipTargets, if_neg hone, if_neg htwo] at ht
  by_cases hfive : wt = 5
  · rw [if_pos hfive] at ht
    rw [List.mem_singleton.mp ht] at hlarge
    rw [if_neg (by rw [hfive]; decide), if_neg hone, if_neg htwo, if_pos hfive]
    exact strays_advance h (by rw [show (4 : UInt64).toNat = 4 from rfl]; omega)
  · rw [if_neg hfive] at ht
    cases ht

theorem length_body_le {body c' : Bytes}
    (h : WireCursor.lengthDelimited c = some (body, c')) : body.length ≤ c.length := by
  rw [WireCursor.lengthDelimited] at h
  split at h
  · cases h
  · rename_i length c₁ hread
    have hlt := WireCursor.length_lt_of_varintLoop hread
    split at h
    · cases h
    · obtain ⟨rfl, -⟩ := Prod.mk.inj (Option.some.inj h)
      rw [List.length_take]
      omega

theorem readString_follows (h : Spans mem p stop c) (hfirst : first ≤ p) (hlast : stop ≤ last)
    (hfits : ∀ t ∈ skipTargets stop.toNat 2 c, t < 2 ^ 64) (hsmall : c.length ≤ maxStringSize) :
    Follows mem stop first last .malformed (fun q b => b = .got q.1) Prod.snd
      (readString mem stop p) (WireCursor.readString c) := by
  have hfield := lengthDelimited_follows h hfirst hlast hfits
  rw [readString, WireCursor.readString]
  generalize lengthDelimited mem stop p = s at hfield ⊢
  generalize hread : WireCursor.lengthDelimited c = read at hfield ⊢
  cases hfield with
  | failed hlog => exact .failed hlog
  | got q hlog hresult hspan hnext =>
      obtain ⟨body, c₁⟩ := q
      obtain ⟨start, length, rfl, hle, hbody, hbehind⟩ := hresult
      have hlength : body.length = length.toNat := hbody.length_eq
      have hbodyLe := length_body_le hread
      dsimp only
      rw [if_neg (by omega)]
      refine .got _ (List.forall_mem_append.mpr ⟨hlog, ?_⟩) ?_ hspan hnext
      · intro e he
        have hend : start.toNat + body.length = (start + length).toNat := hbody.size
        have hstop := hbehind.le
        have hlastLe := UInt64.le_iff_toNat_le.mp hlast
        rw [List.mem_singleton.mp he]
        refine ⟨hle, ?_⟩
        omega
      · rw [← hlength, hbody.bytes]

theorem strays_readString (h : Spans mem p stop c)
    (hwraps : ∃ t ∈ skipTargets stop.toNat 2 c, 2 ^ 64 ≤ t) :
    Strays (readString mem stop p).log := by
  have hstrays := strays_lengthDelimited h hwraps
  rw [readString]
  split
  · exact hstrays
  · split
    · exact hstrays
    · exact strays_append_left hstrays

theorem routingField_follows (fn : UInt32) (topic messageType : Bytes) (h : Spans mem p stop c)
    (hfirst : first ≤ p) (hlast : stop ≤ last)
    (hfits : ∀ t ∈ skipTargets stop.toNat 2 c, t < 2 ^ 64) (hsmall : c.length ≤ maxStringSize) :
    Follows mem stop first last .malformed (fun q b => b = .got (q.1, q.2.1)) (fun q => q.2.2)
      (routingField mem stop fn topic messageType p)
      (Edriel.routingField fn topic messageType c) := by
  have hstring := readString_follows h hfirst hlast hfits hsmall
  rw [routingField, Edriel.routingField]
  split
  · apply follows_map (Fetched.map _) _ _ _ hstring
    · intro q b hb
      rw [hb]
      rfl
    · exact fun _ => rfl
  split
  · apply follows_map (Fetched.map _) _ _ _ hstring
    · intro q b hb
      rw [hb]
      rfl
    · exact fun _ => rfl
  · have hfield := lengthDelimited_follows h hfirst hlast hfits
    generalize lengthDelimited mem stop p = s at hfield ⊢
    generalize WireCursor.lengthDelimited c = read at hfield ⊢
    cases hfield with
    | failed hlog => exact .failed hlog
    | got q hlog hresult hspan hle =>
        obtain ⟨start, length, rfl, -⟩ := hresult
        exact .got _ hlog rfl hspan hle

theorem strays_routingField (fn : UInt32) (topic messageType : Bytes) (h : Spans mem p stop c)
    (hwraps : ∃ t ∈ skipTargets stop.toNat 2 c, 2 ^ 64 ≤ t) :
    Strays (routingField mem stop fn topic messageType p).log := by
  rw [routingField]
  split
  · exact strays_readString h hwraps
  split
  · exact strays_readString h hwraps
  · have hstrays := strays_lengthDelimited h hwraps
    dsimp only
    split
    · exact hstrays
    · exact hstrays

theorem fits_of_not_wraps {targets : List Nat} (h : ¬ ∃ t ∈ targets, 2 ^ 64 ≤ t) :
    ∀ t ∈ targets, t < 2 ^ 64 := by
  intro t ht
  exact Nat.lt_of_not_le fun hle => h ⟨t, ht, hle⟩

theorem inside_turn {log₁ log₂ log₃ : List CursorEvent} (h₁ : ∀ e ∈ log₁, e.Inside first last)
    (h₂ : ∀ e ∈ log₂, e.Inside first last) (h₃ : ∀ e ∈ log₃, e.Inside first last) :
    ∀ e ∈ log₁ ++ (log₂ ++ log₃), e.Inside first last :=
  List.forall_mem_append.mpr ⟨h₁, List.forall_mem_append.mpr ⟨h₂, h₃⟩⟩

/-- A walk over a body whose skips fit finds what a walk over its bytes finds. -/
theorem routingKeyLoop_spec {k : Nat} : ∀ {p : UInt64} {c : WireCursor}
    {topic messageType : Bytes} {n : Nat}, Spans mem p stop c → first ≤ p → stop ≤ last →
      c.length ≤ maxStringSize → c.length ≤ k → k < n →
      (∀ t ∈ bodyTargets stop.toNat k c topic messageType, t < 2 ^ 64) →
        (routingKeyLoop mem stop n p topic messageType).2 =
            .returned (Edriel.routingKeyLoop k c topic messageType) ∧
          ∀ e ∈ (routingKeyLoop mem stop n p topic messageType).1, e.Inside first last := by
  induction k with
  | zero =>
      intro p c topic messageType n h hfirst hlast hsmall hlen hn hfits
      obtain ⟨n, rfl⟩ := Nat.exists_eq_add_of_lt hn
      obtain rfl := List.length_eq_zero_iff.mp (Nat.le_zero.mp hlen)
      obtain rfl := h.eq_of_nil
      rw [Nat.zero_add, routingKeyLoop, nextTag, if_pos (UInt64.le_refl p)]
      exact ⟨rfl, List.forall_mem_nil _⟩
  | succ k ih =>
      intro p c topic messageType n h hfirst hlast hsmall hlen hn hfits
      obtain ⟨n, rfl⟩ : ∃ n', n = n' + 1 := ⟨n - 1, by omega⟩
      have htag := nextTag_follows h hfirst hlast
      rw [bodyTargets] at hfits
      rw [routingKeyLoop, Edriel.routingKeyLoop]
      dsimp only
      generalize nextTag mem stop p = t at htag ⊢
      generalize hread : WireCursor.nextTag c = read at htag hfits ⊢
      cases htag with
      | failed hlog => exact ⟨rfl, hlog⟩
      | got q hlog hresult hspan hle =>
          obtain ⟨fn, wt, c₁⟩ := q
          subst hresult
          have hshorter := WireCursor.length_lt_of_nextTag hread
          dsimp only at hfits hspan ⊢
          obtain ⟨hskips, hrest⟩ := List.forall_mem_append.mp hfits
          by_cases hwt : wt ≠ 2
          · have hskip := skipField_follows hspan hle hlast hskips
            rw [if_pos hwt] at hrest
            rw [if_pos hwt, if_pos hwt]
            generalize skipField mem stop wt _ = s at hskip ⊢
            generalize hread₂ : WireCursor.skipField wt c₁ = read₂ at hskip hrest ⊢
            cases hskip with
            | failed hlog₂ => exact ⟨rfl, List.forall_mem_append.mpr ⟨hlog, hlog₂⟩⟩
            | got c₂ hlog₂ hresult hspan₂ hle₂ =>
                subst hresult
                have hshorter₂ := WireCursor.length_le_of_skipField hread₂
                rw [id] at hspan₂
                obtain ⟨hverdict, hloop⟩ := ih hspan₂ hle₂ hlast (by omega)
                  (by omega) (by omega : k < n) hrest
                exact ⟨hverdict, inside_turn hlog hlog₂ hloop⟩
          · obtain rfl := not_not.mp hwt
            have hfield := routingField_follows fn topic messageType hspan hle hlast hskips
              (by omega)
            rw [if_neg hwt] at hrest
            rw [if_neg hwt, if_neg hwt]
            generalize routingField mem stop fn topic messageType _ = f at hfield ⊢
            generalize hread₂ : Edriel.routingField fn topic messageType c₁ = read₂
              at hfield hrest ⊢
            cases hfield with
            | failed hlog₂ => exact ⟨rfl, List.forall_mem_append.mpr ⟨hlog, hlog₂⟩⟩
            | got q hlog₂ hresult hspan₂ hle₂ =>
                obtain ⟨topic', messageType', c₂⟩ := q
                subst hresult
                have hshorter₂ := length_le_of_routingField hread₂
                dsimp only at hrest hspan₂ ⊢
                by_cases hcomplete : (!topic'.isEmpty && !messageType'.isEmpty) = true
                · rw [if_pos hcomplete, if_pos hcomplete]
                  exact ⟨rfl, List.forall_mem_append.mpr ⟨hlog, hlog₂⟩⟩
                · rw [if_neg hcomplete] at hrest
                  rw [if_neg hcomplete, if_neg hcomplete]
                  obtain ⟨hverdict, hloop⟩ := ih hspan₂ hle₂ hlast (by omega) (by omega)
                    (by omega : k < n) hrest
                  exact ⟨hverdict, inside_turn hlog hlog₂ hloop⟩

/-- Where a skip does not fit, a walk over a body that ends has moved its cursor back. -/
theorem strays_routingKeyLoop {k : Nat} : ∀ {p : UInt64} {c : WireCursor}
    {topic messageType : Bytes} (n : Nat), Spans mem p stop c → c.length ≤ maxStringSize →
      (∃ t ∈ bodyTargets stop.toNat k c topic messageType, 2 ^ 64 ≤ t) →
        (routingKeyLoop mem stop n p topic messageType).2 = .running ∨
          Strays (routingKeyLoop mem stop n p topic messageType).1 := by
  induction k with
  | zero =>
      rintro p c topic messageType n h hsmall ⟨t, ht, -⟩
      cases ht
  | succ k ih =>
      rintro p c topic messageType n h hsmall ⟨t, ht, hlarge⟩
      cases n with
      | zero => exact .inl rfl
      | succ n =>
          have htag := nextTag_follows h (UInt64.le_refl p) (UInt64.le_refl stop)
          rw [bodyTargets] at ht
          rw [routingKeyLoop]
          dsimp only
          generalize nextTag mem stop p = w at htag ⊢
          generalize hread : WireCursor.nextTag c = read at htag ht
          cases htag with
          | failed hlog => cases ht
          | got q hlog hresult hspan hle =>
              obtain ⟨fn, wt, c₁⟩ := q
              subst hresult
              have hshorter := WireCursor.length_lt_of_nextTag hread
              dsimp only at ht hspan ⊢
              by_cases hskips : ∃ t ∈ skipTargets stop.toNat wt c₁, 2 ^ 64 ≤ t
              · -- the skip of this turn goes astray
                right
                by_cases hwt : wt ≠ 2
                · have hstrays := strays_skipField hspan hskips
                  rw [if_pos hwt]
                  split
                  · exact strays_append_right (strays_append_left hstrays)
                  · exact strays_append_right hstrays
                · obtain rfl := not_not.mp hwt
                  have hstrays := strays_routingField fn topic messageType hspan hskips
                  rw [if_neg hwt]
                  split
                  · exact strays_append_right hstrays
                  · exact strays_append_right hstrays
                  · split
                    · exact strays_append_right hstrays
                    · exact strays_append_right (strays_append_left hstrays)
              · -- it fits, and a later one does not
                have hfits := fits_of_not_wraps hskips
                have hrest := (List.mem_append.mp ht).resolve_left fun hmem =>
                  hskips ⟨t, hmem, hlarge⟩
                by_cases hwt : wt ≠ 2
                · have hskip := skipField_follows hspan hle (UInt64.le_refl stop) hfits
                  rw [if_pos hwt] at hrest
                  rw [if_pos hwt]
                  generalize skipField mem stop wt _ = s at hskip ⊢
                  generalize hread₂ : WireCursor.skipField wt c₁ = read₂ at hskip hrest
                  cases hskip with
                  | failed _ => cases hrest
                  | got c₂ _ hresult hspan₂ _ =>
                      subst hresult
                      have hshorter₂ := WireCursor.length_le_of_skipField hread₂
                      rw [id] at hspan₂
                      refine (ih n hspan₂ (by omega) ⟨t, hrest, hlarge⟩).imp id ?_
                      exact fun hstrays => strays_append_right (strays_append_right hstrays)
                · obtain rfl := not_not.mp hwt
                  have hfield := routingField_follows fn topic messageType hspan hle
                    (UInt64.le_refl stop) hfits (by omega)
                  rw [if_neg hwt] at hrest
                  rw [if_neg hwt]
                  generalize routingField mem stop fn topic messageType _ = f at hfield ⊢
                  generalize hread₂ : Edriel.routingField fn topic messageType c₁ = read₂
                    at hfield hrest
                  cases hfield with
                  | failed _ => cases hrest
                  | got q _ hresult hspan₂ _ =>
                      obtain ⟨topic', messageType', c₂⟩ := q
                      subst hresult
                      have hshorter₂ := length_le_of_routingField hread₂
                      dsimp only at hrest hspan₂ ⊢
                      by_cases hcomplete : (!topic'.isEmpty && !messageType'.isEmpty) = true
                      · rw [if_pos hcomplete] at hrest
                        cases hrest
                      · rw [if_neg hcomplete] at hrest
                        rw [if_neg hcomplete]
                        refine (ih n hspan₂ (by omega) ⟨t, hrest, hlarge⟩).imp id ?_
                        exact fun hstrays => strays_append_right (strays_append_right hstrays)

theorem toNat_stop_of_spans {body : UInt64} {c' : WireCursor} (h : Spans mem body stop c') :
    stop.toNat - c'.length = body.toNat := by
  have := h.size
  omega

theorem tryReadLoop_spec {turns k : Nat} : ∀ {p : UInt64} {c : WireCursor} {n : Nat},
    Spans mem p stop c → first ≤ p → stop ≤ last → c.length ≤ maxStringSize → c.length ≤ k →
      c.length < turns → k < n → (∀ t ∈ frameTargets stop.toNat k c, t < 2 ^ 64) →
        (tryReadLoop mem stop turns n p).2 = .returned (Edriel.tryReadLoop k c) ∧
          ∀ e ∈ (tryReadLoop mem stop turns n p).1, e.Inside first last := by
  induction k with
  | zero =>
      intro p c n h hfirst hlast hsmall hlen hturns hn hfits
      obtain ⟨n, rfl⟩ := Nat.exists_eq_add_of_lt hn
      obtain rfl := List.length_eq_zero_iff.mp (Nat.le_zero.mp hlen)
      obtain rfl := h.eq_of_nil
      rw [Nat.zero_add, tryReadLoop, nextTag, if_pos (UInt64.le_refl p)]
      exact ⟨rfl, List.forall_mem_nil _⟩
  | succ k ih =>
      intro p c n h hfirst hlast hsmall hlen hturns hn hfits
      obtain ⟨n, rfl⟩ : ∃ n', n = n' + 1 := ⟨n - 1, by omega⟩
      have htag := nextTag_follows h hfirst hlast
      rw [frameTargets] at hfits
      rw [tryReadLoop, Edriel.tryReadLoop]
      dsimp only
      generalize nextTag mem stop p = t at htag ⊢
      generalize hread : WireCursor.nextTag c = read at htag hfits ⊢
      cases htag with
      | failed hlog => exact ⟨rfl, hlog⟩
      | got q hlog hresult hspan hle =>
          obtain ⟨fn, wt, c₁⟩ := q
          subst hresult
          have hshorter := WireCursor.length_lt_of_nextTag hread
          dsimp only at hfits hspan ⊢
          obtain ⟨hskips, hrest⟩ := List.forall_mem_append.mp hfits
          by_cases hwt : wt ≠ 2
          · have hskip := skipField_follows hspan hle hlast hskips
            rw [if_pos hwt] at hrest
            rw [if_pos hwt, if_pos hwt]
            generalize skipField mem stop wt _ = s at hskip ⊢
            generalize hread₂ : WireCursor.skipField wt c₁ = read₂ at hskip hrest ⊢
            cases hskip with
            | failed hlog₂ => exact ⟨rfl, List.forall_mem_append.mpr ⟨hlog, hlog₂⟩⟩
            | got c₂ hlog₂ hresult hspan₂ hle₂ =>
                subst hresult
                have hshorter₂ := WireCursor.length_le_of_skipField hread₂
                rw [id] at hspan₂
                obtain ⟨hverdict, hloop⟩ := ih hspan₂ hle₂ hlast (by omega)
                  (by omega) (by omega) (by omega : k < n) hrest
                exact ⟨hverdict, inside_turn hlog hlog₂ hloop⟩
          · obtain rfl := not_not.mp hwt
            have hfield := lengthDelimited_follows hspan hle hlast hskips
            rw [if_neg hwt] at hrest
            rw [if_neg hwt, if_neg hwt]
            generalize lengthDelimited mem stop _ = s at hfield ⊢
            generalize hread₂ : WireCursor.lengthDelimited c₁ = read₂ at hfield hrest ⊢
            cases hfield with
            | failed hlog₂ => exact ⟨rfl, List.forall_mem_append.mpr ⟨hlog, hlog₂⟩⟩
            | got q hlog₂ hresult hspan₂ hle₂ =>
                obtain ⟨body, c₂⟩ := q
                obtain ⟨start, length, rfl, hstart, hbody, hbehind⟩ := hresult
                have hbodyLe := length_body_le hread₂
                dsimp only at hrest hbody hbehind ⊢
                by_cases hdata : fn = 3
                · rw [if_pos hdata, toNat_stop_of_spans hbehind] at hrest
                  rw [if_pos hdata, if_pos hdata]
                  have hend : start + length ≤ last :=
                    UInt64.le_trans (UInt64.le_iff_toNat_le.mpr hbehind.le) hlast
                  obtain ⟨hverdict, hloop⟩ := routingKeyLoop_spec hbody hstart hend (by omega)
                    le_rfl (by omega : body.length < turns) hrest
                  rw [hverdict]
                  exact ⟨rfl, inside_turn hlog hlog₂ hloop⟩
                · rw [if_neg hdata, if_neg hdata]
                  exact ⟨rfl, List.forall_mem_append.mpr ⟨hlog, hlog₂⟩⟩

theorem strays_tryReadLoop (turns : Nat) {k : Nat} : ∀ {p : UInt64} {c : WireCursor} (n : Nat),
    Spans mem p stop c → c.length ≤ maxStringSize →
      (∃ t ∈ frameTargets stop.toNat k c, 2 ^ 64 ≤ t) →
        (tryReadLoop mem stop turns n p).2 = .running ∨
          Strays (tryReadLoop mem stop turns n p).1 := by
  induction k with
  | zero =>
      rintro p c n h hsmall ⟨t, ht, -⟩
      cases ht
  | succ k ih =>
      rintro p c n h hsmall ⟨t, ht, hlarge⟩
      cases n with
      | zero => exact .inl rfl
      | succ n =>
          have htag := nextTag_follows h (UInt64.le_refl p) (UInt64.le_refl stop)
          rw [frameTargets] at ht
          rw [tryReadLoop]
          dsimp only
          generalize nextTag mem stop p = w at htag ⊢
          generalize hread : WireCursor.nextTag c = read at htag ht
          cases htag with
          | failed hlog => cases ht
          | got q hlog hresult hspan hle =>
              obtain ⟨fn, wt, c₁⟩ := q
              subst hresult
              have hshorter := WireCursor.length_lt_of_nextTag hread
              dsimp only at ht hspan ⊢
              by_cases hskips : ∃ t ∈ skipTargets stop.toNat wt c₁, 2 ^ 64 ≤ t
              · right
                by_cases hwt : wt ≠ 2
                · have hstrays := strays_skipField hspan hskips
                  rw [if_pos hwt]
                  split
                  · exact strays_append_right (strays_append_left hstrays)
                  · exact strays_append_right hstrays
                · obtain rfl := not_not.mp hwt
                  have hstrays := strays_lengthDelimited hspan hskips
                  rw [if_neg hwt]
                  split
                  · exact strays_append_right hstrays
                  · split
                    · exact strays_append_right (strays_append_left hstrays)
                    · exact strays_append_right hstrays
              · have hfits := fits_of_not_wraps hskips
                have hrest := (List.mem_append.mp ht).resolve_left fun hmem =>
                  hskips ⟨t, hmem, hlarge⟩
                by_cases hwt : wt ≠ 2
                · have hskip := skipField_follows hspan hle (UInt64.le_refl stop) hfits
                  rw [if_pos hwt] at hrest
                  rw [if_pos hwt]
                  generalize skipField mem stop wt _ = s at hskip ⊢
                  generalize hread₂ : WireCursor.skipField wt c₁ = read₂ at hskip hrest
                  cases hskip with
                  | failed _ => cases hrest
                  | got c₂ _ hresult hspan₂ _ =>
                      subst hresult
                      have hshorter₂ := WireCursor.length_le_of_skipField hread₂
                      rw [id] at hspan₂
                      refine (ih n hspan₂ (by omega) ⟨t, hrest, hlarge⟩).imp id ?_
                      exact fun hstrays => strays_append_right (strays_append_right hstrays)
                · obtain rfl := not_not.mp hwt
                  have hfield := lengthDelimited_follows hspan hle (UInt64.le_refl stop) hfits
                  rw [if_neg hwt] at hrest
                  rw [if_neg hwt]
                  generalize lengthDelimited mem stop _ = s at hfield ⊢
                  generalize hread₂ : WireCursor.lengthDelimited c₁ = read₂ at hfield hrest
                  cases hfield with
                  | failed _ => cases hrest
                  | got q _ hresult _ _ =>
                      obtain ⟨body, c₂⟩ := q
                      obtain ⟨start, length, rfl, -, hbody, hbehind⟩ := hresult
                      have hbodyLe := length_body_le hread₂
                      dsimp only at hrest hbody hbehind ⊢
                      by_cases hdata : fn = 3
                      · rw [if_pos hdata, toNat_stop_of_spans hbehind] at hrest
                        rw [if_pos hdata]
                        rcases strays_routingKeyLoop turns hbody (by omega)
                          ⟨t, hrest, hlarge⟩ with hrunning | hstrays
                        · left
                          rw [hrunning]
                          rfl
                        · exact .inr (strays_append_right (strays_append_right hstrays))
                      · rw [if_neg hdata] at hrest
                        cases hrest

end RawCursor

theorem length_frame (mem : UInt64 → UInt8) (raw len : UInt64) :
    (bytesAt mem raw len.toNat).length = len.toNat :=
  length_bytesAt mem raw len.toNat

theorem spans_frame (mem : UInt64 → UInt8) {raw len : UInt64}
    (hplaced : raw.toNat + len.toNat < 2 ^ 64) :
    Spans mem raw (raw + len) (bytesAt mem raw len.toNat) := by
  have hspan := Spans.of_bytesAt mem hplaced
  rwa [UInt64.ofNat_toNat] at hspan

theorem tryReadRoutingKey_of_skipsFit (mem : UInt64 → UInt8) {raw len : UInt64}
    (hplaced : raw.toNat + len.toNat < 2 ^ 64)
    (hframe : networkMagic.length + len.toNat ≤ recvBufferSize)
    (hfits : SkipsFit raw.toNat (bytesAt mem raw len.toNat)) :
    (RawCursor.tryReadRoutingKey mem (len.toNat + 1) raw len).2 =
        .returned (tryReadRoutingKey (bytesAt mem raw len.toNat)) ∧
      ∀ e ∈ (RawCursor.tryReadRoutingKey mem (len.toNat + 1) raw len).1,
        e.Inside raw (raw + len) := by
  have hlen := length_frame mem raw len
  rw [SkipsFit, hlen, ← toNat_add_of_lt hplaced] at hfits
  have hturns : (bytesAt mem raw len.toNat).length < len.toNat + 1 := by omega
  have hwalk := RawCursor.tryReadLoop_spec (spans_frame mem hplaced) (UInt64.le_refl raw)
    (UInt64.le_refl (raw + len))
    (by rw [hlen, maxStringSize]; rw [recvBufferSize] at hframe; omega) hlen.le hturns
    (Nat.lt_add_one len.toNat) hfits
  rw [tryReadRoutingKey, hlen]
  exact hwalk

/-- The walk gets through a datagram safely exactly when none of its skips runs out of the
address space. -/
theorem walks_safely_iff (mem : UInt64 → UInt8) {raw len : UInt64}
    (hplaced : raw.toNat + len.toNat < 2 ^ 64)
    (hframe : networkMagic.length + len.toNat ≤ recvBufferSize) :
    WalksSafely mem raw len ↔ SkipsFit raw.toNat (bytesAt mem raw len.toNat) := by
  constructor
  · rintro ⟨turns, log, key, hwalk, hinside⟩ t ht
    have hlen := length_frame mem raw len
    rw [hlen, ← toNat_add_of_lt hplaced] at ht
    apply Nat.lt_of_not_le
    intro hlarge
    have hstrays := RawCursor.strays_tryReadLoop turns turns (spans_frame mem hplaced)
      (by rw [hlen, maxStringSize]; rw [recvBufferSize] at hframe; omega) ⟨t, ht, hlarge⟩
    rw [RawCursor.tryReadRoutingKey] at hwalk
    rw [hwalk] at hstrays
    rcases hstrays with hrunning | hstrays
    · cases hrunning
    · exact hstrays.not_inside raw (raw + len) hinside
  · intro hfits
    obtain ⟨hverdict, hinside⟩ := tryReadRoutingKey_of_skipsFit mem hplaced hframe hfits
    exact ⟨_, _, _, Prod.ext rfl hverdict, hinside⟩

/-- A data message whose first field claims a length of `2 ^ 64 - 11`. -/
def hostileFrame : Bytes :=
  [26, 11, 10, 245, 255, 255, 255, 255, 255, 255, 255, 255, 1]

def hostileMemory (a : UInt64) : UInt8 :=
  hostileFrame.getD (a - 4096).toNat 0

/-- The walk over the body comes back to where it started. -/
theorem hostile_body_running (n : Nat) :
    (RawCursor.routingKeyLoop hostileMemory 4109 n 4098 [] []).2 = .running := by
  have htag : (RawCursor.nextTag hostileMemory 4109 4098).result = some (1, 2) := by
    decide +kernel
  have hfield : (RawCursor.routingField hostileMemory 4109 1 [] []
      (RawCursor.nextTag hostileMemory 4109 4098).p).result = .got ([], []) := by
    decide +kernel
  have hback : (RawCursor.routingField hostileMemory 4109 1 [] []
      (RawCursor.nextTag hostileMemory 4109 4098).p).p = 4098 := by
    decide +kernel
  induction n with
  | zero => rfl
  | succ n ih =>
      rw [RawCursor.routingKeyLoop]
      dsimp only
      rw [htag]
      dsimp only
      rw [if_neg (by decide), hfield]
      dsimp only
      rw [hback, if_neg (by decide)]
      exact ih

theorem hostile_walk_endless :
    (∀ turns, (RawCursor.tryReadRoutingKey hostileMemory turns 4096 13).2 = .running) ∧
      ¬ WalksSafely hostileMemory 4096 13 := by
  have hrunning : ∀ turns,
      (RawCursor.tryReadRoutingKey hostileMemory turns 4096 13).2 = .running := by
    intro turns
    have htag : (RawCursor.nextTag hostileMemory (4096 + 13) 4096).result = some (3, 2) := by
      decide +kernel
    have hbody : (RawCursor.lengthDelimited hostileMemory (4096 + 13)
        (RawCursor.nextTag hostileMemory (4096 + 13) 4096).p).result = some (4098, 11) := by
      decide +kernel
    cases turns with
    | zero => rfl
    | succ n =>
        rw [RawCursor.tryReadRoutingKey, RawCursor.tryReadLoop]
        dsimp only
        rw [htag]
        dsimp only
        rw [if_neg (by decide), hbody]
        dsimp only
        rw [if_pos rfl]
        dsimp only
        rw [show (4098 : UInt64) + 11 = 4109 from rfl, hostile_body_running]
        rfl
  refine ⟨hrunning, ?_⟩
  rintro ⟨turns, log, key, hwalk, -⟩
  have hnever := hrunning turns
  rw [hwalk] at hnever
  cases hnever

theorem walks_safely_iff_hostile :
    WalksSafely hostileMemory 4096 13 ↔
      SkipsFit (4096 : UInt64).toNat (bytesAt hostileMemory 4096 (13 : UInt64).toNat) :=
  walks_safely_iff hostileMemory (by decide) (by decide)

end Edriel
