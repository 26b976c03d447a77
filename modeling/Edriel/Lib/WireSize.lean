import Edriel.Lib.Proto3

namespace Proto3

def varintSize (n : Nat) : Nat :=
  min 10 (Nat.log 128 n + 1)

theorem length_varintBytes (k n : Nat) :
    (varintBytes k n).length = min k (Nat.log 128 n + 1) := by
  induction k generalizing n with
  | zero => exact (Nat.zero_min _).symm
  | succ k ih =>
      rw [varintBytes]
      split_ifs with hsmall
      · rw [Nat.log_of_lt hsmall, List.length_singleton]
        omega
      · have hlog : Nat.log 128 n = Nat.log 128 (n / 128) + 1 :=
          Nat.log_of_one_lt_of_le (by decide) (not_lt.mp hsmall)
        rw [List.length_cons, ih, hlog]
        omega

theorem length_encodeVarint (n : Nat) : (encodeVarint n).length = varintSize n :=
  length_varintBytes 10 n

theorem varintSize_le (n : Nat) : varintSize n ≤ 10 :=
  min_le_left _ _

/-- A number in a field with a one-byte tag; zero is left out. -/
def scalarSize (n : Nat) : Nat :=
  if n = 0 then 0 else 1 + varintSize n

/-- A payload of `length` bytes in a field with a one-byte tag. -/
def bytesSize (length : Nat) : Nat :=
  1 + varintSize length + length

/-- A string field, which is left out when it is empty. -/
def stringSize (length : Nat) : Nat :=
  if length = 0 then 0 else bytesSize length

theorem scalarSize_le (n : Nat) : scalarSize n ≤ 11 := by
  have hsize := varintSize_le n
  rw [scalarSize]
  split_ifs <;> omega

theorem bytesSize_le (length : Nat) : bytesSize length ≤ length + 11 := by
  have hsize := varintSize_le length
  rw [bytesSize]
  omega

theorem le_bytesSize (length : Nat) : length ≤ bytesSize length :=
  Nat.le_add_left _ _

theorem stringSize_le (length : Nat) : stringSize length ≤ length + 11 := by
  have hsize := bytesSize_le length
  rw [stringSize]
  split_ifs <;> omega

theorem le_stringSize (length : Nat) : length ≤ stringSize length := by
  have hsize := le_bytesSize length
  rw [stringSize]
  split_ifs <;> omega

theorem length_encodeTag {number wireType : Nat} (hnumber : number < 15) (hwire : wireType < 8) :
    (encodeTag number wireType).length = 1 := by
  have hlog : Nat.log 128 (8 * number + wireType) = 0 := Nat.log_of_lt (by omega)
  rw [encodeTag, length_encodeVarint, varintSize, hlog]
  rfl

theorem length_serialize_append (fs gs : List Field) :
    (serialize (fs ++ gs)).length = (serialize fs).length + (serialize gs).length := by
  rw [serialize, List.flatMap_append, List.length_append]
  rfl

theorem length_serialize_bytes {number : Nat} (hnumber : number < 15) (payload : Bytes) :
    (serialize [⟨number, .bytes payload⟩]).length = bytesSize payload.length := by
  rw [serialize, List.flatMap_singleton, encodeField, List.length_append, List.length_append,
    length_encodeTag hnumber (by decide), length_encodeVarint, bytesSize]

theorem length_serialize_scalarField {number : Nat} (hnumber : number < 15) (n : Nat) :
    (serialize (scalarField number n)).length = scalarSize n := by
  rw [scalarField, scalarSize]
  split_ifs
  · rfl
  · rw [serialize, List.flatMap_singleton, encodeField, List.length_append,
      length_encodeTag hnumber (by decide), length_encodeVarint]

theorem length_serialize_bytesField {number : Nat} (hnumber : number < 15) (payload : Bytes) :
    (serialize (bytesField number payload)).length = stringSize payload.length := by
  rw [bytesField, stringSize]
  by_cases hempty : payload = []
  · rw [if_pos hempty, if_pos (List.length_eq_zero_iff.mpr hempty)]
    rfl
  · rw [if_neg hempty, if_neg (List.length_eq_zero_iff.not.mpr hempty)]
    exact length_serialize_bytes hnumber payload

theorem length_serialize_messageField {number : Nat} (hnumber : number < 15) (payload : Bytes) :
    (serialize (messageField number (some payload))).length = bytesSize payload.length :=
  length_serialize_bytes hnumber payload

theorem length_serialize_repeated {α : Type*} {number : Nat} (hnumber : number < 15)
    (body : α → Bytes) (xs : List α) :
    (serialize (xs.map fun x => ⟨number, .bytes (body x)⟩)).length =
      (xs.map fun x => bytesSize (body x).length).sum := by
  induction xs with
  | nil => rfl
  | cons x xs ih =>
      rw [List.map_cons, List.map_cons, List.sum_cons, ← ih, ← length_serialize_bytes hnumber,
        ← length_serialize_append]
      rfl

end Proto3
