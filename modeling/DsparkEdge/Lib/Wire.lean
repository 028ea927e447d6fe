import Mathlib.Tactic.Common
import Mathlib.Data.Int.Notation
import Mathlib.Tactic.Linarith

/-! The protobuf wire format, as far as a writer needs it: base-128 varints, scalar fields that are left
    out at their default, and length-delimited fields, nested to any depth. Every writer has a size
    function that counts its bytes without producing them.

        varint     │1ddddddd│ … │0ddddddd│                low seven bits first
        scalar     │ tag │ varint │                       absent when 0
        delimited  │ tag │ varint length │ payload … │    a message, or bytes (absent when empty) -/

namespace DsparkEdge.Wire

abbrev Octet := BitVec 8

/-! ### Varints -/

/-- Seven bits to a byte, low bits first, the top bit set on all bytes but the last. -/
def varint (n : ℕ) : List Octet :=
  if n < 128 then [BitVec.ofNat 8 n] else BitVec.ofNat 8 (n % 128 + 128) :: varint (n / 128)
termination_by n
decreasing_by omega

def varintSize (n : ℕ) : ℕ := if n < 128 then 1 else varintSize (n / 128) + 1
termination_by n
decreasing_by omega

@[simp] theorem length_varint (n : ℕ) : (varint n).length = varintSize n := by
  fun_induction varint n with
  | case1 n h => rw [varintSize, if_pos h]; rfl
  | case2 n h ih => rw [varintSize, if_neg h, List.length_cons, ih]

theorem varintSize_pos (n : ℕ) : 1 ≤ varintSize n := by
  rw [varintSize]
  split <;> omega

/-- Seven bits more cost at most one byte more. -/
theorem varintSize_le {k n : ℕ} (h : n < 128 ^ (k + 1)) : varintSize n ≤ k + 1 := by
  induction k generalizing n with
  | zero => rw [varintSize, if_pos (by simpa using h)]
  | succ k ih =>
    rw [varintSize]
    split
    · omega
    · have := ih (Nat.div_lt_of_lt_mul (by rwa [pow_succ'] at h))
      omega

/-! ### Scalar fields -/

/-- Field number and wire type. -/
def tag (field wireType : ℕ) : List Octet := varint (field * 8 + wireType)

/-- The tags of the fields 1 to 15 take one byte. -/
theorem length_tag {field wireType : ℕ} (h : field < 16) (hw : wireType < 8) :
    (tag field wireType).length = 1 := by
  rw [tag, length_varint, varintSize, if_pos (by omega)]

/-- A `uint64` or `uint32` field. -/
def uintField (field n : ℕ) : List Octet := if n = 0 then [] else tag field 0 ++ varint n

/-- An `int32` field: a negative value is sign-extended to 64 bits. -/
def intField (field : ℕ) (n : ℤ) : List Octet := uintField field (BitVec.ofInt 64 n).toNat

def boolField (field : ℕ) (b : Bool) : List Octet := if b then tag field 0 ++ varint 1 else []

def uintSize (n : ℕ) : ℕ := if n = 0 then 0 else 1 + varintSize n

def intSize (n : ℤ) : ℕ := uintSize (BitVec.ofInt 64 n).toNat

variable {field : ℕ}

theorem length_uintField (h : field < 16) (n : ℕ) : (uintField field n).length = uintSize n := by
  rw [uintField, uintSize]
  split
  · rfl
  · rw [List.length_append, length_tag h (by omega), length_varint]

theorem length_intField (h : field < 16) (n : ℤ) : (intField field n).length = intSize n :=
  length_uintField h _

theorem length_boolField (h : field < 16) (b : Bool) :
    (boolField field b).length = if b then 2 else 0 := by
  rw [boolField]
  cases b with
  | true =>
    rw [if_pos rfl, if_pos rfl, List.length_append, length_tag h (by omega), length_varint, varintSize,
      if_pos (by omega)]
  | false => rfl

/-- A 64-bit value never takes more than ten bytes and its tag. -/
theorem uintSize_le {n : ℕ} (h : n < 2 ^ 64) : uintSize n ≤ 11 := by
  rw [uintSize]
  split
  · omega
  · have := varintSize_le (k := 9) (n := n) (by omega)
    omega

theorem intSize_le (n : ℤ) : intSize n ≤ 11 := uintSize_le (BitVec.isLt _)

/-! ### Length-delimited fields -/

/-- An embedded message, an element of a repeated field. -/
def messageField (field : ℕ) (payload : List Octet) : List Octet :=
  tag field 2 ++ varint payload.length ++ payload

def bytesField (field : ℕ) (payload : List Octet) : List Octet :=
  if payload.isEmpty then [] else messageField field payload

def delimitedSize (n : ℕ) : ℕ := 1 + varintSize n + n

def bytesSize (n : ℕ) : ℕ := if n = 0 then 0 else delimitedSize n

theorem length_messageField (h : field < 16) (payload : List Octet) :
    (messageField field payload).length = delimitedSize payload.length := by
  rw [messageField, List.length_append, List.length_append, length_tag h (by omega), length_varint]
  rfl

theorem length_bytesField (h : field < 16) (payload : List Octet) :
    (bytesField field payload).length = bytesSize payload.length := by
  rw [bytesField, bytesSize]
  cases payload with
  | nil => rfl
  | cons b payload => exact length_messageField h (b :: payload)

theorem le_delimitedSize (n : ℕ) : n + 2 ≤ delimitedSize n := by
  have := varintSize_pos n
  rw [delimitedSize]; omega

/-- Up to 32 bits of length cost at most six bytes of framing. -/
theorem delimitedSize_le {n : ℕ} (h : n < 2 ^ 32) : delimitedSize n ≤ n + 6 := by
  have := varintSize_le (k := 4) (n := n) (by omega)
  rw [delimitedSize]; omega

theorem le_bytesSize (n : ℕ) : n ≤ bytesSize n := by
  have := le_delimitedSize n
  rw [bytesSize]
  split <;> omega

/-- A repeated message field. -/
def repeatedField {α : Type*} (field : ℕ) (serialize : α → List Octet) (xs : List α) : List Octet :=
  xs.flatMap fun x => messageField field (serialize x)

theorem length_repeatedField {α : Type*} (h : field < 16) (serialize : α → List Octet) (xs : List α) :
    (repeatedField field serialize xs).length =
      (xs.map fun x => delimitedSize (serialize x).length).sum := by
  rw [repeatedField, List.length_flatMap]
  simp only [length_messageField h]

end DsparkEdge.Wire
