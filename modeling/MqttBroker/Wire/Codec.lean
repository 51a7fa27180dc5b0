import MqttBroker.Library.Outcome
import MqttBroker.Wire.Packet
import Mathlib.Tactic.IntervalCases

/-! The field codec: big-endian integers, length-prefixed strings and byte
fields, single bytes, and the variable byte integer. Every reader takes the
whole buffer and an offset, as the source does. -/

namespace Mqtt
open Calls

abbrev Result (α : Type) := Outcome Error α

/-- `return ..., code` -/
def fail {α : Type} (c : Code) : Result α := .err (.code c)

def byteAt (b : Bytes) (i : Nat) : Result UInt8 := index b i

def bigEndianUint16 (b : Bytes) : Result UInt16 := do
  let hi ← byteAt b 0
  let lo ← byteAt b 1
  return hi.toUInt16 <<< 8 ||| lo.toUInt16

def bigEndianUint32 (b : Bytes) : Result UInt32 := do
  let b0 ← byteAt b 0
  let b1 ← byteAt b 1
  let b2 ← byteAt b 2
  let b3 ← byteAt b 3
  return b0.toUInt32 <<< 24 ||| b1.toUInt32 <<< 16 ||| b2.toUInt32 <<< 8 ||| b3.toUInt32

def decodeUint16 (buf : Bytes) (offset : Nat) : Result (UInt16 × Nat) :=
  if buf.length < offset + 2 then fail .malformedOffsetUintOutOfRange
  else do
    let b ← slice buf offset (offset + 2)
    let v ← bigEndianUint16 b
    return (v, offset + 2)

def decodeUint32 (buf : Bytes) (offset : Nat) : Result (UInt32 × Nat) :=
  if buf.length < offset + 4 then fail .malformedOffsetUintOutOfRange
  else do
    let b ← slice buf offset (offset + 4)
    let v ← bigEndianUint32 b
    return (v, offset + 4)

def utf8Continuation (b : UInt8) : Bool := 0x80 ≤ b && b ≤ 0xBF

/-- `utf8.Valid`: no overlong form, no surrogate half, nothing above U+10FFFF. -/
def utf8Valid : Bytes → Bool
  | [] => true
  | b0 :: bs =>
    if b0 < 0x80 then utf8Valid bs
    else match bs with
      | [] => false
      | b1 :: bs =>
        if 0xC2 ≤ b0 && b0 ≤ 0xDF then utf8Continuation b1 && utf8Valid bs
        else match bs with
          | [] => false
          | b2 :: bs =>
            if 0xE0 ≤ b0 && b0 ≤ 0xEF then
              (if b0 == 0xE0 then 0xA0 else 0x80) ≤ b1 && b1 ≤ (if b0 == 0xED then 0x9F else 0xBF)
                && utf8Continuation b2 && utf8Valid bs
            else match bs with
              | [] => false
              | b3 :: bs =>
                0xF0 ≤ b0 && b0 ≤ 0xF4
                  && (if b0 == 0xF0 then 0x90 else 0x80) ≤ b1 && b1 ≤ (if b0 == 0xF4 then 0x8F else 0xBF)
                  && utf8Continuation b2 && utf8Continuation b3 && utf8Valid bs

def validUTF8 (b : Bytes) : Bool := utf8Valid b && !b.contains 0x00

def decodeBytes (buf : Bytes) (offset : Nat) : Result (Bytes × Nat) := do
  let (length, next) ← decodeUint16 buf offset
  if next + length.toNat > buf.length then fail .malformedOffsetBytesOutOfRange
  else do
    let b ← slice buf next (next + length.toNat)
    return (b, next + length.toNat)

def decodeString (buf : Bytes) (offset : Nat) : Result (Bytes × Nat) := do
  let (b, n) ← decodeBytes buf offset
  if !validUTF8 b then fail .malformedInvalidUTF8
  else return (b, n)

def decodeByte (buf : Bytes) (offset : Nat) : Result (UInt8 × Nat) :=
  if buf.length ≤ offset then fail .malformedOffsetByteOutOfRange
  else do
    let b ← byteAt buf offset
    return (b, offset + 1)

def decodeByteBool (buf : Bytes) (offset : Nat) : Result (Bool × Nat) :=
  if buf.length ≤ offset then fail .malformedOffsetBoolOutOfRange
  else do
    let b ← byteAt buf offset
    return (1 &&& b > 0, offset + 1)

/-- `x << n` on `uint32`: shifting by the word size or more gives zero. -/
def shiftLeft (x n : UInt32) : UInt32 := .ofBitVec (x.toBitVec <<< n.toNat)

/-- The loop of `DecodeLength`: the value, the count `bu`, which is returned with an error as well, and
the bytes that are not read. -/
def readLengthLoop : Bytes → UInt32 → UInt32 → Nat → Result Nat × Nat × Bytes
  | [], _, _, bu => (.err .eof, bu, [])
  | eb :: rest, multiplier, value, bu =>
    let value := value ||| shiftLeft (eb &&& 127).toUInt32 multiplier
    if value > 268435455 then (fail .malformedVariableByteInteger, bu, rest)
    else if eb &&& 128 = 0 then (.ok value.toNat, bu, rest)
    else readLengthLoop rest (multiplier + 7) value (bu + 1)

def readLength (b : Bytes) : Result Nat × Nat × Bytes := readLengthLoop b 0 0 1

def counted (r : Result Nat × Nat × Bytes) : Result (Nat × Nat) := r.1 >>= fun n => .ok (n, r.2.1)

/-- `DecodeLength` for a caller that returns on an error: the value and the number of bytes it occupied. -/
def decodeLength (b : Bytes) : Result (Nat × Nat) := counted (readLength b)

/-! ### The readers stay inside the buffer -/

section
variable {buf : Bytes} {offset next : Nat} {b : Bytes}

theorem bigEndianUint16_eq (h : b.length = 2) : ∃ v, bigEndianUint16 b = .ok v := by
  rw [bigEndianUint16, byteAt, byteAt, index_eq_ok (by omega), index_eq_ok (by omega)]
  exact ⟨_, rfl⟩

theorem bigEndianUint32_eq (h : b.length = 4) : ∃ v, bigEndianUint32 b = .ok v := by
  rw [bigEndianUint32, byteAt, byteAt, byteAt, byteAt, index_eq_ok (by omega),
    index_eq_ok (by omega), index_eq_ok (by omega), index_eq_ok (by omega)]
  exact ⟨_, rfl⟩

theorem decodeUint16_eq (h : offset + 2 ≤ buf.length) : ∃ v, decodeUint16 buf offset = .ok (v, offset + 2) := by
  obtain ⟨v, hv⟩ := bigEndianUint16_eq (b := (buf.drop offset).take (offset + 2 - offset))
    (by simp only [List.length_take, List.length_drop]; omega)
  refine ⟨v, ?_⟩
  rw [decodeUint16, if_neg (by omega), slice_eq_ok (by omega) h, Outcome.ok_bind, hv]
  rfl

theorem decodeUint32_eq (h : offset + 4 ≤ buf.length) : ∃ v, decodeUint32 buf offset = .ok (v, offset + 4) := by
  obtain ⟨v, hv⟩ := bigEndianUint32_eq (b := (buf.drop offset).take (offset + 4 - offset))
    (by simp only [List.length_take, List.length_drop]; omega)
  refine ⟨v, ?_⟩
  rw [decodeUint32, if_neg (by omega), slice_eq_ok (by omega) h, Outcome.ok_bind, hv]
  rfl

section Width
variable {β : Type} {r : Reader Error UInt8 β} {w : Nat}
  (hok : ∀ {buf : Bytes} {off : Nat}, off + w ≤ buf.length → ∃ v, r buf off = .ok (v, off + w))
  (herr : ∀ {buf : Bytes} {off : Nat}, buf.length < off + w → ∃ e, r buf off = .err e)
include hok herr

theorem next_of_width {v : β} (hr : r buf offset = .ok (v, next)) : next = offset + w ∧ offset + w ≤ buf.length := by
  rcases Nat.lt_or_ge buf.length (offset + w) with h | h
  · obtain ⟨e, he⟩ := herr h
    cases he.symm.trans hr
  · obtain ⟨v, hv⟩ := hok h
    cases hv.symm.trans hr
    exact ⟨rfl, h⟩

theorem safe_of_width (hw : 0 < w) : r.Safe where
  ne_panic {buf off} _ := by
    rcases Nat.lt_or_ge buf.length (off + w) with h | h
    · obtain ⟨e, he⟩ := herr h
      simp [he]
    · obtain ⟨v, hv⟩ := hok h
      simp [hv]
  lt_next hr := by
    have hnext := (next_of_width hok herr hr).1
    omega
  next_le hr := by
    obtain ⟨rfl, hle⟩ := next_of_width hok herr hr
    exact hle

end Width

theorem decodeUint16_safe : Reader.Safe decodeUint16 :=
  safe_of_width decodeUint16_eq (fun h => ⟨_, by rw [decodeUint16, if_pos h]; rfl⟩) (by omega)

theorem decodeUint32_safe : Reader.Safe decodeUint32 :=
  safe_of_width decodeUint32_eq (fun h => ⟨_, by rw [decodeUint32, if_pos h]; rfl⟩) (by omega)

theorem decodeByte_eq (h : offset < buf.length) : decodeByte buf offset = .ok (buf[offset], offset + 1) := by
  rw [decodeByte, if_neg (by omega), byteAt, index_eq_ok h]
  rfl

theorem decodeByte_safe : Reader.Safe decodeByte :=
  safe_of_width (w := 1) (fun h => ⟨_, decodeByte_eq h⟩)
    (fun h => ⟨_, by rw [decodeByte, if_pos (by omega)]; rfl⟩) (by omega)

theorem decodeByteBool_safe : Reader.Safe decodeByteBool := by
  refine safe_of_width (w := 1) (fun {buf off} h => ?_) (fun h => ?_) (by omega)
  · rw [decodeByteBool, if_neg (by omega), byteAt, index_eq_ok (by omega)]
    exact ⟨_, rfl⟩
  · exact ⟨_, by rw [decodeByteBool, if_pos (by omega)]; rfl⟩

theorem decodeBytes_eq_ok_iff :
    decodeBytes buf offset = .ok (b, next) ↔
      ∃ length : UInt16, decodeUint16 buf offset = .ok (length, offset + 2) ∧
        next = offset + 2 + length.toNat ∧ next ≤ buf.length ∧
        b = (buf.drop (offset + 2)).take length.toNat := by
  rcases Nat.lt_or_ge buf.length (offset + 2) with h | h
  · simp [decodeBytes, decodeUint16, h, fail]
  · obtain ⟨v, hv⟩ := decodeUint16_eq h
    simp only [decodeBytes, hv, Outcome.ok_bind]
    split
    · constructor
      · intro hc
        simp [fail] at hc
      · rintro ⟨l, hl, hn, hb, -⟩
        simp only [Outcome.ok.injEq, Prod.mk.injEq, and_true] at hl
        subst hl
        omega
    · rw [slice_eq_ok (by omega) (by omega)]
      simp only [Outcome.ok_bind, Outcome.pure_eq, Outcome.ok.injEq, Prod.mk.injEq, and_true,
        exists_eq_left', Nat.add_sub_cancel_left]
      constructor
      · rintro ⟨rfl, rfl⟩
        exact ⟨rfl, by omega, rfl⟩
      · rintro ⟨rfl, -, rfl⟩
        exact ⟨rfl, rfl⟩

theorem decodeBytes_safe : Reader.Safe decodeBytes where
  ne_panic hle := by
    refine Outcome.bind_ne_panic (decodeUint16_safe.ne_panic hle) ?_
    rintro ⟨length, n⟩ -
    dsimp only
    split
    · simp [fail]
    · rw [slice_eq_ok (by omega) (by omega)]
      simp
  lt_next hr := by
    obtain ⟨l, -, hn, -⟩ := decodeBytes_eq_ok_iff.mp hr
    omega
  next_le hr := by
    obtain ⟨l, -, -, hle, -⟩ := decodeBytes_eq_ok_iff.mp hr
    exact hle

theorem decodeString_eq_ok_iff :
    decodeString buf offset = .ok (b, next) ↔ decodeBytes buf offset = .ok (b, next) ∧ validUTF8 b = true := by
  simp only [decodeString, Outcome.bind_eq_ok_iff, Prod.exists]
  constructor
  · rintro ⟨b', n', hb, h⟩
    split at h
    · simp [fail] at h
    · simp only [Outcome.pure_eq, Outcome.ok.injEq, Prod.mk.injEq] at h
      obtain ⟨rfl, rfl⟩ := h
      simp_all
  · rintro ⟨hb, hv⟩
    exact ⟨b, next, hb, by simp [hv]⟩

theorem decodeString_safe : Reader.Safe decodeString where
  ne_panic hle := by
    refine Outcome.bind_ne_panic (decodeBytes_safe.ne_panic hle) ?_
    rintro ⟨b, n⟩ -
    dsimp only
    split <;> simp [fail]
  lt_next hr := decodeBytes_safe.lt_next (decodeString_eq_ok_iff.mp hr).1
  next_le hr := decodeBytes_safe.next_le (decodeString_eq_ok_iff.mp hr).1

end

/-! ### The variable byte integer -/

theorem counted_nil {m v : UInt32} {bu : Nat} : counted (readLengthLoop [] m v bu) = .err .eof := rfl

theorem counted_cons {eb : UInt8} {rest : Bytes} {m v : UInt32} {bu : Nat} :
    counted (readLengthLoop (eb :: rest) m v bu) =
      if v ||| shiftLeft (eb &&& 127).toUInt32 m > 268435455 then fail .malformedVariableByteInteger
      else if eb &&& 128 = 0 then .ok ((v ||| shiftLeft (eb &&& 127).toUInt32 m).toNat, bu)
      else counted (readLengthLoop rest (m + 7) (v ||| shiftLeft (eb &&& 127).toUInt32 m) (bu + 1)) := by
  rw [readLengthLoop]
  split
  · rfl
  · split <;> rfl

theorem counted_ne_panic (b : Bytes) (m v : UInt32) (bu : Nat) : counted (readLengthLoop b m v bu) ≠ .panic := by
  induction b generalizing m v bu with
  | nil => simp [counted_nil]
  | cons eb rest ih =>
    rw [counted_cons]
    split
    · simp [fail]
    · split
      · simp
      · exact ih _ _ _

theorem counted_bounds {b : Bytes} {m v : UInt32} {bu n bu' : Nat}
    (h : counted (readLengthLoop b m v bu) = .ok (n, bu')) : bu ≤ bu' ∧ bu' < bu + b.length := by
  induction b generalizing m v bu with
  | nil => simp [counted_nil] at h
  | cons eb rest ih =>
    rw [counted_cons] at h
    split at h
    · simp [fail] at h
    · split at h
      · simp only [Outcome.ok.injEq, Prod.mk.injEq] at h
        simp only [List.length_cons]
        omega
      · have := ih h
        simp only [List.length_cons]
        omega

theorem decodeLength_ne_panic (b : Bytes) : decodeLength b ≠ .panic :=
  counted_ne_panic b 0 0 1

theorem decodeLength_bounds {b : Bytes} {n bu : Nat} (h : decodeLength b = .ok (n, bu)) : 1 ≤ bu ∧ bu ≤ b.length := by
  have := counted_bounds h
  omega

end Mqtt
