import MqttBroker.Wire.Properties

/-! The bytes that the field readers accept. A reader is characterised by the
format of its field, wherever in the body the field stands. -/

namespace Mqtt
open Calls

def Uint16Field (v : UInt16) (field : Bytes) : Prop :=
  ∃ hi lo : UInt8, field = [hi, lo] ∧ v.toNat = hi.toNat * 256 + lo.toNat

def BytesField (b field : Bytes) : Prop :=
  ∃ hi lo : UInt8, field = hi :: lo :: b ∧ b.length = hi.toNat * 256 + lo.toNat

def StringField (s field : Bytes) : Prop := BytesField s field ∧ validUTF8 s = true

/-- A variable byte integer that `DecodeLength` accepts and that has no byte to spare. -/
def VarintField (n : Nat) (field : Bytes) : Prop := decodeLength field = .ok (n, field.length)

theorem toNat_bigEndian (hi lo : UInt8) : (hi.toUInt16 <<< 8 ||| lo.toUInt16).toNat = hi.toNat * 256 + lo.toNat := by
  have hhi : hi.toNat < 256 := hi.toNat_lt
  have hlo : lo.toNat < 2 ^ 8 := lo.toNat_lt
  have hshift : hi.toNat <<< 8 < 65536 := by rw [Nat.shiftLeft_eq]; omega
  have h8 : (8 : UInt16).toNat % 16 = 8 := rfl
  rw [UInt16.toNat_or, UInt16.toNat_shiftLeft, h8, UInt8.toNat_toUInt16, UInt8.toNat_toUInt16,
    Nat.mod_eq_of_lt hshift, ← Nat.shiftLeft_add_eq_or_of_lt hlo, Nat.shiftLeft_eq]

section
variable {buf : Bytes} {offset : Nat}

theorem decodeUint16_of_drop {hi lo : UInt8} {rest : Bytes} (h : buf.drop offset = hi :: lo :: rest) :
    decodeUint16 buf offset = .ok (hi.toUInt16 <<< 8 ||| lo.toUInt16, offset + 2) := by
  have hlen : offset + 2 ≤ buf.length := by
    have := congrArg List.length h
    simp only [List.length_drop, List.length_cons] at this
    omega
  rw [decodeUint16, if_neg (by omega), slice_eq_ok (by omega) hlen, Outcome.ok_bind, h,
    Nat.add_sub_cancel_left]
  rfl

end

theorem decodeByte_accepts : Reader.Accepts decodeByte fun v field => field = [v] := by
  refine ⟨fun {buf off v next} => ?_⟩
  rcases Nat.lt_or_ge off buf.length with h | h
  · rw [decodeByte_eq h, List.drop_eq_getElem_cons h]
    constructor
    · intro hv
      simp only [Outcome.ok.injEq, Prod.mk.injEq] at hv
      obtain ⟨rfl, rfl⟩ := hv
      exact ⟨_, rfl, ⟨_, rfl⟩, rfl⟩
    · rintro ⟨_, rfl, hpre, rfl⟩
      rw [List.cons_prefix_cons] at hpre
      rw [hpre.1]
      rfl
  · rw [decodeByte, if_pos h, List.drop_eq_nil_of_le h]
    constructor
    · intro hv
      simp [fail] at hv
    · rintro ⟨_, rfl, hpre, -⟩
      simp at hpre

theorem decodeUint16_accepts : Reader.Accepts decodeUint16 Uint16Field := by
  refine ⟨fun {buf off v next} => ?_⟩
  constructor
  · intro hv
    rcases Nat.lt_or_ge buf.length (off + 2) with h | h
    · simp [decodeUint16, h, fail] at hv
    · have hd : buf.drop off = buf[off] :: buf[off + 1] :: buf.drop (off + 2) := by
        rw [List.drop_eq_getElem_cons (by omega), List.drop_eq_getElem_cons (by omega)]
      rw [decodeUint16_of_drop hd] at hv
      simp only [Outcome.ok.injEq, Prod.mk.injEq] at hv
      obtain ⟨rfl, rfl⟩ := hv
      exact ⟨_, ⟨_, _, rfl, toNat_bigEndian _ _⟩, hd ▸ ⟨_, rfl⟩, rfl⟩
  · rintro ⟨_, ⟨hi, lo, rfl, hv⟩, ⟨rest, hrest⟩, rfl⟩
    rw [decodeUint16_of_drop hrest.symm, UInt16.toNat_inj.mp (hv.trans (toNat_bigEndian hi lo).symm)]
    rfl

theorem decodeBytes_accepts : Reader.Accepts decodeBytes BytesField := by
  refine ⟨fun {buf off v next} => ?_⟩
  rw [decodeBytes_eq_ok_iff]
  constructor
  · rintro ⟨length, hl, rfl, hle, rfl⟩
    obtain ⟨_, ⟨hi, lo, rfl, hn⟩, ⟨rest, hrest⟩, -⟩ := decodeUint16_accepts.eq_ok_iff.mp hl
    have hd : buf.drop (off + 2) = rest := by rw [← List.drop_drop, ← hrest]; rfl
    have hlen : ((buf.drop (off + 2)).take length.toNat).length = length.toNat := by
      rw [List.length_take, List.length_drop]
      omega
    refine ⟨_, ⟨hi, lo, rfl, hlen.trans hn⟩, ?_, by rw [List.length_cons, List.length_cons, hlen]; omega⟩
    rw [hd, ← hrest]
    exact (List.prefix_append_right_inj [hi, lo]).mpr (List.take_prefix _ _)
  · rintro ⟨_, ⟨hi, lo, rfl, hn⟩, hpre, rfl⟩
    obtain ⟨rest, hrest⟩ := hpre
    have hlt : hi.toNat * 256 + lo.toNat < 65536 := by
      have := hi.toNat_lt
      have := lo.toNat_lt
      omega
    have htotal := congrArg List.length hrest
    simp only [List.length_append, List.length_cons, List.length_drop] at htotal
    have hval : (UInt16.ofNat v.length).toNat = v.length := by
      rw [UInt16.toNat_ofNat']
      exact Nat.mod_eq_of_lt (by omega)
    refine ⟨UInt16.ofNat v.length, ?_, ?_, ?_, ?_⟩
    · exact decodeUint16_accepts.eq_ok_iff.mpr
        ⟨[hi, lo], ⟨hi, lo, rfl, hval.trans hn⟩, ⟨v ++ rest, by rw [← hrest]; rfl⟩, rfl⟩
    · rw [hval, List.length_cons, List.length_cons]
      omega
    · rw [List.length_cons, List.length_cons]
      omega
    · rw [hval, ← List.drop_drop, ← hrest]
      exact (List.take_left' rfl).symm

theorem decodeString_accepts : Reader.Accepts decodeString StringField := by
  refine ⟨fun {buf off v next} => ?_⟩
  rw [decodeString_eq_ok_iff, decodeBytes_accepts.eq_ok_iff]
  constructor
  · rintro ⟨⟨field, hF, hpre, rfl⟩, hv⟩
    exact ⟨field, ⟨hF, hv⟩, hpre, rfl⟩
  · rintro ⟨field, ⟨hF, hv⟩, hpre, rfl⟩
    exact ⟨⟨field, hF, hpre, rfl⟩, hv⟩

theorem counted_iff {b : Bytes} {m v : UInt32} {bu n bu' : Nat} :
    counted (readLengthLoop b m v bu) = .ok (n, bu') ↔
      ∃ field, counted (readLengthLoop field m v bu) = .ok (n, bu') ∧ field <+: b ∧ bu + field.length = bu' + 1 := by
  induction b generalizing m v bu with
  | nil =>
    simp only [List.prefix_nil]
    constructor
    · intro h
      simp [counted_nil] at h
    · rintro ⟨field, h, rfl, -⟩
      exact h
  | cons eb rest ih =>
    constructor
    · intro h
      rw [counted_cons] at h
      split at h
      · simp [fail] at h
      · rename_i hv
        split at h
        · rename_i heb
          refine ⟨[eb], ?_, ⟨rest, rfl⟩, ?_⟩
          · rw [counted_cons, if_neg hv, if_pos heb, h]
          · simp only [Outcome.ok.injEq, Prod.mk.injEq] at h
            rw [List.length_singleton, h.2]
        · rename_i heb
          obtain ⟨field, hf, hpre, hlen⟩ := ih.mp h
          refine ⟨eb :: field, ?_, List.cons_prefix_cons.mpr ⟨rfl, hpre⟩, ?_⟩
          · rw [counted_cons, if_neg hv, if_neg heb, hf]
          · rw [List.length_cons]
            omega
    · rintro ⟨field, hf, hpre, hlen⟩
      cases field with
      | nil => simp [counted_nil] at hf
      | cons eb' field =>
        obtain ⟨rfl, htail⟩ := List.cons_prefix_cons.mp hpre
        rw [counted_cons] at hf ⊢
        rw [List.length_cons] at hlen
        split at hf
        · simp [fail] at hf
        · rename_i hv
          rw [if_neg hv]
          split at hf
          · rename_i heb
            rw [if_pos heb, hf]
          · rename_i heb
            rw [if_neg heb]
            exact ih.mpr ⟨field, hf, htail, by omega⟩

theorem decodeLength_iff {b : Bytes} {n bu : Nat} :
    decodeLength b = .ok (n, bu) ↔ ∃ field, VarintField n field ∧ field <+: b ∧ bu = field.length := by
  constructor
  · intro h
    obtain ⟨field, hf, hpre, hlen⟩ := counted_iff.mp h
    obtain rfl : bu = field.length := by omega
    exact ⟨field, hf, hpre, rfl⟩
  · rintro ⟨field, hf, hpre, rfl⟩
    exact counted_iff.mpr ⟨field, hf, hpre, by omega⟩

theorem readSubscriptionIdentifier_accepts : Reader.Accepts Property.readSubscriptionIdentifier VarintField := by
  refine ⟨fun {buf off v next} => ?_⟩
  rcases Nat.lt_or_ge buf.length off with h | h
  · rw [List.drop_eq_nil_of_le (by omega)]
    constructor
    · intro hv
      simp [Property.readSubscriptionIdentifier, sliceFrom, slice, Nat.not_le.mpr h] at hv
    · rintro ⟨field, hF, hpre, -⟩
      rw [List.prefix_nil.mp hpre] at hF
      simp [VarintField, decodeLength, readLength, counted_nil] at hF
  · simp only [Property.readSubscriptionIdentifier, sliceFrom_eq_ok h, Outcome.ok_bind,
      Outcome.bind_eq_ok_iff, Outcome.pure_eq, Outcome.ok.injEq, Prod.mk.injEq, Prod.exists,
      decodeLength_iff]
    constructor
    · rintro ⟨_, _, ⟨field, hF, hpre, rfl⟩, rfl, rfl⟩
      exact ⟨field, hF, hpre, rfl⟩
    · rintro ⟨field, hF, hpre, rfl⟩
      exact ⟨v, field.length, ⟨field, hF, hpre, rfl⟩, rfl, rfl⟩

end Mqtt
