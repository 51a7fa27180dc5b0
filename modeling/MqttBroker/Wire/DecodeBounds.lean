import MqttBroker.Wire.Decode

/-! The packet decoders other than SUBSCRIBE keep every slice and index
expression inside the body. The argument is the same for all of them: an
offset that a field returns is at most the length of the body, and every field
started at such an offset is safe. -/

namespace Mqtt
open Calls

structure Inside {α : Type} (buf : Bytes) (x : Result (α × Nat)) : Prop where
  ne_panic : x ≠ .panic
  next_le : ∀ {v next}, x = .ok (v, next) → next ≤ buf.length

namespace Inside
variable {α β : Type} {buf : Bytes} {offset : Nat}

theorem of_safe {r : Reader Error UInt8 α} (h : r.Safe) (hle : offset ≤ buf.length) :
    Inside buf (r buf offset) := ⟨h.ne_panic hle, h.next_le⟩

variable {x : Result (α × Nat)}

theorem mapErr (h : Inside buf x) (g : Error → Error) :
    Inside buf (x.mapErr g) where
  ne_panic := Outcome.mapErr_ne_panic h.ne_panic
  next_le hx := h.next_le (Outcome.mapErr_eq_ok_iff.mp hx)

theorem orElse (h : Inside buf x) (c : Code) : Inside buf (orElse x c) :=
  h.mapErr _

theorem orWrap (h : Inside buf x) (c : Code) : Inside buf (orWrap x c) :=
  h.mapErr _

theorem optional (h : Inside buf x) (c : Bool) (keep : α)
    (hle : offset ≤ buf.length) : Inside buf (optional c x keep offset) := by
  cases c with
  | true => exact h
  | false => exact ⟨by simp [Mqtt.optional], fun hx => by simp [Mqtt.optional] at hx; omega⟩

theorem bind {f : α × Nat → Result (β × Nat)} (h : Inside buf x)
    (hf : ∀ p : α × Nat, p.2 ≤ buf.length → Inside buf (f p)) : Inside buf (x >>= f) where
  ne_panic := Outcome.bind_ne_panic h.ne_panic fun p hp => (hf p (h.next_le hp)).ne_panic
  next_le hx := by
    obtain ⟨p, hp, hfp⟩ := Outcome.bind_eq_ok_iff.mp hx
    exact (hf p (h.next_le hp)).next_le hfp

theorem bind_ne_panic {γ : Type} {f : α × Nat → Result γ} (h : Inside buf x)
    (hf : ∀ p : α × Nat, p.2 ≤ buf.length → f p ≠ .panic) : (x >>= f) ≠ .panic :=
  Outcome.bind_ne_panic h.ne_panic fun p hp => hf p (h.next_le hp)

theorem pure {v : α} (hle : offset ≤ buf.length) : Inside buf (.ok (v, offset)) :=
  ⟨by simp, fun hx => by simp at hx; omega⟩

end Inside

section Fields
variable {buf : Bytes} {offset : Nat}

theorem inside_properties {p : Properties} {pkt : PacketType} {g : Error → Error}
    (hle : offset ≤ buf.length) :
    Inside buf (do
      let b ← sliceFrom buf offset
      let (p, n) ← (p.decode pkt b).mapErr g
      return (p, offset + n)) := by
  rw [sliceFrom_eq_ok hle, Outcome.ok_bind]
  constructor
  · exact Outcome.bind_ne_panic (Outcome.mapErr_ne_panic (p.decode_ne_panic pkt _)) (by simp)
  · intro v next hx
    simp only [Outcome.bind_eq_ok_iff, Outcome.mapErr_eq_ok_iff, Prod.exists, Outcome.pure_eq,
      Outcome.ok.injEq, Prod.mk.injEq] at hx
    obtain ⟨q, n, hq, -, rfl⟩ := hx
    have := Properties.decode_le hq
    rw [List.length_drop] at this
    omega

theorem inside_decodePropertiesAt (p : Properties) (pkt : PacketType) (hle : offset ≤ buf.length) :
    Inside buf (decodePropertiesAt p pkt buf offset) := inside_properties hle

theorem inside_decodeBytes (hle : offset ≤ buf.length) : Inside buf (decodeBytes buf offset) :=
  .of_safe decodeBytes_safe hle

theorem inside_decodeString (hle : offset ≤ buf.length) : Inside buf (decodeString buf offset) :=
  .of_safe decodeString_safe hle

theorem inside_decodeByte (hle : offset ≤ buf.length) : Inside buf (decodeByte buf offset) :=
  .of_safe decodeByte_safe hle

theorem inside_decodeUint16 (hle : offset ≤ buf.length) : Inside buf (decodeUint16 buf offset) :=
  .of_safe decodeUint16_safe hle

theorem sliceFrom_ne_panic (hle : offset ≤ buf.length) : (sliceFrom buf offset : Result Bytes) ≠ .panic := by
  simp [sliceFrom_eq_ok hle]

end Fields

namespace Packet
variable (pk : Packet) (buf : Bytes)

theorem inside_decodeWill {offset : Nat} (version : UInt8) (hle : offset ≤ buf.length) :
    Inside buf (pk.decodeWill version buf offset) := by
  refine Inside.bind ((inside_properties hle).optional _ _ hle) fun p hp => ?_
  refine Inside.bind ((inside_decodeString hp).orElse _) fun q hq => ?_
  exact Inside.bind ((inside_decodeBytes hq).orElse _) fun r hr => .pure hr

theorem inside_decodeUsername {offset : Nat} (hle : offset ≤ buf.length) : Inside buf (decodeUsername buf offset) := by
  rw [decodeUsername]
  split
  · exact ⟨by simp [fail], by simp [fail]⟩
  · exact (inside_decodeBytes hle).orElse _

theorem connectDecode_ne_panic : pk.connectDecode buf ≠ .panic := by
  refine ((inside_decodeBytes (Nat.zero_le _)).orElse _).bind_ne_panic fun name hname => ?_
  refine ((inside_decodeByte hname).orElse _).bind_ne_panic fun version hversion => ?_
  refine ((inside_decodeByte hversion).orElse _).bind_ne_panic fun flags hflags => ?_
  refine ((inside_decodeUint16 hflags).orElse _).bind_ne_panic fun keepalive hkeep => ?_
  refine ((inside_decodePropertiesAt _ _ hkeep).optional _ _ hkeep).bind_ne_panic fun props hprops => ?_
  refine ((inside_decodeString hprops).orElse _).bind_ne_panic fun id hid => ?_
  refine ((inside_decodeWill pk buf _ hid).optional _ _ hid).bind_ne_panic fun will hwill => ?_
  refine ((inside_decodeUsername buf hwill).optional _ _ hwill).bind_ne_panic fun user huser => ?_
  refine (((inside_decodeBytes huser).orElse _).optional _ _ huser).bind_ne_panic fun password _ => ?_
  simp

theorem connackDecode_ne_panic : pk.connackDecode buf ≠ .panic := by
  refine ((Inside.of_safe decodeByteBool_safe (Nat.zero_le _)).orWrap _).bind_ne_panic fun present hp => ?_
  refine ((inside_decodeByte hp).orWrap _).bind_ne_panic fun reason hr => ?_
  exact ((inside_decodePropertiesAt _ _ hr).optional _ _ hr).bind_ne_panic fun _ _ => by simp

theorem disconnectDecode_ne_panic : pk.disconnectDecode buf ≠ .panic := by
  rw [disconnectDecode]
  split
  · refine ((inside_decodeByte (Nat.zero_le _)).orWrap _).bind_ne_panic fun reason hr => ?_
    exact ((inside_decodePropertiesAt _ _ hr).optional _ _ hr).bind_ne_panic fun _ _ => by simp
  · simp

theorem publishDecode_ne_panic : pk.publishDecode buf ≠ .panic := by
  refine ((inside_decodeString (Nat.zero_le _)).orWrap _).bind_ne_panic fun topic ht => ?_
  refine (((inside_decodeUint16 ht).orWrap _).optional _ _ ht).bind_ne_panic fun id hid => ?_
  refine ((inside_decodePropertiesAt _ _ hid).optional _ _ hid).bind_ne_panic fun props hprops => ?_
  exact Outcome.bind_ne_panic (sliceFrom_ne_panic hprops) fun _ _ => by simp

theorem decodePubAckRelRecComp_ne_panic : pk.decodePubAckRelRecComp buf ≠ .panic := by
  refine ((inside_decodeUint16 (Nat.zero_le _)).orWrap _).bind_ne_panic fun id hid => ?_
  refine (((inside_decodeByte hid).orWrap _).optional _ _ hid).bind_ne_panic fun reason hr => ?_
  exact ((inside_decodePropertiesAt _ _ hr).optional _ _ hr).bind_ne_panic fun _ _ => by simp

theorem subackDecode_ne_panic : pk.subackDecode buf ≠ .panic := by
  refine ((inside_decodeUint16 (Nat.zero_le _)).orWrap _).bind_ne_panic fun id hid => ?_
  refine ((inside_decodePropertiesAt _ _ hid).optional _ _ hid).bind_ne_panic fun props hprops => ?_
  exact Outcome.bind_ne_panic (sliceFrom_ne_panic hprops) fun _ _ => by simp

theorem unsubackDecode_ne_panic : pk.unsubackDecode buf ≠ .panic := by
  refine ((inside_decodeUint16 (Nat.zero_le _)).orWrap _).bind_ne_panic fun ⟨id, offset⟩ hid => ?_
  dsimp only
  split
  · refine (inside_decodePropertiesAt _ _ hid).bind_ne_panic fun props hprops => ?_
    exact Outcome.bind_ne_panic (sliceFrom_ne_panic hprops) fun _ _ => by simp
  · simp

theorem unsubscribeLoop_ne_panic (filters : List Subscription) {offset : Nat}
    (hle : offset ≤ buf.length) : unsubscribeLoop buf filters offset ≠ .panic := by
  fun_induction unsubscribeLoop buf filters offset with
  | case1 filters offset hlt filter next hr ih =>
    exact ih (((inside_decodeString hle).orWrap _).next_le hr)
  | case2 => simp
  | case3 filters offset hlt hr => exact absurd hr ((inside_decodeString hle).orWrap _).ne_panic
  | case4 => simp

theorem unsubscribeDecode_ne_panic : pk.unsubscribeDecode buf ≠ .panic := by
  refine ((inside_decodeUint16 (Nat.zero_le _)).orWrap _).bind_ne_panic fun id hid => ?_
  refine ((inside_decodePropertiesAt _ _ hid).optional _ _ hid).bind_ne_panic fun props hprops => ?_
  exact Outcome.bind_ne_panic (unsubscribeLoop_ne_panic buf _ hprops) fun _ _ => by simp

theorem authDecode_ne_panic : pk.authDecode buf ≠ .panic := by
  refine ((inside_decodeByte (Nat.zero_le _)).orWrap _).bind_ne_panic fun reason hr => ?_
  exact (inside_decodePropertiesAt _ _ hr).bind_ne_panic fun _ _ => by simp

end Packet

theorem readPacket_ne_panic_of_ne_subscribe (version : UInt8) (fh : FixedHeader) (buf : Bytes)
    (h : fh.type ≠ .subscribe) : readPacket version fh buf ≠ .panic := by
  unfold readPacket
  generalize htype : fh.type = type
  cases type with
  | subscribe => exact absurd htype h
  | connect => exact Packet.connectDecode_ne_panic _ _
  | disconnect => exact Packet.disconnectDecode_ne_panic _ _
  | connack => exact Packet.connackDecode_ne_panic _ _
  | publish => exact Packet.publishDecode_ne_panic _ _
  | puback | pubrec | pubrel | pubcomp => exact Packet.decodePubAckRelRecComp_ne_panic _ _
  | suback => exact Packet.subackDecode_ne_panic _ _
  | unsubscribe => exact Packet.unsubscribeDecode_ne_panic _ _
  | unsuback => exact Packet.unsubackDecode_ne_panic _ _
  | auth => exact Packet.authDecode_ne_panic _ _
  | pingreq | pingresp | reserved | willProperties => nofun

end Mqtt
