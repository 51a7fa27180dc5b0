import MqttBroker.Wire.Acks
import Mathlib.Data.Nat.Log
import Mathlib.Algebra.BigOperators.Group.List.Basic

/-! The size of a packet with a reason string and user properties. `Properties.Encode`
leaves out a text that does not fit the maximum of the client, but each text is held
against the maximum alone, next to an estimate of the rest of the body that leaves out the
fixed header, the length of the block, the other properties and the other text. -/

namespace Mqtt
open Calls

def lengthSize (n : Nat) : Nat := Nat.log 128 n + 1

theorem length_encodeLength (n : Nat) : (encodeLength n).length = lengthSize n := by
  unfold lengthSize
  induction n using Nat.strong_induction_on with
  | h n ih =>
    rw [encodeLength]
    split
    · rename_i hmore
      have hle : 128 ≤ n := by omega
      rw [List.length_cons, ih (n / 128) (by omega), Nat.log_of_one_lt_of_le (by decide) hle]
    · rw [Nat.log_of_lt (by omega)]
      rfl

theorem length_encodeBytes (b : Bytes) : (encodeBytes b).length = 2 + b.length := by
  rw [encodeBytes, List.length_append]
  rfl

theorem length_encodeString (s : Bytes) : (encodeString s).length = 2 + s.length := length_encodeBytes s

namespace Property
variable (p : Properties)

def size : Property → Nat
  | payloadFormat | requestProblemInfo | requestResponseInfo | maximumQos | retainAvailable | wildcardSubAvailable
  | subIDAvailable | sharedSubAvailable => 2
  | serverKeepAlive | receiveMaximum | topicAliasMaximum | topicAlias => 3
  | messageExpiryInterval | sessionExpiryInterval | willDelayInterval | maximumPacketSize => 5
  | contentType => 3 + p.contentType.length
  | responseTopic => 3 + p.responseTopic.length
  | correlationData => 3 + p.correlationData.length
  | assignedClientID => 3 + p.assignedClientID.length
  | authenticationMethod => 3 + p.authenticationMethod.length
  | authenticationData => 3 + p.authenticationData.length
  | responseInfo => 3 + p.responseInfo.length
  | serverReference => 3 + p.serverReference.length
  | reasonString => 3 + p.reasonString.length
  | subscriptionIdentifier => ((p.subscriptionIdentifier.filter (0 < ·)).map fun v => 1 + lengthSize v.toNat).sum
  | user => (p.user.map fun u => 5 + u.key.length + u.val.length).sum

theorem written_length (q : Property) : (written p q).length = size p q := by
  unfold written
  rw [List.length_flatMap]
  cases q with
  | subscriptionIdentifier =>
    rw [values, size, List.map_map]
    refine congrArg List.sum (List.map_congr_left fun v _ => ?_)
    rw [Function.comp_apply, List.length_cons, length_encodeLength, Nat.add_comm]
  | user =>
    rw [values, size, List.map_map]
    refine congrArg List.sum (List.map_congr_left fun u _ => ?_)
    rw [Function.comp_apply, List.length_cons, List.length_append, length_encodeString, length_encodeString]
    omega
  | contentType | responseTopic | correlationData | assignedClientID | authenticationMethod | authenticationData
  | responseInfo | serverReference | reasonString =>
    rw [values, size, List.map_singleton, List.sum_singleton, List.length_cons]
    first | rw [length_encodeString] | rw [length_encodeBytes]
    omega
  | _ => rfl

end Property

namespace Packet

def infoTypes : List PacketType := [.connack, .puback, .pubrec, .pubrel, .pubcomp, .suback, .unsuback, .disconnect]

def withoutInfo (pk : Packet) : Packet :=
  { pk with properties := { pk.properties with reasonString := [], user := [] } }

/-- The size of the rest of the body, as the encoder of the type hands it to `Properties.Encode`. -/
def estimate (pk : Packet) : Nat :=
  match pk.fixedHeader.type with
  | .connack => 4
  | .suback => 2 + pk.reasonCodes.length
  | .disconnect => 1
  | _ => 2

/-- The test of a text against the maximum, which counts in 32 bits. -/
def Admits (pk : Packet) (k : Nat) : Prop :=
  pk.mods.disallowProblemInfo = false ∧ (pk.mods.maxSize = 0 ∨ (pk.estimate + k) % 2 ^ 32 < pk.mods.maxSize.toNat)

instance (pk : Packet) (k : Nat) : Decidable (pk.Admits k) := inferInstanceAs (Decidable (_ ∧ _))

def reasonSize (pk : Packet) : Nat :=
  let size := Property.size pk.properties .reasonString
  if pk.properties.reasonString ≠ [] ∧ pk.Admits size then size else 0

-- this test counts a byte more than there is
def userSize (pk : Packet) : Nat :=
  let size := Property.size pk.properties .user
  if pk.Admits (size + 1) then size else 0

def otherProperties : List Property := Property.all.filter fun q => q ≠ .reasonString ∧ q ≠ .user

def otherSize (pk : Packet) : Nat :=
  ((otherProperties.filter (Property.emits pk.properties pk.mods pk.fixedHeader.type 0)).map
    (Property.size pk.properties)).sum

def bodySize (pk : Packet) (k : Nat) : Nat :=
  match pk.fixedHeader.type with
  | .connack => 2 + (lengthSize k + k)
  | .suback | .unsuback => 2 + (lengthSize k + k) + pk.reasonCodes.length
  | .disconnect => 1 + (lengthSize k + k)
  -- an acknowledgement leaves out a block without properties, and with it a reason code that is no error
  | _ => 2 + (if 0x80 ≤ pk.reasonCode ∨ 0 < k then 1 else 0) + if 0 < k then lengthSize k + k else 0

/-- The size of the packet with `k` bytes of problem information. -/
def sizeWith (pk : Packet) (k : Nat) : Nat :=
  1 + (lengthSize (pk.bodySize (pk.otherSize + k)) + pk.bodySize (pk.otherSize + k))

/-- If the packet without problem information is within the maximum of the client, then so is the packet that is
encoded, and `WritePacket` does not refuse it. -/
def Deliverable (pk : Packet) : Prop :=
  ∀ bare bytes, pk.withoutInfo.encode = .ok bare → pk.encode = .ok bytes → bare.length ≤ pk.mods.maxSize.toNat →
    bytes.length ≤ pk.mods.maxSize.toNat ∧ ¬ pk.mods.maxSize < UInt32.ofNat bytes.length

variable {pk : Packet}

theorem fits_iff {n k : Nat} {mods : Mods} :
    Property.fits mods n k = true ↔ mods.maxSize = 0 ∨ (n + (k + 1)) % 2 ^ 32 < mods.maxSize.toNat := by
  unfold Property.fits
  rw [Bool.or_eq_true, beq_iff_eq, decide_eq_true_iff, UInt32.lt_iff_toNat_lt, UInt32.toNat_ofNat', Nat.add_assoc]

theorem canEncode_info (htype : pk.fixedHeader.type ∈ infoTypes) {q : Property} (hq : q = .reasonString ∨ q = .user) :
    q.canEncode pk.fixedHeader.type = true := by
  revert htype
  generalize pk.fixedHeader.type = pkt
  rcases hq with rfl | rfl <;> revert pkt <;> decide

theorem emits_reasonString (htype : pk.fixedHeader.type ∈ infoTypes) :
    Property.emits pk.properties pk.mods pk.fixedHeader.type pk.estimate .reasonString = true ↔
      pk.properties.reasonString ≠ [] ∧ pk.Admits (Property.size pk.properties .reasonString) := by
  have hlen : (encodeString pk.properties.reasonString).length + 1 = Property.size pk.properties .reasonString := by
    rw [length_encodeString, Property.size]
    omega
  rw [Property.emits, canEncode_info htype (.inl rfl), Bool.true_and, Property.isSet, Bool.and_eq_true,
    Bool.and_eq_true, fits_iff, hlen, Bool.not_eq_true', decide_eq_true_iff]
  exact ⟨fun h => ⟨h.1.2, h.1.1, h.2⟩, fun h => ⟨⟨h.2.1, h.1⟩, h.2.2⟩⟩

theorem emits_user (htype : pk.fixedHeader.type ∈ infoTypes) :
    Property.emits pk.properties pk.mods pk.fixedHeader.type pk.estimate .user = true ↔
      pk.Admits (Property.size pk.properties .user + 1) := by
  rw [Property.emits, canEncode_info htype (.inr rfl), Bool.true_and, Property.isSet, Bool.and_eq_true, fits_iff,
    Property.written_length, Bool.not_eq_true']
  exact Iff.rfl

theorem emits_other {p : Properties} {mods : Mods} {pkt : PacketType} (n : Nat) {q : Property}
    (hq : q ∈ otherProperties) : Property.emits p mods pkt n q = Property.emits p mods pkt 0 q := by
  cases q with
  | reasonString | user => exact absurd hq (by decide)
  | _ => rfl

theorem block_length (htype : pk.fixedHeader.type ∈ infoTypes) :
    (pk.properties.block pk.fixedHeader.type pk.mods pk.estimate).length =
      pk.otherSize + (pk.reasonSize + pk.userSize) := by
  have hperm : Property.all.Perm (.reasonString :: .user :: otherProperties) := by decide
  have hsizes : (Property.written pk.properties · |>.length) = Property.size pk.properties :=
    funext (Property.written_length pk.properties)
  have hothers : otherProperties.filter (Property.emits pk.properties pk.mods pk.fixedHeader.type pk.estimate) =
      otherProperties.filter (Property.emits pk.properties pk.mods pk.fixedHeader.type 0) :=
    List.filter_congr fun q hq => emits_other _ hq
  rw [Properties.block_eq_filter, List.length_flatMap, hsizes,
    ((hperm.filter (Property.emits pk.properties pk.mods pk.fixedHeader.type pk.estimate)).map _).sum_eq,
    List.filter_cons, List.filter_cons, hothers]
  unfold otherSize reasonSize userSize
  simp only [emits_reasonString htype, emits_user htype]
  split <;> split <;> simp [Nat.add_comm, Nat.add_left_comm]

theorem frame_length (pk : Packet) (body : Bytes) :
    (pk.frame body).length = 1 + (lengthSize body.length + body.length) := by
  show (pk.fixedHeader.firstByte :: (encodeLength body.length ++ body)).length = _
  rw [List.length_cons, List.length_append, length_encodeLength, Nat.add_comm]

theorem encode_length (p : Properties) (pkt : PacketType) (mods : Mods) (n : Nat) : (p.encode pkt mods n).length =
    lengthSize (p.block pkt mods n).length + (p.block pkt mods n).length := by
  rw [Properties.encode_eq, List.length_append, length_encodeLength]

theorem ackBody_length (hversion : pk.protocolVersion = 5) {k : Nat}
    (hk : (pk.properties.block pk.fixedHeader.type pk.mods 2).length = k) : pk.ackBody.length =
      2 + (if 0x80 ≤ pk.reasonCode ∨ 0 < k then 1 else 0) + if 0 < k then lengthSize k + k else 0 := by
  have hblock : (pk.encodeProperties 2).length = lengthSize k + k := by
    rw [encodeProperties, if_pos hversion, encode_length, hk]
  have hlong : 1 < (pk.encodeProperties 2).length ↔ 0 < k := by
    rw [hblock]
    constructor
    · intro h
      by_contra hzero
      obtain rfl : k = 0 := by omega
      exact absurd h (by decide)
    · intro h
      have hpos : 1 ≤ lengthSize k := Nat.le_add_left 1 _
      omega
  have hreason : (pk.protocolVersion = 5 ∧ (Code.unspecifiedError.code ≤ pk.reasonCode ∨
      1 < (pk.encodeProperties 2).length)) ↔ (0x80 ≤ pk.reasonCode ∨ 0 < k) := by
    rw [hlong]
    exact ⟨fun h => h.2, fun h => ⟨hversion, h⟩⟩
  unfold ackBody
  rw [List.length_append, List.length_append, apply_ite List.length, apply_ite List.length]
  rw [if_congr hreason rfl rfl, if_congr hlong rfl rfl, hblock]
  rfl

theorem encoded_length (pk : Packet) (htype : pk.fixedHeader.type ∈ infoTypes) (hversion : pk.protocolVersion = 5) :
    ∃ bytes, pk.encode = .ok bytes ∧ bytes.length = pk.sizeWith (pk.reasonSize + pk.userSize) := by
  have hframe : ∀ body : Bytes, body.length = pk.bodySize
      (pk.properties.block pk.fixedHeader.type pk.mods pk.estimate).length →
      (pk.frame body).length = pk.sizeWith (pk.reasonSize + pk.userSize) := by
    intro body hbody
    rw [frame_length, hbody, block_length htype]
    rfl
  unfold encode
  cases hcase : pk.fixedHeader.type with
  | connack =>
    refine ⟨_, rfl, hframe _ ?_⟩
    rw [bodySize, hcase, estimate, hcase, connackBody, List.length_append, encodeProperties, if_pos hversion, hcase,
      encode_length]
    rfl
  | suback =>
    refine ⟨_, rfl, hframe _ ?_⟩
    rw [bodySize, hcase, estimate, hcase, subackBody, List.length_append, List.length_append, encodeProperties,
      if_pos hversion, hcase, encode_length]
    rfl
  | unsuback =>
    refine ⟨_, rfl, hframe _ ?_⟩
    rw [bodySize, hcase, estimate, hcase, unsubackBody, List.length_append, List.length_append, encodeProperties,
      if_pos hversion, if_pos hversion, hcase, encode_length]
    rfl
  | disconnect =>
    refine ⟨_, rfl, hframe _ ?_⟩
    rw [bodySize, hcase, estimate, hcase, disconnectBody, if_pos hversion, List.length_append, hcase, encode_length]
    rfl
  | puback | pubrec | pubrel | pubcomp =>
    refine ⟨_, rfl, hframe pk.ackBody ?_⟩
    rw [bodySize, hcase, estimate, hcase, ackBody_length hversion rfl, hcase]
  | _ =>
    rw [hcase] at htype
    exact absurd htype (by decide)

theorem sizeWith_withoutInfo (pk : Packet) :
    pk.withoutInfo.sizeWith (pk.withoutInfo.reasonSize + pk.withoutInfo.userSize) = pk.sizeWith 0 := by
  have hreason : pk.withoutInfo.reasonSize = 0 := by
    unfold reasonSize
    exact if_neg fun h => h.1 rfl
  have huser : pk.withoutInfo.userSize = 0 := ite_self _
  have hother : pk.withoutInfo.otherSize = pk.otherSize := by
    have hemits : ∀ q ∈ otherProperties,
        Property.emits pk.withoutInfo.properties pk.mods pk.fixedHeader.type 0 q =
          Property.emits pk.properties pk.mods pk.fixedHeader.type 0 q := by
      intro q hq
      cases q with
      | reasonString | user => exact absurd hq (by decide)
      | _ => rfl
    have hsize : ∀ q ∈ otherProperties, Property.size pk.withoutInfo.properties q = Property.size pk.properties q := by
      intro q hq
      cases q with
      | reasonString | user => exact absurd hq (by decide)
      | _ => rfl
    unfold otherSize
    rw [show pk.withoutInfo.mods = pk.mods from rfl, show pk.withoutInfo.fixedHeader = pk.fixedHeader from rfl,
      List.filter_congr hemits]
    exact congrArg List.sum (List.map_congr_left fun q hq => hsize q (List.mem_of_mem_filter hq))
  rw [hreason, huser]
  unfold sizeWith
  rw [hother]
  rfl

/-- Problem information leaves the packet deliverable exactly if the packet is too large without it, or the texts that
pass their tests leave it within the maximum. -/
theorem deliverable_iff {pk : Packet} (htype : pk.fixedHeader.type ∈ infoTypes) (hversion : pk.protocolVersion = 5) :
    Deliverable pk ↔
      pk.mods.maxSize.toNat < pk.sizeWith 0 ∨ pk.sizeWith (pk.reasonSize + pk.userSize) ≤ pk.mods.maxSize.toNat := by
  obtain ⟨bytes, hbytes, hlen⟩ := encoded_length pk htype hversion
  obtain ⟨bare, hbare, hbarelen⟩ := encoded_length pk.withoutInfo htype hversion
  rw [sizeWith_withoutInfo] at hbarelen
  constructor
  · intro h
    by_contra hnot
    rw [not_or] at hnot
    have hwithin := (h bare bytes hbare hbytes (by omega)).1
    omega
  · intro h bare' bytes' hbare' hbytes' hfits
    cases hbare.symm.trans hbare'
    cases hbytes.symm.trans hbytes'
    have hwithin : bytes.length ≤ pk.mods.maxSize.toNat := by omega
    refine ⟨hwithin, fun hlt => ?_⟩
    have hlt : pk.mods.maxSize.toNat < (UInt32.ofNat bytes.length).toNat := UInt32.lt_iff_toNat_lt.mp hlt
    have hmod : (UInt32.ofNat bytes.length).toNat ≤ bytes.length := by
      rw [UInt32.toNat_ofNat']
      exact Nat.mod_le _ _
    omega

def refusal (maxSize : UInt32) : Packet :=
  { fixedHeader := { type := .puback }
    protocolVersion := 5
    mods := { maxSize, allowResponseInfo := true }
    packetID := 7
    reasonCode := Code.notAuthorized.code
    properties := { reasonString := [110, 111, 116, 32, 97, 117, 116, 104, 111, 114, 105, 122, 101, 100] } }

/-- The reason string just fits. -/
theorem refusal_deliverable : (refusal 23).reasonSize = 17 ∧ Deliverable (refusal 23) :=
  ⟨by decide, (deliverable_iff (by decide) rfl).mpr (.inr (by decide +kernel))⟩

/-- With room for 20 bytes the PUBACK has 5 without the reason string and 23 with it. -/
theorem refusal_undeliverable : ¬ ∀ pk : Packet, pk.fixedHeader.type ∈ infoTypes → pk.protocolVersion = 5 →
    0 < pk.mods.maxSize → Deliverable pk := by
  intro h
  have hdeliverable := h (refusal 20) (by decide) rfl (by decide)
  obtain ⟨bytes, hbytes, hlen⟩ := encoded_length (refusal 20) (by decide) rfl
  obtain ⟨bare, hbare, hbarelen⟩ := encoded_length (refusal 20).withoutInfo (by decide) rfl
  have hsize : (refusal 20).sizeWith ((refusal 20).reasonSize + (refusal 20).userSize) = 23 := by decide +kernel
  have hbaresize : (refusal 20).sizeWith 0 = 5 := by decide +kernel
  rw [sizeWith_withoutInfo, hbaresize] at hbarelen
  have hmax : (refusal 20).mods.maxSize.toNat = 20 := rfl
  have hwithin := (hdeliverable bare bytes hbare hbytes (by omega)).1
  omega

end Packet
end Mqtt
