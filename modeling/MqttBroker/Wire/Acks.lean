import MqttBroker.Wire.RoundTrip

/-! The packets whose reason code may be left out. An acknowledgement without a reason
code has the code zero; the encoder leaves the code out more often than that. DISCONNECT
and AUTH have the same abbreviations, but not the same decoders. -/

namespace Mqtt
open Calls

namespace Packet

def ackTypes : List PacketType := [.puback, .pubrec, .pubrel, .pubcomp]

/-! ### The body of an acknowledgement -/

section Bodies
variable {pk : Packet} {id : UInt16}

theorem decodeAck_id (hremaining : pk.fixedHeader.remaining = 2) :
    pk.decodePubAckRelRecComp (encodeUint16 id) = .ok { pk with packetID := id } := by
  unfold decodePubAckRelRecComp
  have hwhole : encodeUint16 id <+: (encodeUint16 id).drop 0 := List.prefix_rfl
  refine (Outcome.bind_of_ok (orWrap_of_ok ((reads_uint16 id).eq_ok hwhole))).trans ?_
  have hreason : (pk.protocolVersion == 5 && decide (pk.fixedHeader.remaining > 2)) = false := by
    rw [hremaining]
    exact Bool.and_false _
  have hblock : (pk.protocolVersion == 5 && decide (pk.fixedHeader.remaining > 3)) = false := by
    rw [hremaining]
    exact Bool.and_false _
  dsimp only
  rw [hreason, hblock]
  rfl

theorem decodeAck_reason (block : Bytes) {q : Properties} {r : UInt8} (next : Nat) (hversion : pk.protocolVersion = 5)
    (hremaining : pk.fixedHeader.remaining = (encodeUint16 id ++ ([r] ++ block)).length)
    (hblock : optional (0 < block.length)
      (decodePropertiesAt pk.properties pk.fixedHeader.type (encodeUint16 id ++ ([r] ++ block)) 3) pk.properties 3 =
        .ok (q, next)) :
    pk.decodePubAckRelRecComp (encodeUint16 id ++ ([r] ++ block)) =
      .ok { pk with packetID := id, reasonCode := r, properties := q } := by
  have hsize : pk.fixedHeader.remaining = 3 + block.length := by
    rw [hremaining, List.length_append, List.length_append]
    show 2 + (1 + block.length) = _
    omega
  have hbody : encodeUint16 id ++ ([r] ++ block) <+: (encodeUint16 id ++ ([r] ++ block)).drop 0 := List.prefix_rfl
  obtain ⟨hid, hrest⟩ := append_prefix_drop.mp hbody
  obtain ⟨hbyte, -⟩ := append_prefix_drop.mp hrest
  have hcode : orWrap (decodeByte (encodeUint16 id ++ ([r] ++ block)) 2) .malformedReasonCode = .ok (r, 3) :=
    orWrap_of_ok ((reads_byte r).eq_ok hbyte)
  have hfive : (pk.protocolVersion == 5) = true := beq_iff_eq.mpr hversion
  have hreason : (pk.protocolVersion == 5 && decide (pk.fixedHeader.remaining > 2)) = true := by
    rw [hfive, Bool.true_and]
    exact decide_eq_true (by omega)
  have hmore : (pk.protocolVersion == 5 && decide (pk.fixedHeader.remaining > 3)) = decide (0 < block.length) := by
    rw [hfive, Bool.true_and]
    exact decide_eq_decide.mpr (by omega)
  unfold decodePubAckRelRecComp
  refine (Outcome.bind_of_ok (orWrap_of_ok ((reads_uint16 id).eq_ok hid))).trans ?_
  dsimp only
  rw [hreason, hmore]
  refine (Outcome.bind_of_ok hcode).trans ?_
  exact Outcome.bind_of_ok hblock

end Bodies

/-! ### Abbreviated packets -/

theorem emptyBlock_at {p : Properties} {t : PacketType} {buf : Bytes} {off : Nat} (hlen : off ≤ buf.length)
    (h : buf.drop off = [0]) : decodePropertiesAt p t buf off = .ok (p, off + 1) := by
  unfold decodePropertiesAt
  rw [sliceFrom_eq_ok hlen, Outcome.ok_bind, h]
  rfl

def reasonTypes : List PacketType := [.puback, .pubrec, .pubrel, .pubcomp, .disconnect, .auth]

def beforeReason (t : PacketType) (id : UInt16) : Bytes :=
  if t = .disconnect ∨ t = .auth then [] else encodeUint16 id

def readBody (fh : FixedHeader) (body : Bytes) : Result Packet := readPacket 5 { fh with remaining := body.length } body

/-- Both bodies decode, and to packets that differ in `Remaining` at most. -/
def SameMeaning (x y : Result Packet) : Prop :=
  ∃ pk n, x = .ok pk ∧ y = .ok { pk with fixedHeader := { pk.fixedHeader with remaining := n } }

/-- The two abbreviations: no property length behind the reason code, which AUTH does not have, and no reason code. -/
structure Abbreviates (fh : FixedHeader) (id : UInt16) (r : UInt8) : Prop where
  withoutBlock : fh.type ≠ .auth →
    SameMeaning (readBody fh (beforeReason fh.type id ++ [r])) (readBody fh (beforeReason fh.type id ++ [r, 0]))
  withoutReason :
    SameMeaning (readBody fh (beforeReason fh.type id)) (readBody fh (beforeReason fh.type id ++ [0, 0]))

variable {fh : FixedHeader} {id : UInt16} {r : UInt8}

/-- The packet that `ReadPacket` hands to the decoder. -/
def fresh (fh : FixedHeader) (n : Nat) : Packet := { protocolVersion := 5, fixedHeader := { fh with remaining := n } }

theorem readBody_ack (h : fh.type ∈ ackTypes) (body : Bytes) :
    readBody fh body = (fresh fh body.length).decodePubAckRelRecComp body := by
  obtain ⟨remaining, type, qos, dup, retain⟩ := fh
  have hack : type ∈ ackTypes := h
  cases type with
  | puback | pubrec | pubrel | pubcomp => rfl
  | _ => exact absurd hack (by decide)

theorem beforeReason_ack (h : fh.type ∈ ackTypes) : beforeReason fh.type id = encodeUint16 id := by
  unfold beforeReason
  refine if_neg ?_
  rintro (htype | htype) <;> rw [htype] at h <;> exact absurd h (by decide)

theorem abbreviates_ack (h : fh.type ∈ ackTypes) : Abbreviates fh id r := by
  have hshort : ∀ r, readBody fh (encodeUint16 id ++ [r]) =
      .ok { fresh fh 3 with packetID := id, reasonCode := r } := by
    intro r
    rw [readBody_ack h]
    exact decodeAck_reason [] 3 rfl rfl rfl
  have hfull : ∀ r, readBody fh (encodeUint16 id ++ [r, 0]) =
      .ok { fresh fh 4 with packetID := id, reasonCode := r } := by
    intro r
    rw [readBody_ack h]
    exact decodeAck_reason [0] 4 rfl rfl (emptyBlock_at (Nat.le_succ 3) rfl)
  have hbare : readBody fh (encodeUint16 id) = .ok { fresh fh 2 with packetID := id } := by
    rw [readBody_ack h]
    exact decodeAck_id rfl
  constructor
  · intro _
    rw [beforeReason_ack h, hshort, hfull]
    exact ⟨_, 4, rfl, rfl⟩
  · rw [beforeReason_ack h, hbare, hfull]
    exact ⟨_, 4, rfl, rfl⟩

theorem abbreviates_disconnect (h : fh.type = .disconnect) : Abbreviates fh id r ↔ r = 0 := by
  have hbody : ∀ body, readBody fh body = (fresh fh body.length).disconnectDecode body := by
    intro body
    obtain ⟨remaining, type, qos, dup, retain⟩ := fh
    cases h
    rfl
  have hbefore : beforeReason fh.type id = [] := if_pos (.inl h)
  have hempty : readBody fh [] = .ok (fresh fh 0) := by rw [hbody]; rfl
  have hshort : readBody fh [r] = .ok (fresh fh 1) := by rw [hbody]; rfl
  have hfull : ∀ r, readBody fh [r, 0] = .ok { fresh fh 2 with reasonCode := r } := by
    intro r
    rw [hbody]
    rfl
  constructor
  · intro habbr
    have hsame := habbr.withoutBlock (by rw [h]; decide)
    rw [hbefore, List.nil_append, List.nil_append, hshort, hfull] at hsame
    obtain ⟨pk, n, hpk, hpk'⟩ := hsame
    cases hpk
    have hcode := congrArg Packet.reasonCode (Outcome.ok.inj hpk')
    exact hcode
  · rintro rfl
    constructor
    · intro _
      rw [hbefore, List.nil_append, List.nil_append, hshort, hfull]
      exact ⟨_, 2, rfl, rfl⟩
    · rw [hbefore, List.nil_append, hempty, hfull]
      exact ⟨_, 2, rfl, rfl⟩

theorem not_abbreviates_auth (h : fh.type = .auth) : ¬ Abbreviates fh id r := by
  rintro ⟨-, pk, n, hpk, -⟩
  have hbefore : beforeReason fh.type id = [] := if_pos (.inr h)
  have hbody : readBody fh [] = (fresh fh 0).authDecode [] := by
    obtain ⟨remaining, type, qos, dup, retain⟩ := fh
    cases h
    rfl
  rw [hbefore, hbody] at hpk
  cases hpk

/-- Abbreviated packets mean what the full ones do, except AUTH without a reason code and DISCONNECT with a reason
code other than zero and nothing behind it. -/
theorem abbreviates_iff (h : fh.type ∈ reasonTypes) :
    Abbreviates fh id r ↔ fh.type ≠ .auth ∧ (fh.type = .disconnect → r = 0) := by
  cases htype : fh.type with
  | puback | pubrec | pubrel | pubcomp =>
    refine iff_of_true (abbreviates_ack (by rw [htype]; decide)) ⟨by decide, ?_⟩
    intro hdisconnect
    cases hdisconnect
  | disconnect =>
    rw [abbreviates_disconnect htype]
    constructor
    · rintro rfl
      exact ⟨by decide, fun _ => rfl⟩
    · intro hr
      exact hr.2 rfl
  | auth => exact iff_of_false (not_abbreviates_auth htype) fun hauth => hauth.1 rfl
  | _ =>
    rw [htype] at h
    exact absurd h (by decide)

theorem abbreviates_puback : Abbreviates { type := .puback } 7 0x10 :=
  (abbreviates_iff (by decide)).mpr ⟨by decide, by decide⟩

/-- A DISCONNECT of one byte with the will: the reason code 0x04 is lost. -/
theorem disconnect_reason_lost : ¬ ∀ (fh : FixedHeader) (id : UInt16) (r : UInt8), fh.type ∈ reasonTypes →
    Abbreviates fh id r := by
  intro h
  obtain ⟨pk, n, hpk, hpk'⟩ := (h { type := .disconnect } 0 0x04 (by decide)).withoutBlock (by decide)
  have hshort : readBody { type := .disconnect } [0x04] = .ok (fresh { type := .disconnect } 1) := rfl
  have hfull : readBody { type := .disconnect } [0x04, 0] =
      .ok { fresh { type := .disconnect } 2 with reasonCode := 0x04 } := rfl
  cases hshort.symm.trans hpk
  have hcode : (0x04 : UInt8) = 0 := congrArg Packet.reasonCode (Outcome.ok.inj (hfull.symm.trans hpk'))
  exact absurd hcode (by decide)

/-! ### What an acknowledgement carries -/

structure IsAck (pk : Packet) : Prop where
  type : pk.fixedHeader.type ∈ ackTypes
  flags : { pk.fixedHeader with remaining := 0 } =
    { type := pk.fixedHeader.type, qos := if pk.fixedHeader.type = .pubrel then 1 else 0 }
  version : pk.protocolVersion = 5
  properties : ∃ reasonString user, pk.properties = { reasonString, user }
  texts : ∀ s ∈ pk.properties.texts, IsText s
  maxSize : pk.mods.maxSize = 0
  problemInfo : pk.mods.disallowProblemInfo = false

/-- What is decoded from the encoding of an acknowledgement has its packet id, reason code and properties. -/
def AckDecodes (pk : Packet) : Prop :=
  ∃ bytes pk', pk.encodePubAckRelRecComp = .ok bytes ∧ readFrame 5 bytes = .ok pk' ∧
    pk'.packetID = pk.packetID ∧ pk'.reasonCode = pk.reasonCode ∧ pk'.properties = pk.properties

def ackBody (pk : Packet) : Bytes :=
  encodeUint16 pk.packetID ++
    (if pk.protocolVersion = 5 ∧ (Code.unspecifiedError.code ≤ pk.reasonCode ∨ 1 < (pk.encodeProperties 2).length) then
      [pk.reasonCode] else []) ++
    if 1 < (pk.encodeProperties 2).length then pk.encodeProperties 2 else []

namespace IsAck
variable {pk : Packet} (h : pk.IsAck)
include h

theorem header : FixedHeader.decode {} pk.fixedHeader.firstByte = .ok { pk.fixedHeader with remaining := 0 } := by
  have hfirst : pk.fixedHeader.firstByte = { pk.fixedHeader with remaining := 0 }.firstByte := rfl
  have hall : ∀ t ∈ ackTypes, FixedHeader.decode {} ({ type := t, qos := if t = .pubrel then 1 else 0 } :
      FixedHeader).firstByte = .ok { type := t, qos := if t = .pubrel then 1 else 0 } := by
    decide +kernel
  rw [hfirst, h.flags]
  exact hall _ h.type

theorem writable : pk.properties.Writable pk.fixedHeader.type where
  texts := h.texts
  byteFields b hb := by
    obtain ⟨reasonString, user, hp⟩ := h.properties
    rw [hp] at hb
    rw [List.mem_pair.mp hb |>.elim id id]
    exact Nat.zero_le _
  identifiers _ v hv := by
    obtain ⟨reasonString, user, hp⟩ := h.properties
    rw [hp] at hv
    cases hv

theorem emitting : Property.all.filter (Property.emits pk.properties pk.mods pk.fixedHeader.type 2) =
    (if pk.properties.reasonString = [] then [] else [.reasonString]) ++ [.user] := by
  have htype := h.type
  have hmax := h.maxSize
  have hinfo := h.problemInfo
  obtain ⟨reasonString, user, hp⟩ := h.properties
  rw [hp]
  generalize pk.fixedHeader.type = t at htype
  generalize pk.mods = mods at hmax hinfo
  obtain ⟨maxSize, disallowProblemInfo, allowResponseInfo⟩ := mods
  cases hmax
  cases hinfo
  cases t with
  | puback | pubrec | pubrel | pubcomp =>
    cases reasonString <;> rfl
  | _ => exact absurd htype (by decide)

theorem emitted_eq : pk.properties.emitted pk.fixedHeader.type pk.mods 2 = pk.properties := by
  obtain ⟨reasonString, user, hp⟩ := h.properties
  rw [Properties.emitted_eq_filter, h.emitting, hp]
  cases reasonString <;> rfl

theorem block_eq_nil_iff : pk.properties.block pk.fixedHeader.type pk.mods 2 = [] ↔
    pk.properties.reasonString = [] ∧ pk.properties.user = [] := by
  rw [Properties.block_eq_filter, h.emitting]
  obtain ⟨reasonString, user, hp⟩ := h.properties
  rw [hp]
  cases reasonString with
  | nil =>
    cases user with
    | nil => exact iff_of_true rfl ⟨rfl, rfl⟩
    | cons u us =>
      refine iff_of_false ?_ fun hnil => List.cons_ne_nil _ _ hnil.2
      exact List.cons_ne_nil _ _
  | cons b s =>
    refine iff_of_false ?_ fun hnil => List.cons_ne_nil _ _ hnil.1
    exact List.cons_ne_nil _ _

theorem one_lt_block_iff : 1 < (pk.encodeProperties 2).length ↔
    pk.properties.reasonString ≠ [] ∨ pk.properties.user ≠ [] := by
  have hblock := h.block_eq_nil_iff
  have hencode : pk.encodeProperties 2 = encodeLength (pk.properties.block pk.fixedHeader.type pk.mods 2).length ++
      pk.properties.block pk.fixedHeader.type pk.mods 2 := by
    rw [encodeProperties, if_pos h.version]
    rfl
  rw [hencode, List.length_append, ← not_and_or, ← hblock]
  by_cases hnil : pk.properties.block pk.fixedHeader.type pk.mods 2 = []
  · rw [hnil, List.length_nil, show encodeLength 0 = [0] by decide +kernel]
    exact iff_of_false (Nat.lt_irrefl 1) (fun hne => hne rfl)
  · have hlen := List.length_pos_iff.mpr hnil
    have hpos := encodeLength_length_pos (pk.properties.block pk.fixedHeader.type pk.mods 2).length
    exact iff_of_true (by omega) hnil

theorem properties_eq_empty (hprops : ¬ (pk.properties.reasonString ≠ [] ∨ pk.properties.user ≠ [])) :
    pk.properties = {} := by
  obtain ⟨reasonString, user, hp⟩ := h.properties
  rw [hp] at hprops ⊢
  obtain ⟨hreason, huser⟩ := not_or.mp hprops
  rw [show reasonString = [] from not_not.mp hreason, show user = [] from not_not.mp huser]

variable (hlen : pk.ackBody.length ≤ 268435455)
include hlen

theorem readFrame_eq : readFrame 5 (pk.frame pk.ackBody) =
    (fresh pk.fixedHeader pk.ackBody.length).decodePubAckRelRecComp pk.ackBody := by
  rw [readFrame_frame 5 h.header hlen]
  exact readBody_ack h.type pk.ackBody

theorem decoded_of_properties (hprops : pk.properties.reasonString ≠ [] ∨ pk.properties.user ≠ []) :
    readFrame 5 (pk.frame pk.ackBody) =
      .ok { fresh pk.fixedHeader pk.ackBody.length with
        packetID := pk.packetID, reasonCode := pk.reasonCode, properties := pk.properties } := by
  have hlong := h.one_lt_block_iff.mpr hprops
  have hbody : pk.ackBody = encodeUint16 pk.packetID ++ ([pk.reasonCode] ++ pk.encodeProperties 2) := by
    rw [ackBody, if_pos ⟨h.version, .inr hlong⟩, if_pos hlong, List.append_assoc]
  rw [h.readFrame_eq hlen]
  rw [hbody] at hlen ⊢
  refine decodeAck_reason _ (3 + (pk.encodeProperties 2).length) rfl rfl ?_
  have hpre : pk.properties.encode pk.fixedHeader.type pk.mods 2 <+:
      (encodeUint16 pk.packetID ++ ([pk.reasonCode] ++ pk.encodeProperties 2)).drop 3 := by
    rw [encodeProperties, if_pos h.version]
    exact List.prefix_rfl
  have hdecoded := decodePropertiesAt_eq h.writable hlen hpre
  rw [h.emitted_eq] at hdecoded
  rw [optional, if_pos (decide_eq_true (by omega)), encodeProperties, if_pos h.version]
  rw [encodeProperties, if_pos h.version] at hdecoded
  exact hdecoded

theorem decoded_of_error (hshort : ¬ 1 < (pk.encodeProperties 2).length) (herror : 0x80 ≤ pk.reasonCode) :
    readFrame 5 (pk.frame pk.ackBody) = .ok { fresh pk.fixedHeader pk.ackBody.length with
      packetID := pk.packetID, reasonCode := pk.reasonCode } := by
  have hbody : pk.ackBody = encodeUint16 pk.packetID ++ ([pk.reasonCode] ++ []) := by
    rw [ackBody, if_pos ⟨h.version, .inl herror⟩, if_neg hshort, List.append_assoc]
  rw [h.readFrame_eq hlen, hbody]
  exact decodeAck_reason [] 3 rfl rfl rfl

theorem decoded_of_success (hshort : ¬ 1 < (pk.encodeProperties 2).length) (herror : ¬ 0x80 ≤ pk.reasonCode) :
    readFrame 5 (pk.frame pk.ackBody) =
      .ok { fresh pk.fixedHeader pk.ackBody.length with packetID := pk.packetID } := by
  have hbody : pk.ackBody = encodeUint16 pk.packetID := by
    rw [ackBody, if_neg (fun hc => hc.2.elim herror hshort), if_neg hshort, List.append_nil, List.append_nil]
  rw [h.readFrame_eq hlen, hbody]
  exact decodeAck_id rfl

end IsAck

/-- An acknowledgement is decoded as it was, unless its reason code is one between 0x01 and 0x7F and it has neither a
reason string nor user properties. -/
theorem ackDecodes_iff {pk : Packet} (h : pk.IsAck) (hlen : pk.ackBody.length ≤ 268435455) :
    AckDecodes pk ↔ pk.reasonCode = 0 ∨ 0x80 ≤ pk.reasonCode ∨ pk.properties.reasonString ≠ [] ∨
      pk.properties.user ≠ [] := by
  have hencode : pk.encodePubAckRelRecComp = .ok (pk.frame pk.ackBody) := rfl
  by_cases hprops : pk.properties.reasonString ≠ [] ∨ pk.properties.user ≠ []
  · refine iff_of_true ?_ (.inr (.inr hprops))
    exact ⟨_, _, hencode, h.decoded_of_properties hlen hprops, rfl, rfl, rfl⟩
  · have hempty := h.properties_eq_empty hprops
    have hshort := mt h.one_lt_block_iff.mp hprops
    by_cases herror : 0x80 ≤ pk.reasonCode
    · refine iff_of_true ?_ (.inr (.inl herror))
      exact ⟨_, _, hencode, h.decoded_of_error hlen hshort herror, rfl, rfl, hempty.symm⟩
    · have hread := h.decoded_of_success hlen hshort herror
      constructor
      · rintro ⟨bytes, pk', hbytes, hpk', -, hcode, -⟩
        cases hencode.symm.trans hbytes
        cases hread.symm.trans hpk'
        exact .inl hcode.symm
      · rintro (hzero | hnot | hnot)
        · exact ⟨_, _, hencode, hread, rfl, hzero.symm, hempty.symm⟩
        · exact absurd hnot herror
        · exact absurd hnot hprops

def lonelyPuback : Packet :=
  { fixedHeader := { type := .puback }, protocolVersion := 5, packetID := 7, reasonCode := 0x10 }

def refusingPubrec : Packet :=
  { fixedHeader := { type := .pubrec }, protocolVersion := 5, packetID := 7, reasonCode := 0x91 }

theorem refusingPubrec_decodes : refusingPubrec.IsAck ∧ AckDecodes refusingPubrec := by
  have hack : refusingPubrec.IsAck := ⟨by decide, rfl, rfl, ⟨[], [], rfl⟩, by decide, rfl, rfl⟩
  exact ⟨hack, (ackDecodes_iff hack (by decide +kernel)).mpr (.inr (.inl (by decide)))⟩

/-- The reason code of a PUBACK without subscribers is not written. -/
theorem lonelyPuback_reason_lost : ¬ ∀ pk : Packet, pk.IsAck → AckDecodes pk := by
  intro h
  obtain ⟨bytes, pk', hbytes, hpk', -, hcode, -⟩ :=
    h lonelyPuback ⟨by decide, rfl, rfl, ⟨[], [], rfl⟩, by decide, rfl, rfl⟩
  have hencode : lonelyPuback.encodePubAckRelRecComp = .ok [0x40, 2, 0, 7] := by decide +kernel
  have hread : readFrame 5 [0x40, 2, 0, 7] =
      .ok { fixedHeader := { type := .puback, remaining := 2 }, protocolVersion := 5, packetID := 7 } := by
    decide +kernel
  cases hencode.symm.trans hbytes
  cases hread.symm.trans hpk'
  exact absurd hcode (by decide)

end Packet
end Mqtt
