import MqttBroker.Wire.Properties

/-! The packet decoders, in the order of their fields on the wire. The offset is
threaded by hand through every field, and an error of a field becomes the
error the decoder returns for it. -/

namespace Mqtt
open Calls

/-- `return ErrX`, whatever the field's own error was. -/
def orElse {α : Type} (x : Result α) (c : Code) : Result α := x.mapErr fun _ => .code c

/-- `return fmt.Errorf("%s: %w", err, ErrX)`. -/
def orWrap {α : Type} (x : Result α) (c : Code) : Result α := x.mapErr fun e => .wrap e c

/-- Bit `i` of a byte, as `1&(b>>i) > 0`. -/
def bit (b i : UInt8) : Bool := (1 : UInt8) &&& (b >>> i) > 0

def optional {α : Type} (c : Bool) (r : Result (α × Nat)) (keep : α) (offset : Nat) :
    Result (α × Nat) :=
  if c then r else .ok (keep, offset)

def decodePropertiesAt (p : Properties) (pkt : PacketType) (buf : Bytes) (offset : Nat) :
    Result (Properties × Nat) := do
  let b ← sliceFrom buf offset
  let (p, n) ← orWrap (p.decode pkt b) .malformedProperties
  return (p, offset + n)

def Subscription.decode (s : Subscription) (b : UInt8) : Subscription :=
  { s with
    qos := b &&& 3
    noLocal := bit b 2
    retainAsPublished := bit b 3
    retainHandling := (3 : UInt8) &&& (b >>> 4) }

namespace Packet

def decodeWillProperties (pk : Packet) (buf : Bytes) (offset : Nat) : Result (Properties × Nat) := do
  let b ← sliceFrom buf offset
  let (p, n) ← orElse (pk.connect.willProperties.decode .willProperties b) .malformedWillProperties
  return (p, offset + n)

def decodeWill (pk : Packet) (protocolVersion : UInt8) (buf : Bytes) (offset : Nat) :
    Result (ConnectParams × Nat) := do
  let (willProperties, offset) ← optional (protocolVersion == 5) (pk.decodeWillProperties buf offset)
    pk.connect.willProperties offset
  let (willTopic, offset) ← orElse (decodeString buf offset) .malformedWillTopic
  let (willPayload, offset) ← orElse (decodeBytes buf offset) .malformedWillPayload
  return ({ pk.connect with willProperties, willTopic, willPayload }, offset)

def decodeUsername (buf : Bytes) (offset : Nat) : Result (Bytes × Nat) :=
  if offset ≥ buf.length then fail .protocolViolationFlagNoUsername
  else orElse (decodeBytes buf offset) .malformedUsername

def connectDecode (pk : Packet) (buf : Bytes) : Result Packet := do
  let (protocolName, offset) ← orElse (decodeBytes buf 0) .malformedProtocolName
  let (protocolVersion, offset) ← orElse (decodeByte buf offset) .malformedProtocolVersion
  let (flags, offset) ← orElse (decodeByte buf offset) .malformedFlags
  let (keepalive, offset) ← orElse (decodeUint16 buf offset) .malformedKeepalive
  let (properties, offset) ← optional (protocolVersion == 5)
    (decodePropertiesAt pk.properties pk.fixedHeader.type buf offset) pk.properties offset
  let (clientIdentifier, offset) ← orElse (decodeString buf offset) .clientIdentifierNotValid
  let (connect, offset) ← optional (bit flags 2) (pk.decodeWill protocolVersion buf offset)
    pk.connect offset
  let (username, offset) ← optional (bit flags 7) (decodeUsername buf offset) pk.connect.username offset
  let (password, _) ← optional (bit flags 6) (orElse (decodeBytes buf offset) .malformedPassword)
    pk.connect.password offset
  return { pk with
    protocolVersion, properties
    reservedBit := (1 : UInt8) &&& flags
    connect := { connect with
      protocolName, keepalive, clientIdentifier, username, password
      clean := bit flags 1
      willFlag := bit flags 2
      willQos := (3 : UInt8) &&& (flags >>> 3)
      willRetain := bit flags 5
      passwordFlag := bit flags 6
      usernameFlag := bit flags 7 } }

def connackDecode (pk : Packet) (buf : Bytes) : Result Packet := do
  let (sessionPresent, offset) ← orWrap (decodeByteBool buf 0) .malformedSessionPresent
  let (reasonCode, offset) ← orWrap (decodeByte buf offset) .malformedReasonCode
  let (properties, _) ← optional (pk.protocolVersion == 5)
    (decodePropertiesAt pk.properties pk.fixedHeader.type buf offset) pk.properties offset
  return { pk with sessionPresent, reasonCode, properties }

def disconnectDecode (pk : Packet) (buf : Bytes) : Result Packet :=
  if pk.protocolVersion = 5 ∧ pk.fixedHeader.remaining > 1 then do
    let (reasonCode, offset) ← orWrap (decodeByte buf 0) .malformedReasonCode
    let (properties, _) ← optional (pk.fixedHeader.remaining > 2)
      (decodePropertiesAt pk.properties pk.fixedHeader.type buf offset) pk.properties offset
    return { pk with reasonCode, properties }
  else return pk

def publishDecode (pk : Packet) (buf : Bytes) : Result Packet := do
  let (topicName, offset) ← orWrap (decodeString buf 0) .malformedTopic
  let (packetID, offset) ← optional (pk.fixedHeader.qos > 0)
    (orWrap (decodeUint16 buf offset) .malformedPacketID) pk.packetID offset
  let (properties, offset) ← optional (pk.protocolVersion == 5)
    (decodePropertiesAt pk.properties pk.fixedHeader.type buf offset) pk.properties offset
  let payload ← sliceFrom buf offset
  return { pk with topicName, packetID, properties, payload }

def decodePubAckRelRecComp (pk : Packet) (buf : Bytes) : Result Packet := do
  let (packetID, offset) ← orWrap (decodeUint16 buf 0) .malformedPacketID
  let (reasonCode, offset) ← optional (pk.protocolVersion == 5 && pk.fixedHeader.remaining > 2)
    (orWrap (decodeByte buf offset) .malformedReasonCode) pk.reasonCode offset
  let (properties, _) ← optional (pk.protocolVersion == 5 && pk.fixedHeader.remaining > 3)
    (decodePropertiesAt pk.properties pk.fixedHeader.type buf offset) pk.properties offset
  return { pk with packetID, reasonCode, properties }

def pubackDecode (pk : Packet) (buf : Bytes) : Result Packet := decodePubAckRelRecComp pk buf

def pubrecDecode (pk : Packet) (buf : Bytes) : Result Packet := decodePubAckRelRecComp pk buf

def pubrelDecode (pk : Packet) (buf : Bytes) : Result Packet := decodePubAckRelRecComp pk buf

def pubcompDecode (pk : Packet) (buf : Bytes) : Result Packet := decodePubAckRelRecComp pk buf

def subackDecode (pk : Packet) (buf : Bytes) : Result Packet := do
  let (packetID, offset) ← orWrap (decodeUint16 buf 0) .malformedPacketID
  let (properties, offset) ← optional (pk.protocolVersion == 5)
    (decodePropertiesAt pk.properties pk.fixedHeader.type buf offset) pk.properties offset
  let reasonCodes ← sliceFrom buf offset
  return { pk with packetID, properties, reasonCodes }

def unsubackDecode (pk : Packet) (buf : Bytes) : Result Packet := do
  let (packetID, offset) ← orWrap (decodeUint16 buf 0) .malformedPacketID
  if pk.protocolVersion = 5 then do
    let (properties, offset) ← decodePropertiesAt pk.properties pk.fixedHeader.type buf offset
    let reasonCodes ← sliceFrom buf offset
    return { pk with packetID, properties, reasonCodes }
  else return { pk with packetID }

/-- The options of a filter. For MQTT 5 they are read by the index expression `buf[offset]`,
for older versions by `decodeByte`. -/
def decodeOptions (pk : Packet) (filter : Bytes) (buf : Bytes) (offset : Nat) :
    Result (Subscription × Nat) :=
  if pk.protocolVersion = 5 then do
    let b ← byteAt buf offset
    return (Subscription.decode { filter } b, offset + 1)
  else do
    let (option, offset) ← orElse (decodeByte buf offset) .malformedQos
    return ({ filter, qos := option }, offset)

def decodeFilter (pk : Packet) (buf : Bytes) (offset : Nat) : Result (Subscription × Nat) := do
  let (filter, offset) ← orElse (decodeString buf offset) .malformedTopic
  let (sub, offset) ← pk.decodeOptions filter buf offset
  if sub.qos > 2 then fail .protocolViolationQosOutOfRange
  else return ({ sub with identifier := pk.properties.subscriptionIdentifier.headD 0 }, offset)

variable {buf : Bytes} {next offset : Nat} {pk : Packet} {sub : Subscription}

theorem decodeOptions_bounds {filter : Bytes}
    (h : pk.decodeOptions filter buf offset = .ok (sub, next)) : offset < next ∧ next ≤ buf.length := by
  rw [decodeOptions] at h
  split at h
  · simp only [Outcome.bind_eq_ok_iff, Outcome.pure_eq, Outcome.ok.injEq, Prod.mk.injEq] at h
    obtain ⟨b, hb, -, rfl⟩ := h
    refine ⟨Nat.lt_succ_self offset, ?_⟩
    rcases Nat.lt_or_ge offset buf.length with hlt | hge
    · exact hlt
    · simp [byteAt, index_eq_panic hge] at hb
  · simp only [orElse, Outcome.bind_eq_ok_iff, Outcome.mapErr_eq_ok_iff, Prod.exists,
      Outcome.pure_eq, Outcome.ok.injEq, Prod.mk.injEq] at h
    obtain ⟨o, n, ho, -, rfl⟩ := h
    exact ⟨decodeByte_safe.lt_next ho, decodeByte_safe.next_le ho⟩

theorem decodeFilter_bounds
    (h : pk.decodeFilter buf offset = .ok (sub, next)) : offset < next ∧ next ≤ buf.length := by
  simp only [decodeFilter, orElse, Outcome.bind_eq_ok_iff, Outcome.mapErr_eq_ok_iff, Prod.exists] at h
  obtain ⟨filter, mid, hf, sub', last, hs, h⟩ := h
  have hmid := decodeString_safe.lt_next hf
  have hlast := decodeOptions_bounds hs
  split at h
  · simp [fail] at h
  · simp only [Outcome.pure_eq, Outcome.ok.injEq, Prod.mk.injEq] at h
    omega

theorem decodeFilter_lt
    (h : pk.decodeFilter buf offset = .ok (sub, next)) : offset < next := (decodeFilter_bounds h).1

def subscribeLoop (pk : Packet) (buf : Bytes) (filters : List Subscription) (offset : Nat) :
    Result (List Subscription) :=
  if offset < buf.length then
    match _hr : decodeFilter pk buf offset with
    | .ok (sub, offset') => subscribeLoop pk buf (filters ++ [sub]) offset'
    | .err e => .err e
    | .panic => .panic
  else .ok filters
termination_by buf.length - offset
decreasing_by
  have := decodeFilter_lt _hr
  omega

theorem subscribeLoop_of_filter {filters : List Subscription} (hlt : offset < buf.length)
    (h : pk.decodeFilter buf offset = .ok (sub, next)) :
    pk.subscribeLoop buf filters offset = pk.subscribeLoop buf (filters ++ [sub]) next := by
  rw [subscribeLoop, if_pos hlt]
  split <;> rename_i heq <;> rw [h] at heq <;> cases heq
  rfl

def subscribeDecode (pk : Packet) (buf : Bytes) : Result Packet := do
  let (packetID, offset) ← orElse (decodeUint16 buf 0) .malformedPacketID
  let (properties, offset) ← optional (pk.protocolVersion == 5)
    (decodePropertiesAt pk.properties pk.fixedHeader.type buf offset) pk.properties offset
  let pk := { pk with packetID, properties }
  let filters ← subscribeLoop pk buf [] offset
  return { pk with filters }

def unsubscribeLoop (buf : Bytes) (filters : List Subscription) (offset : Nat) :
    Result (List Subscription) :=
  if offset < buf.length then
    match _hr : orWrap (decodeString buf offset) .malformedTopic with
    | .ok (filter, offset') => unsubscribeLoop buf (filters ++ [{ filter }]) offset'
    | .err e => .err e
    | .panic => .panic
  else .ok filters
termination_by buf.length - offset
decreasing_by
  have := decodeString_safe.lt_next (Outcome.mapErr_eq_ok_iff.mp _hr)
  omega

def unsubscribeDecode (pk : Packet) (buf : Bytes) : Result Packet := do
  let (packetID, offset) ← orWrap (decodeUint16 buf 0) .malformedPacketID
  let (properties, offset) ← optional (pk.protocolVersion == 5)
    (decodePropertiesAt pk.properties pk.fixedHeader.type buf offset) pk.properties offset
  let filters ← unsubscribeLoop buf [] offset
  return { pk with packetID, properties, filters }

def authDecode (pk : Packet) (buf : Bytes) : Result Packet := do
  let (reasonCode, offset) ← orWrap (decodeByte buf 0) .malformedReasonCode
  let (properties, _) ← decodePropertiesAt pk.properties pk.fixedHeader.type buf offset
  return { pk with reasonCode, properties }

end Packet

/-- The dispatch of `Client.ReadPacket` on the bytes of the body. -/
def readPacket (protocolVersion : UInt8) (fh : FixedHeader) (px : Bytes) : Result Packet :=
  let pk : Packet := { protocolVersion, fixedHeader := fh }
  match fh.type with
  | .connect => pk.connectDecode px
  | .disconnect => pk.disconnectDecode px
  | .connack => pk.connackDecode px
  | .publish => pk.publishDecode px
  | .puback => pk.pubackDecode px
  | .pubrec => pk.pubrecDecode px
  | .pubrel => pk.pubrelDecode px
  | .pubcomp => pk.pubcompDecode px
  | .subscribe => pk.subscribeDecode px
  | .suback => pk.subackDecode px
  | .unsubscribe => pk.unsubscribeDecode px
  | .unsuback => pk.unsubackDecode px
  | .pingreq | .pingresp => .ok pk
  | .auth => pk.authDecode px
  | .reserved => .err (.invalidPacketType .reserved)
  | .willProperties => .err (.invalidPacketType .willProperties)

end Mqtt
