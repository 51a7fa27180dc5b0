import MqttBroker.Topics.Levels
import MqttBroker.Wire.Decode

/-! The encoders: the fields, the fixed header, the property block, and the packets in
the order of their fields on the wire. A packet is written as its header, with the
length of the body filled in, and the body. -/

namespace Mqtt
open Calls

/-! ### Fields -/

def encodeBool (b : Bool) : UInt8 := if b then 1 else 0

def encodeUint16 (val : UInt16) : Bytes := [(val >>> 8).toUInt8, val.toUInt8]

def encodeUint32 (val : UInt32) : Bytes :=
  [(val >>> 24).toUInt8, (val >>> 16).toUInt8, (val >>> 8).toUInt8, val.toUInt8]

def encodeBytes (val : Bytes) : Bytes := encodeUint16 (UInt16.ofNat val.length) ++ val

def encodeString (val : Bytes) : Bytes := encodeUint16 (UInt16.ofNat val.length) ++ val

def encodeLength (length : Nat) : Bytes :=
  let eb := UInt8.ofNat (length % 128)
  if 0 < length / 128 then (eb ||| 0x80) :: encodeLength (length / 128) else [eb]
termination_by length
decreasing_by omega

/-! ### The fixed header -/

namespace PacketType

def toByte : PacketType → UInt8
  | reserved => 0
  | connect => 1
  | connack => 2
  | publish => 3
  | puback => 4
  | pubrec => 5
  | pubrel => 6
  | pubcomp => 7
  | subscribe => 8
  | suback => 9
  | unsubscribe => 10
  | unsuback => 11
  | pingreq => 12
  | pingresp => 13
  | disconnect => 14
  | auth => 15
  | willProperties => 99

def ofNibble : UInt8 → PacketType
  | 1 => connect
  | 2 => connack
  | 3 => publish
  | 4 => puback
  | 5 => pubrec
  | 6 => pubrel
  | 7 => pubcomp
  | 8 => subscribe
  | 9 => suback
  | 10 => unsubscribe
  | 11 => unsuback
  | 12 => pingreq
  | 13 => pingresp
  | 14 => disconnect
  | 15 => auth
  | _ => reserved

end PacketType

namespace FixedHeader

def firstByte (fh : FixedHeader) : UInt8 :=
  fh.type.toByte <<< 4 ||| encodeBool fh.dup <<< 3 ||| fh.qos <<< 1 ||| encodeBool fh.retain

def encode (fh : FixedHeader) : Bytes := fh.firstByte :: encodeLength fh.remaining

def hasFlags (hb b0 b1 b2 b3 : UInt8) : Bool :=
  (hb >>> 0) &&& 0x01 == b0 && (hb >>> 1) &&& 0x01 == b1 && (hb >>> 2) &&& 0x01 == b2 && (hb >>> 3) &&& 0x01 == b3

def decode (fh : FixedHeader) (hb : UInt8) : Result FixedHeader := do
  let fh := { fh with type := .ofNibble (hb >>> 4) }
  let fh ← match fh.type with
    | .publish =>
      if (hb >>> 1) &&& 0x01 > 0 ∧ (hb >>> 1) &&& 0x02 > 0 then fail .protocolViolationQosOutOfRange
      else
        .ok { fh with
          dup := (hb >>> 3) &&& 0x01 > 0
          qos := (hb >>> 1) &&& 0x03
          retain := hb &&& 0x01 > 0 }
    | .pubrel | .subscribe | .unsubscribe =>
      if !hasFlags hb 0 1 0 0 then fail .malformedFlags else .ok { fh with qos := (hb >>> 1) &&& 0x03 }
    | _ => if !hasFlags hb 0 0 0 0 then fail .malformedFlags else .ok fh
  if fh.qos = 0 ∧ fh.dup then fail .protocolViolationDupNoQos else return fh

end FixedHeader

/-! ### Properties -/

namespace Property

def toByte : Property → UInt8
  | payloadFormat => 1
  | messageExpiryInterval => 2
  | contentType => 3
  | responseTopic => 8
  | correlationData => 9
  | subscriptionIdentifier => 11
  | sessionExpiryInterval => 17
  | assignedClientID => 18
  | serverKeepAlive => 19
  | authenticationMethod => 21
  | authenticationData => 22
  | requestProblemInfo => 23
  | willDelayInterval => 24
  | requestResponseInfo => 25
  | responseInfo => 26
  | serverReference => 28
  | reasonString => 31
  | receiveMaximum => 33
  | topicAliasMaximum => 34
  | topicAlias => 35
  | maximumQos => 36
  | retainAvailable => 37
  | user => 38
  | maximumPacketSize => 39
  | wildcardSubAvailable => 40
  | subIDAvailable => 41
  | sharedSubAvailable => 42

def all : List Property :=
  [payloadFormat, messageExpiryInterval, contentType, responseTopic, correlationData, subscriptionIdentifier,
    sessionExpiryInterval, assignedClientID, serverKeepAlive, authenticationMethod, authenticationData,
    requestProblemInfo, willDelayInterval, requestResponseInfo, responseInfo, serverReference, reasonString,
    receiveMaximum, topicAliasMaximum, topicAlias, maximumQos, retainAvailable, user, maximumPacketSize,
    wildcardSubAvailable, subIDAvailable, sharedSubAvailable]

def canEncode (q : Property) (pkt : PacketType) : Bool := pkt ∈ q.validPackets

variable (p : Properties) (mods : Mods)

/-- A text of this many bytes, after `n` others, is within the limit of the client. -/
def fits (n len : Nat) : Bool := mods.maxSize == 0 || UInt32.ofNat (n + len + 1) < mods.maxSize

def values : Property → List Bytes
  | payloadFormat => [[p.payloadFormat]]
  | messageExpiryInterval => [encodeUint32 p.messageExpiryInterval]
  | contentType => [encodeString p.contentType]
  | responseTopic => [encodeString p.responseTopic]
  | correlationData => [encodeBytes p.correlationData]
  | subscriptionIdentifier => (p.subscriptionIdentifier.filter (0 < ·)).map fun v => encodeLength v.toNat
  | sessionExpiryInterval => [encodeUint32 p.sessionExpiryInterval]
  | assignedClientID => [encodeString p.assignedClientID]
  | serverKeepAlive => [encodeUint16 p.serverKeepAlive]
  | authenticationMethod => [encodeString p.authenticationMethod]
  | authenticationData => [encodeBytes p.authenticationData]
  | requestProblemInfo => [[p.requestProblemInfo]]
  | willDelayInterval => [encodeUint32 p.willDelayInterval]
  | requestResponseInfo => [[p.requestResponseInfo]]
  | responseInfo => [encodeString p.responseInfo]
  | serverReference => [encodeString p.serverReference]
  | reasonString => [encodeString p.reasonString]
  | receiveMaximum => [encodeUint16 p.receiveMaximum]
  | topicAliasMaximum => [encodeUint16 p.topicAliasMaximum]
  | topicAlias => [encodeUint16 p.topicAlias]
  | maximumQos => [[p.maximumQos]]
  | retainAvailable => [[p.retainAvailable]]
  | user => p.user.map fun v => encodeString v.key ++ encodeString v.val
  | maximumPacketSize => [encodeUint32 p.maximumPacketSize]
  | wildcardSubAvailable => [[p.wildcardSubAvailable]]
  | subIDAvailable => [[p.subIDAvailable]]
  | sharedSubAvailable => [[p.sharedSubAvailable]]

def written (q : Property) : Bytes := (values p q).flatMap (q.toByte :: ·)

/-- The condition under which a property is written, besides `canEncode`. -/
def isSet (n : Nat) : Property → Bool
  | payloadFormat => p.payloadFormatFlag
  | messageExpiryInterval => p.messageExpiryInterval > 0
  | contentType => p.contentType ≠ []
  | responseTopic =>
    mods.allowResponseInfo && p.responseTopic ≠ [] && !(p.responseTopic.contains plus || p.responseTopic.contains hash)
  | correlationData => mods.allowResponseInfo && p.correlationData.length > 0
  | subscriptionIdentifier => p.subscriptionIdentifier.length > 0
  | sessionExpiryInterval => p.sessionExpiryIntervalFlag
  | assignedClientID => p.assignedClientID ≠ []
  | serverKeepAlive => p.serverKeepAliveFlag
  | authenticationMethod => p.authenticationMethod ≠ []
  | authenticationData => p.authenticationData.length > 0
  | requestProblemInfo => p.requestProblemInfoFlag
  | willDelayInterval => p.willDelayInterval > 0
  | requestResponseInfo => p.requestResponseInfo > 0
  | responseInfo => mods.allowResponseInfo && p.responseInfo.length > 0
  | serverReference => p.serverReference.length > 0
  | reasonString =>
    !mods.disallowProblemInfo && p.reasonString ≠ [] && fits mods n (encodeString p.reasonString).length
  | receiveMaximum => p.receiveMaximum > 0
  | topicAliasMaximum => p.topicAliasMaximum > 0
  | topicAlias => p.topicAliasFlag && p.topicAlias > 0
  | maximumQos => p.maximumQosFlag && p.maximumQos < 2
  | retainAvailable => p.retainAvailableFlag
  | user => !mods.disallowProblemInfo && fits mods n (written p user).length
  | maximumPacketSize => p.maximumPacketSize > 0
  | wildcardSubAvailable => p.wildcardSubAvailableFlag
  | subIDAvailable => p.subIDAvailableFlag
  | sharedSubAvailable => p.sharedSubAvailableFlag

def emits (pkt : PacketType) (n : Nat) (q : Property) : Bool := q.canEncode pkt && isSet p mods n q

def encode (pkt : PacketType) (n : Nat) (q : Property) : Bytes := if emits p mods pkt n q then written p q else []

end Property

/-- `Properties.Encode`, after `n` bytes of the body. -/
def Properties.encode (p : Properties) (pkt : PacketType) (mods : Mods) (n : Nat) : Bytes :=
  let buf := Property.all.flatMap (Property.encode p mods pkt n)
  encodeLength buf.length ++ buf

def Subscription.encode (s : Subscription) : UInt8 :=
  s.qos ||| encodeBool s.noLocal <<< 2 ||| encodeBool s.retainAsPublished <<< 3 ||| s.retainHandling <<< 4

/-! ### Packets -/

namespace Packet

def frame (pk : Packet) (body : Bytes) : Bytes := { pk.fixedHeader with remaining := body.length }.encode ++ body

/-- The property block of a version 5 packet whose other fields take `n` bytes. -/
def encodeProperties (pk : Packet) (n : Nat) : Bytes :=
  if pk.protocolVersion = 5 then pk.properties.encode pk.fixedHeader.type pk.mods n else []

def connectFlags (pk : Packet) : UInt8 :=
  encodeBool pk.connect.clean <<< 1 ||| encodeBool pk.connect.willFlag <<< 2 ||| pk.connect.willQos <<< 3 |||
    encodeBool pk.connect.willRetain <<< 5 ||| encodeBool pk.connect.passwordFlag <<< 6 |||
    encodeBool pk.connect.usernameFlag <<< 7 ||| 0

def encodeWill (pk : Packet) : Bytes :=
  (if pk.protocolVersion = 5 then pk.connect.willProperties.encode .willProperties pk.mods 0 else []) ++
    encodeString pk.connect.willTopic ++ encodeBytes pk.connect.willPayload

def connectBody (pk : Packet) : Bytes :=
  encodeBytes pk.connect.protocolName ++ [pk.protocolVersion] ++ [pk.connectFlags] ++
  encodeUint16 pk.connect.keepalive ++
    pk.encodeProperties 0 ++ encodeString pk.connect.clientIdentifier ++
    (if pk.connect.willFlag then pk.encodeWill else []) ++
    (if pk.connect.usernameFlag then encodeBytes pk.connect.username else []) ++
    (if pk.connect.passwordFlag then encodeBytes pk.connect.password else [])

def connectEncode (pk : Packet) : Except Error Bytes := .ok (pk.frame pk.connectBody)

def connackBody (pk : Packet) : Bytes := [encodeBool pk.sessionPresent] ++ [pk.reasonCode] ++ pk.encodeProperties 4

def connackEncode (pk : Packet) : Except Error Bytes := .ok (pk.frame pk.connackBody)

def disconnectBody (pk : Packet) : Bytes :=
  if pk.protocolVersion = 5 then [pk.reasonCode] ++ pk.properties.encode pk.fixedHeader.type pk.mods 1 else []

def disconnectEncode (pk : Packet) : Except Error Bytes := .ok (pk.frame pk.disconnectBody)

def pingreqEncode (pk : Packet) : Except Error Bytes := .ok pk.fixedHeader.encode

def pingrespEncode (pk : Packet) : Except Error Bytes := .ok pk.fixedHeader.encode

def publishHead (pk : Packet) : Bytes :=
  encodeString pk.topicName ++ if pk.fixedHeader.qos > 0 then encodeUint16 pk.packetID else []

def publishBody (pk : Packet) : Bytes :=
  pk.publishHead ++ pk.encodeProperties (pk.publishHead.length + pk.payload.length) ++ pk.payload

def publishEncode (pk : Packet) : Except Error Bytes :=
  if pk.fixedHeader.qos > 0 ∧ pk.packetID = 0 then .error (.code .protocolViolationNoPacketID)
  else .ok (pk.frame pk.publishBody)

/-- The body of PUBACK, PUBREC, PUBREL and PUBCOMP: a reason that is no error and an empty block are left out. -/
def encodePubAckRelRecComp (pk : Packet) : Except Error Bytes :=
  let pb := pk.encodeProperties 2
  .ok (pk.frame (encodeUint16 pk.packetID ++
    (if pk.protocolVersion = 5 ∧ (Code.unspecifiedError.code ≤ pk.reasonCode ∨ 1 < pb.length) then [pk.reasonCode]
      else []) ++
    if 1 < pb.length then pb else []))

def pubackEncode (pk : Packet) : Except Error Bytes := encodePubAckRelRecComp pk

def pubrecEncode (pk : Packet) : Except Error Bytes := encodePubAckRelRecComp pk

def pubrelEncode (pk : Packet) : Except Error Bytes := encodePubAckRelRecComp pk

def pubcompEncode (pk : Packet) : Except Error Bytes := encodePubAckRelRecComp pk

def subackBody (pk : Packet) : Bytes :=
  encodeUint16 pk.packetID ++ pk.encodeProperties (2 + pk.reasonCodes.length) ++ pk.reasonCodes

def subackEncode (pk : Packet) : Except Error Bytes := .ok (pk.frame pk.subackBody)

def encodeFilter (pk : Packet) (opts : Subscription) : Bytes :=
  encodeString opts.filter ++ [if pk.protocolVersion = 5 then opts.encode else opts.qos]

def subscribeBody (pk : Packet) : Bytes :=
  let xb := pk.filters.flatMap pk.encodeFilter
  encodeUint16 pk.packetID ++ pk.encodeProperties (2 + xb.length) ++ xb

def subscribeEncode (pk : Packet) : Except Error Bytes :=
  if pk.packetID = 0 then .error (.code .protocolViolationNoPacketID) else .ok (pk.frame pk.subscribeBody)

def unsubackBody (pk : Packet) : Bytes :=
  encodeUint16 pk.packetID ++ pk.encodeProperties 2 ++ if pk.protocolVersion = 5 then pk.reasonCodes else []

def unsubackEncode (pk : Packet) : Except Error Bytes := .ok (pk.frame pk.unsubackBody)

def unsubscribeBody (pk : Packet) : Bytes :=
  let xb := pk.filters.flatMap fun sub => encodeString sub.filter
  encodeUint16 pk.packetID ++ pk.encodeProperties (2 + xb.length) ++ xb

def unsubscribeEncode (pk : Packet) : Except Error Bytes :=
  if pk.packetID = 0 then .error (.code .protocolViolationNoPacketID) else .ok (pk.frame pk.unsubscribeBody)

def authBody (pk : Packet) : Bytes := [pk.reasonCode] ++ pk.properties.encode pk.fixedHeader.type pk.mods 1

def authEncode (pk : Packet) : Except Error Bytes := .ok (pk.frame pk.authBody)

def encode (pk : Packet) : Except Error Bytes :=
  match pk.fixedHeader.type with
  | .connect => pk.connectEncode
  | .connack => pk.connackEncode
  | .publish => pk.publishEncode
  | .puback => pk.pubackEncode
  | .pubrec => pk.pubrecEncode
  | .pubrel => pk.pubrelEncode
  | .pubcomp => pk.pubcompEncode
  | .subscribe => pk.subscribeEncode
  | .suback => pk.subackEncode
  | .unsubscribe => pk.unsubscribeEncode
  | .unsuback => pk.unsubackEncode
  | .pingreq => pk.pingreqEncode
  | .pingresp => pk.pingrespEncode
  | .disconnect => pk.disconnectEncode
  | .auth => pk.authEncode
  | t => .error (.invalidPacketType t)

end Packet
end Mqtt
