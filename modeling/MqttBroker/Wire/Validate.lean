import MqttBroker.Topics.Levels

/-! Copies of packets and the checks that the broker makes on decoded packets
before it handles them. -/

namespace Mqtt

/-- `Properties.Copy`: a topic alias stays with its connection. -/
def Properties.copy (p : Properties) (allowTransfer : Bool) : Properties :=
  { p with
    topicAlias := if allowTransfer then p.topicAlias else 0
    topicAliasFlag := allowTransfer && p.topicAliasFlag }

namespace Packet

def copy (pk : Packet) (allowTransfer : Bool) : Packet :=
  { pk with
    fixedHeader := { pk.fixedHeader with dup := false }
    mods := { maxSize := pk.mods.maxSize }
    connect :=
      { pk.connect with
        willProperties := pk.connect.willProperties.copy allowTransfer
        passwordFlag := pk.connect.password.length > 0
        usernameFlag := pk.connect.username.length > 0 }
    properties := pk.properties.copy allowTransfer
    packetID := if allowTransfer then pk.packetID else 0
    ignore := false }

def reasonCodeValid (pk : Packet) : Bool :=
  match pk.fixedHeader.type with
  | .pubrec =>
    [Code.success, Code.noMatchingSubscribers, Code.unspecifiedError, Code.implementationSpecificError,
      Code.notAuthorized, Code.topicNameInvalid, Code.packetIdentifierInUse, Code.quotaExceeded,
      Code.payloadFormatInvalid].any fun c => c.code == pk.reasonCode
  | .pubrel | .pubcomp =>
    [Code.success, Code.packetIdentifierNotFound].any fun c => c.code == pk.reasonCode
  | .suback =>
    [Code.grantedQos0, Code.grantedQos1, Code.grantedQos2, Code.unspecifiedError,
      Code.implementationSpecificError, Code.notAuthorized, Code.topicFilterInvalid,
      Code.packetIdentifierInUse, Code.quotaExceeded, Code.sharedSubscriptionsNotSupported,
      Code.subscriptionIdentifiersNotSupported, Code.wildcardSubscriptionsNotSupported].any
      fun c => c.code == pk.reasonCode
  | .unsuback =>
    [Code.success, Code.noSubscriptionExisted, Code.unspecifiedError, Code.implementationSpecificError,
      Code.notAuthorized, Code.topicFilterInvalid, Code.packetIdentifierInUse].any
      fun c => c.code == pk.reasonCode
  | _ => true

/-- The condition under which `processPubrec` and `processPubrel` end the flow. -/
def endsFlow (pk : Packet) : Bool := Code.unspecifiedError.code ≤ pk.reasonCode || !pk.reasonCodeValid

def connectValidate (pk : Packet) : Code :=
  let c := pk.connect
  let isMQIsdp := c.protocolName = [77, 81, 73, 115, 100, 112]
  let isMQTT := c.protocolName = [77, 81, 84, 84]
  if ¬ isMQIsdp ∧ ¬ isMQTT then .protocolViolationProtocolName
  else if (isMQIsdp ∧ pk.protocolVersion ≠ 3) ∨
      (isMQTT ∧ pk.protocolVersion ≠ 4 ∧ pk.protocolVersion ≠ 5) then .protocolViolationProtocolVersion
  else if pk.reservedBit ≠ 0 then .protocolViolationReservedBit
  else if 65535 < c.password.length then .protocolViolationPasswordTooLong
  else if 65535 < c.username.length then .protocolViolationUsernameTooLong
  else if !c.usernameFlag && c.username.length > 0 then .protocolViolationUsernameNoFlag
  else if c.passwordFlag && c.password.length == 0 then .protocolViolationFlagNoPassword
  else if !c.passwordFlag && c.password.length > 0 then .protocolViolationPasswordNoFlag
  else if 65535 < c.clientIdentifier.length then .clientIdentifierNotValid
  else if c.willFlag && (c.willPayload.length == 0 || c.willTopic.isEmpty) then
    .protocolViolationWillFlagNoPayload
  else if c.willFlag && c.willQos > 2 then .protocolViolationQosOutOfRange
  else if !c.willFlag && c.willRetain then .protocolViolationWillFlagSurplusRetain
  else .success

def publishValidate (pk : Packet) (topicAliasMaximum : UInt16) : Code :=
  if pk.fixedHeader.qos > 0 && pk.packetID == 0 then .protocolViolationNoPacketID
  else if pk.fixedHeader.qos == 0 && pk.packetID > 0 then .protocolViolationSurplusPacketID
  else if pk.topicName.contains plus || pk.topicName.contains hash then .protocolViolationSurplusWildcard
  else if topicAliasMaximum < pk.properties.topicAlias then .topicAliasInvalid
  else if pk.topicName.isEmpty && pk.properties.topicAlias == 0 then .protocolViolationNoTopic
  else if pk.properties.topicAliasFlag && pk.properties.topicAlias == 0 then .topicAliasInvalid
  else if pk.properties.subscriptionIdentifier.length > 0 then .protocolViolationSurplusSubID
  else .success

def subscribeValidate (pk : Packet) : Code :=
  if pk.fixedHeader.qos > 0 && pk.packetID == 0 then .protocolViolationNoPacketID
  else if pk.filters.length = 0 then .protocolViolationNoFilters
  else if pk.filters.any fun v => v.identifier > 268435455 then .protocolViolationOversizeSubID
  else .success

def unsubscribeValidate (pk : Packet) : Code :=
  if pk.fixedHeader.qos > 0 && pk.packetID == 0 then .protocolViolationNoPacketID
  else if pk.filters.length = 0 then .protocolViolationNoFilters
  else .success

def authValidate (pk : Packet) : Code :=
  if pk.reasonCode ≠ Code.success.code ∧ pk.reasonCode ≠ Code.continueAuthentication.code ∧
      pk.reasonCode ≠ Code.reAuthenticate.code then .protocolViolationInvalidReason
  else .success

def isFixedPacketInfo : Bool := true

/-- An acknowledgement without a topic takes the payload, topic and origin of the message that it
acknowledges. -/
def fillFrom (ack pk : Packet) : Packet :=
  if ack.topicName.length = 0 ∧ pk.topicName.length > 0 ∧ isFixedPacketInfo then
    { ack with payload := pk.payload, topicName := pk.topicName, origin := pk.origin }
  else ack

variable (ack pk : Packet)

@[simp] theorem fillFrom_packetID : (ack.fillFrom pk).packetID = ack.packetID := by
  unfold fillFrom
  split <;> rfl

@[simp] theorem fillFrom_fixedHeader : (ack.fillFrom pk).fixedHeader = ack.fixedHeader := by
  unfold fillFrom
  split <;> rfl

@[simp] theorem fillFrom_expiry : (ack.fillFrom pk).expiry = ack.expiry := by
  unfold fillFrom
  split <;> rfl

@[simp] theorem fillFrom_created : (ack.fillFrom pk).created = ack.created := by
  unfold fillFrom
  split <;> rfl

@[simp] theorem fillFrom_reasonCode : (ack.fillFrom pk).reasonCode = ack.reasonCode := by
  unfold fillFrom
  split <;> rfl

theorem fillFrom_payload (h : ack.payload = pk.payload) : (ack.fillFrom pk).payload = pk.payload := by
  unfold fillFrom
  split
  · rfl
  · exact h

@[simp] theorem fillFrom_properties : (ack.fillFrom pk).properties = ack.properties := by
  unfold fillFrom
  split <;> rfl

end Packet

def minimum (a b : Int) : Int :=
  if a ≠ 0 then if b ≠ 0 ∧ b < a then b else a
  else b

end Mqtt
