import Mathlib.Data.List.Basic

/-! Reason codes and the errors a decoder or a handler returns. Codes are
compared as the source compares them, on the byte and on the text. -/

namespace Mqtt

abbrev Bytes := List UInt8

inductive PacketType where
  | reserved | connect | connack | publish | puback | pubrec | pubrel | pubcomp
  | subscribe | suback | unsubscribe | unsuback | pingreq | pingresp | disconnect | auth
  | willProperties
  deriving DecidableEq, Repr

structure Code where
  code : UInt8
  reason : String
  deriving DecidableEq, Repr

namespace Code

def success : Code := ⟨0x00, "success"⟩
def disconnected : Code := ⟨0x00, "disconnected"⟩
def grantedQos0 : Code := ⟨0x00, "granted qos 0"⟩
def grantedQos1 : Code := ⟨0x01, "granted qos 1"⟩
def grantedQos2 : Code := ⟨0x02, "granted qos 2"⟩
def disconnectWillMessage : Code := ⟨0x04, "disconnect with will message"⟩
def noMatchingSubscribers : Code := ⟨0x10, "no matching subscribers"⟩
def noSubscriptionExisted : Code := ⟨0x11, "no subscription existed"⟩
def continueAuthentication : Code := ⟨0x18, "continue authentication"⟩
def reAuthenticate : Code := ⟨0x19, "re-authenticate"⟩
def unspecifiedError : Code := ⟨0x80, "unspecified error"⟩
def malformedProtocolName : Code := ⟨0x81, "malformed packet: protocol name"⟩
def malformedProtocolVersion : Code := ⟨0x81, "malformed packet: protocol version"⟩
def malformedFlags : Code := ⟨0x81, "malformed packet: flags"⟩
def malformedKeepalive : Code := ⟨0x81, "malformed packet: keepalive"⟩
def malformedPacketID : Code := ⟨0x81, "malformed packet: packet identifier"⟩
def malformedTopic : Code := ⟨0x81, "malformed packet: topic"⟩
def malformedWillTopic : Code := ⟨0x81, "malformed packet: will topic"⟩
def malformedWillPayload : Code := ⟨0x81, "malformed packet: will message"⟩
def malformedUsername : Code := ⟨0x81, "malformed packet: username"⟩
def malformedPassword : Code := ⟨0x81, "malformed packet: password"⟩
def malformedQos : Code := ⟨0x81, "malformed packet: qos"⟩
def malformedOffsetUintOutOfRange : Code := ⟨0x81, "malformed packet: offset uint out of range"⟩
def malformedOffsetBytesOutOfRange : Code := ⟨0x81, "malformed packet: offset bytes out of range"⟩
def malformedOffsetByteOutOfRange : Code := ⟨0x81, "malformed packet: offset byte out of range"⟩
def malformedOffsetBoolOutOfRange : Code := ⟨0x81, "malformed packet: offset boolean out of range"⟩
def malformedInvalidUTF8 : Code := ⟨0x81, "malformed packet: invalid utf-8 string"⟩
def malformedVariableByteInteger : Code :=
  ⟨0x81, "malformed packet: variable byte integer out of range"⟩
def malformedProperties : Code := ⟨0x81, "malformed packet: properties"⟩
def malformedWillProperties : Code := ⟨0x81, "malformed packet: will properties"⟩
def malformedSessionPresent : Code := ⟨0x81, "malformed packet: session present"⟩
def malformedReasonCode : Code := ⟨0x81, "malformed packet: reason code"⟩
def protocolViolationProtocolName : Code := ⟨0x82, "protocol violation: protocol name"⟩
def protocolViolationProtocolVersion : Code := ⟨0x82, "protocol violation: protocol version"⟩
def protocolViolationReservedBit : Code := ⟨0x82, "protocol violation: reserved bit not 0"⟩
def protocolViolationFlagNoUsername : Code :=
  ⟨0x82, "protocol violation: username flag set but no value"⟩
def protocolViolationFlagNoPassword : Code :=
  ⟨0x82, "protocol violation: password flag set but no value"⟩
def protocolViolationUsernameNoFlag : Code := ⟨0x82, "protocol violation: username set but no flag"⟩
def protocolViolationPasswordNoFlag : Code := ⟨0x82, "protocol violation: username set but no flag"⟩
def protocolViolationPasswordTooLong : Code := ⟨0x82, "protocol violation: password too long"⟩
def protocolViolationUsernameTooLong : Code := ⟨0x82, "protocol violation: username too long"⟩
def protocolViolationWillFlagNoPayload : Code := ⟨0x82, "protocol violation: will flag no payload"⟩
def protocolViolationWillFlagSurplusRetain : Code := ⟨0x82, "protocol violation: will flag surplus retain"⟩
def protocolViolationNoPacketID : Code := ⟨0x82, "protocol violation: missing packet id"⟩
def protocolViolationSurplusPacketID : Code := ⟨0x82, "protocol violation: surplus packet id"⟩
def protocolViolationQosOutOfRange : Code := ⟨0x82, "protocol violation: qos out of range"⟩
def protocolViolationDupNoQos : Code := ⟨0x82, "protocol violation: dup true with no qos"⟩
def protocolViolationSecondConnect : Code := ⟨0x82, "protocol violation: second connect packet"⟩
def protocolViolationSurplusWildcard : Code := ⟨0x82, "protocol violation: topic contains wildcards"⟩
def protocolViolationSurplusSubID : Code :=
  ⟨0x82, "protocol violation: contained subscription identifier"⟩
def protocolViolationOversizeSubID : Code := ⟨0x82, "protocol violation: oversize subscription id"⟩
def protocolViolationNoFilters : Code := ⟨0x82, "protocol violation: must contain at least one filter"⟩
def protocolViolationInvalidReason : Code := ⟨0x82, "protocol violation: invalid reason"⟩
def protocolViolationInvalidSharedNoLocal : Code := ⟨0x82, "protocol violation: invalid shared no local"⟩
def protocolViolationZeroNonZeroExpiry : Code := ⟨0x82, "protocol violation: non-zero expiry"⟩
def protocolViolationNoTopic : Code := ⟨0x82, "protocol violation: no topic or alias"⟩
def implementationSpecificError : Code := ⟨0x83, "implementation specific error"⟩
def unsupportedProtocolVersion : Code := ⟨0x84, "unsupported protocol version"⟩
def clientIdentifierNotValid : Code := ⟨0x85, "client identifier not valid"⟩
def badUsernameOrPassword : Code := ⟨0x86, "bad username or password"⟩
def notAuthorized : Code := ⟨0x87, "not authorized"⟩
def serverUnavailable : Code := ⟨0x88, "server unavailable"⟩
def serverShuttingDown : Code := ⟨0x8B, "server shutting down"⟩
def sessionTakenOver : Code := ⟨0x8E, "session takeover"⟩
def topicFilterInvalid : Code := ⟨0x8F, "topic filter invalid"⟩
def topicNameInvalid : Code := ⟨0x90, "topic name invalid"⟩
def packetIdentifierInUse : Code := ⟨0x91, "packet identifier in use"⟩
def packetIdentifierNotFound : Code := ⟨0x92, "packet identifier not found"⟩
def receiveMaximum : Code := ⟨0x93, "receive maximum exceeded"⟩
def topicAliasInvalid : Code := ⟨0x94, "topic alias invalid"⟩
def packetTooLarge : Code := ⟨0x95, "packet too large"⟩
def quotaExceeded : Code := ⟨0x97, "quota exceeded"⟩
def pendingClientWritesExceeded : Code := ⟨0x97, "too many pending writes"⟩
def payloadFormatInvalid : Code := ⟨0x99, "payload format invalid"⟩
def retainNotSupported : Code := ⟨0x9A, "retain not supported"⟩
def qosNotSupported : Code := ⟨0x9B, "qos not supported"⟩
def sharedSubscriptionsNotSupported : Code := ⟨0x9E, "shared subscriptions not supported"⟩
def subscriptionIdentifiersNotSupported : Code := ⟨0xA1, "subscription identifiers not supported"⟩
def wildcardSubscriptionsNotSupported : Code := ⟨0xA2, "wildcard subscriptions not supported"⟩

def isError (c : Code) : Bool := unspecifiedError.code ≤ c.code

/-- `V5CodesToV3`: the return code of a CONNACK for a version 3 client. -/
def forV3 (c : Code) : Code :=
  if c = unsupportedProtocolVersion then ⟨0x01, ""⟩
  else if c = clientIdentifierNotValid then ⟨0x02, ""⟩
  else if c = serverUnavailable then ⟨0x03, ""⟩
  else if c = malformedUsername ∨ c = malformedPassword then ⟨0x04, ""⟩
  else if c = badUsernameOrPassword then ⟨0x05, ""⟩
  else c

end Code

/-- Errors returned by decoders and handlers. `wrap` is `fmt.Errorf("%s: %w", cause, code)`. -/
inductive Error where
  | code (c : Code)
  | wrap (cause : Error) (c : Code)
  | unsupportedProperty (k : UInt8) (pkt : PacketType)
  | invalidPacketType (t : PacketType)
  | eof
  | connectionClosed
  | network
  deriving DecidableEq, Repr

end Mqtt
