import MqttBroker.Wire.Codes
import Mathlib.Data.List.AList

/-! The packet record of the broker. One concrete record covers every packet
type, and the zero value of each field is its default. -/

namespace Mqtt

structure UserProperty where
  key : Bytes
  val : Bytes
  deriving DecidableEq, Repr

structure Properties where
  correlationData : Bytes := []
  subscriptionIdentifier : List Int := []
  authenticationData : Bytes := []
  user : List UserProperty := []
  contentType : Bytes := []
  responseTopic : Bytes := []
  assignedClientID : Bytes := []
  authenticationMethod : Bytes := []
  responseInfo : Bytes := []
  serverReference : Bytes := []
  reasonString : Bytes := []
  messageExpiryInterval : UInt32 := 0
  sessionExpiryInterval : UInt32 := 0
  willDelayInterval : UInt32 := 0
  maximumPacketSize : UInt32 := 0
  serverKeepAlive : UInt16 := 0
  receiveMaximum : UInt16 := 0
  topicAliasMaximum : UInt16 := 0
  topicAlias : UInt16 := 0
  payloadFormat : UInt8 := 0
  payloadFormatFlag : Bool := false
  sessionExpiryIntervalFlag : Bool := false
  serverKeepAliveFlag : Bool := false
  requestProblemInfo : UInt8 := 0
  requestProblemInfoFlag : Bool := false
  requestResponseInfo : UInt8 := 0
  topicAliasFlag : Bool := false
  maximumQos : UInt8 := 0
  maximumQosFlag : Bool := false
  retainAvailable : UInt8 := 0
  retainAvailableFlag : Bool := false
  wildcardSubAvailable : UInt8 := 0
  wildcardSubAvailableFlag : Bool := false
  subIDAvailable : UInt8 := 0
  subIDAvailableFlag : Bool := false
  sharedSubAvailable : UInt8 := 0
  sharedSubAvailableFlag : Bool := false
  deriving DecidableEq, Repr

structure FixedHeader where
  remaining : Nat := 0
  type : PacketType := .reserved
  qos : UInt8 := 0
  dup : Bool := false
  retain : Bool := false
  deriving DecidableEq, Repr

/-- A subscription of a client to a topic filter. `identifiers` is nil until a merge fills it. -/
structure Subscription where
  filter : Bytes := []
  identifier : Int := 0
  identifiers : Option (AList fun _ : Bytes => Int) := none
  retainHandling : UInt8 := 0
  qos : UInt8 := 0
  retainAsPublished : Bool := false
  noLocal : Bool := false
  fwdRetainedFlag : Bool := false
  deriving DecidableEq

structure ConnectParams where
  willProperties : Properties := {}
  password : Bytes := []
  username : Bytes := []
  protocolName : Bytes := []
  willPayload : Bytes := []
  clientIdentifier : Bytes := []
  willTopic : Bytes := []
  keepalive : UInt16 := 0
  passwordFlag : Bool := false
  usernameFlag : Bool := false
  willQos : UInt8 := 0
  willFlag : Bool := false
  willRetain : Bool := false
  clean : Bool := false
  deriving DecidableEq

structure Mods where
  maxSize : UInt32 := 0
  disallowProblemInfo : Bool := false
  allowResponseInfo : Bool := false
  deriving DecidableEq, Repr

structure Packet where
  connect : ConnectParams := {}
  properties : Properties := {}
  payload : Bytes := []
  reasonCodes : Bytes := []
  filters : List Subscription := []
  topicName : Bytes := []
  origin : Bytes := []
  fixedHeader : FixedHeader := {}
  created : Int := 0
  expiry : Int := 0
  mods : Mods := {}
  packetID : UInt16 := 0
  protocolVersion : UInt8 := 0
  sessionPresent : Bool := false
  reasonCode : UInt8 := 0
  reservedBit : UInt8 := 0
  ignore : Bool := false
  deriving DecidableEq

theorem le_two_cases {b : UInt8} (h : b ≤ 2) : b = 0 ∨ b = 1 ∨ b = 2 := by
  have hle : b.toNat ≤ 2 := UInt8.le_iff_toNat_le.mp h
  have hcases : b.toNat = 0 ∨ b.toNat = 1 ∨ b.toNat = 2 := by omega
  rcases hcases with h | h | h
  · exact .inl (UInt8.toNat_inj.mp h)
  · exact .inr (.inl (UInt8.toNat_inj.mp h))
  · exact .inr (.inr (UInt8.toNat_inj.mp h))

end Mqtt
