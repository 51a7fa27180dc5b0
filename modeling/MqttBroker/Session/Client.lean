import MqttBroker.Session.Inflight
import MqttBroker.Topics.Index
import MqttBroker.Wire.Encode
import MqttBroker.Wire.Validate

/-! A client as the broker keeps it, the parts of the server that its handlers
read and change, and the events that the outside sees. Time, hooks and the
network are an environment of each call. -/

namespace Mqtt
open FiniteMap

structure Capabilities where
  maximumMessageExpiryInterval : Int := 60 * 60 * 24
  maximumSessionExpiryInterval : UInt32 := 0xFFFFFFFF
  maximumClientWritesPending : Nat := 1024 * 8
  maximumPacketID : Nat := 65535
  receiveMaximum : UInt16 := 1024
  maximumInflight : UInt16 := 1024 * 8
  topicAliasMaximum : UInt16 := 65535
  minimumProtocolVersion : UInt8 := 3
  maximumQos : UInt8 := 2
  retainAvailable : UInt8 := 1
  passiveClientDisconnect : Bool := false
  alwaysReturnResponseInfo : Bool := false
  noInheritedPropertiesOnAck : Bool := false
  obscureNotAuthorized : Bool := false

structure Info where
  inflight : Int := 0
  inflightDropped : Int := 0
  messagesDropped : Int := 0
  retained : Int := 0
  subscriptions : Int := 0

/-! ### Topic aliases -/

structure InboundTopicAliases where
  maximum : UInt16 := 0
  internal : Map UInt16 Bytes := ∅

def InboundTopicAliases.set (a : InboundTopicAliases) (id : UInt16) (topic : Bytes) :
    Bytes × InboundTopicAliases :=
  if a.maximum = 0 then (topic, a)
  else
    match a.internal.lookup id with
    | some existing =>
      if topic = [] then (existing, a) else (topic, { a with internal := a.internal.insert id topic })
    | none => (topic, { a with internal := a.internal.insert id topic })

structure OutboundTopicAliases where
  maximum : UInt16 := 0
  cursor : Nat := 0
  internal : Map Bytes UInt16 := ∅

def OutboundTopicAliases.set (a : OutboundTopicAliases) (topic : Bytes) :
    (UInt16 × Bool) × OutboundTopicAliases :=
  if a.maximum = 0 then ((0, false), a)
  else
    match a.internal.lookup topic with
    | some i => ((i, true), a)
    | none =>
      if a.maximum.toNat < a.cursor + 1 then ((0, false), a)
      else
        ((UInt16.ofNat a.cursor + 1, false),
          { a with
            cursor := a.cursor + 1
            internal := a.internal.insert topic (UInt16.ofNat a.cursor + 1) })

/-! ### Clients -/

structure Will where
  payload : Bytes := []
  user : List UserProperty := []
  topicName : Bytes := []
  flag : Bool := false
  willDelayInterval : UInt32 := 0
  qos : UInt8 := 0
  retain : Bool := false

/-- A packet in the outbound queue. The topic is the one the message was published on; it is kept
for the specification and never read. -/
structure Queued where
  packet : Packet
  topic : Bytes

structure Client where
  id : Bytes := []
  remote : Bytes := []
  listener : Bytes := []
  username : Bytes := []
  props : Properties := {}
  will : Will := {}
  protocolVersion : UInt8 := 4
  clean : Bool := false
  inbound : InboundTopicAliases := {}
  outbound : OutboundTopicAliases := {}
  inflight : Inflight := .new
  subscriptions : Map Bytes Subscription := ∅
  queue : List Queued := []
  stopCause : Option Error := none
  disconnected : Int := 0
  isTakenOver : Bool := false
  packetID : Nat := 0
  closed : Bool := false
  conn : Bool := true
  inline : Bool := false

structure Shared where
  caps : Capabilities := {}
  topics : TopicsIndex := .new
  info : Info := {}
  willDelayed : Map Bytes Packet := ∅

/-- What the outside sees of a handler: packets written, messages passed to `publishToSubscribers`
and to `RetainMessage`, and hooks called. -/
inductive Event where
  | wrote (pk : Packet) (topic : Bytes)
  | writeFailed (pk : Packet) (err : Error)
  | forward (pk : Packet)
  | retain (pk : Packet)
  | published (pk : Packet)
  | qosPublish (pk : Packet)
  | qosComplete (pk : Packet)
  | qosDropped (pk : Packet)
  | publishDropped (pk : Packet)
  | packetIDExhausted (pk : Packet)
  | willSent (pk : Packet)
  | subscribed (pk : Packet) (reasonCodes : Bytes)
  | unsubscribed (pk : Packet)
  | retainPublished (pk : Packet)
  deriving DecidableEq

inductive Verdict where
  | accept (pk : Packet)
  | reject
  | ignore
  | code (c : Code)
  | other

/-- The environment of one call: the clock, the hooks, the encoder and the network, the order of
loops over maps, and the subscription under which a topic is delivered to the client itself. The
result of a network write may depend on all that happened before. -/
structure Env where
  now : Int
  onACLCheck : Bytes → Bytes → Bool → Bool
  onPublish : Packet → Verdict
  onSubscribe : Packet → Packet
  onUnsubscribe : Packet → Packet
  onAuthPacket : Packet → Option Error
  onWill : Will → Will
  encode : Packet → Except Error Nat
  send : List Event → Packet → Option Error
  order : RangeOrder
  subscription : Bytes → Option Subscription

def Env.accepting (now : Int) : Env where
  now := now
  onACLCheck _ _ _ := true
  onPublish := .accept
  onSubscribe pk := pk
  onUnsubscribe pk := pk
  onAuthPacket _ := none
  onWill will := will
  encode _ := .ok 0
  send _ _ := none
  order := ⟨fun pks => pks, fun pks => .refl pks⟩
  subscription _ := none

/-- The same with the encoder of `WritePacket`. -/
def Env.encoding (now : Int) : Env := { Env.accepting now with encode := fun pk => pk.encode.map List.length }

structure Session where
  client : Client
  server : Shared := {}
  log : List Event := []

namespace Session

def emit (s : Session) (e : Event) : Session := { s with log := s.log ++ [e] }

def onInflight (s : Session) (f : Inflight → Inflight) : Session :=
  { s with client := { s.client with inflight := f s.client.inflight } }

def countInflight (s : Session) (n : Int) : Session :=
  { s with server := { s.server with info := { s.server.info with inflight := s.server.info.inflight + n } } }

variable (s : Session) (e : Event) (f : Inflight → Inflight) (n : Int)

@[simp] theorem emit_client : (s.emit e).client = s.client := rfl
@[simp] theorem emit_server : (s.emit e).server = s.server := rfl
@[simp] theorem emit_log : (s.emit e).log = s.log ++ [e] := rfl
@[simp] theorem onInflight_client :
    (s.onInflight f).client = { s.client with inflight := f s.client.inflight } := rfl
@[simp] theorem onInflight_server : (s.onInflight f).server = s.server := rfl
theorem onInflight_of_eq {s : Session} {f : Inflight → Inflight} (h : f s.client.inflight = s.client.inflight) :
    s.onInflight f = s := by
  unfold onInflight
  dsimp only
  rw [h]

end Session

/-! ### Packet ids -/

/-- The loop of `nextPacketID`. From a cursor of at most `maximumPacketID` the second overflow is
not reached: the cursor is met before it. -/
def nextPacketIDLoop (f : Inflight) (now : Int) (maximumPacketID started : Nat) (max : Int) (i : Nat)
    (overflowed : Bool) : Option Nat × Inflight :=
  if overflowed && i == started then (none, f)
  else if maximumPacketID ≤ i then
    match overflowed with
    | true => (none, f)
    | false => nextPacketIDLoop f now maximumPacketID started max 0 true
  else
    match f.tryReserve now (UInt16.ofNat (i + 1)) max with
    | (.ok, f') => (some (i + 1), f')
    | (.full, _) => (none, f)
    | (.idTaken, _) => nextPacketIDLoop f now maximumPacketID started max (i + 1) overflowed
termination_by (!overflowed).toNat * (maximumPacketID + 1) + (maximumPacketID - i)

theorem nextPacketIDLoop_cases (f : Inflight) (now : Int) (maximumPacketID started : Nat) (max : Int) (i : Nat)
    (overflowed : Bool) :
    nextPacketIDLoop f now maximumPacketID started max i overflowed = (none, f) ∨
      ∃ j, f.get (UInt16.ofNat j) = none ∧
        nextPacketIDLoop f now maximumPacketID started max i overflowed =
          (some j, f.put (Inflight.reservation now (UInt16.ofNat j))) := by
  fun_induction nextPacketIDLoop f now maximumPacketID started max i overflowed with
  | case1 | case2 => exact .inl rfl
  | case3 _ _ _ ih => exact ih
  | case4 i _ _ _ f' hreserve =>
    obtain ⟨hfree, rfl⟩ := f.tryReserve_ok hreserve
    exact .inr ⟨i + 1, hfree, rfl⟩
  | case5 => exact .inl rfl
  | case6 _ _ _ _ _ _ ih => exact ih

def Session.nextPacketID (env : Env) (s : Session) (max : Int) : Option Nat × Session :=
  match nextPacketIDLoop s.client.inflight env.now s.server.caps.maximumPacketID s.client.packetID max
    s.client.packetID false with
  | (some i, f) => (some i, { s with client := { s.client with packetID := i, inflight := f } })
  | (none, f) => (none, { s with client := { s.client with inflight := f } })

/-! ### Writing -/

/-- The packet as `WritePacket` encodes it. -/
def Session.outgoing (env : Env) (s : Session) (pk : Packet) : Packet :=
  let props := s.client.props
  { pk with
    properties :=
      if 0 < pk.expiry then
        { pk.properties with messageExpiryInterval := UInt32.ofNat (max 1 (pk.expiry - env.now)).toNat }
      else pk.properties
    protocolVersion := s.client.protocolVersion
    mods :=
      { maxSize := if pk.mods.maxSize = 0 then props.maximumPacketSize else pk.mods.maxSize
        disallowProblemInfo := pk.mods.disallowProblemInfo ||
          (props.requestProblemInfoFlag && props.requestProblemInfo == 0)
        allowResponseInfo := pk.mods.allowResponseInfo || (pk.fixedHeader.type != .connack ||
          props.requestResponseInfo == 1 || s.server.caps.alwaysReturnResponseInfo) } }

def writeError (env : Env) (log : List Event) (out : Packet) : Option Error :=
  match env.encode out with
  | .error err => some err
  | .ok len =>
    if 0 < out.mods.maxSize && out.mods.maxSize < UInt32.ofNat len then some (.code .packetTooLarge)
    else env.send log out

namespace Session

/-- `WritePacket` of a message published on a topic. -/
def writePacketOn (env : Env) (s : Session) (topic : Bytes) (pk : Packet) : Option Error × Session :=
  if s.client.closed then (some .connectionClosed, s.emit (.writeFailed pk .connectionClosed))
  else if !s.client.conn then (none, s)
  else
    match writeError env s.log (s.outgoing env pk) with
    | some err => (some err, s.emit (.writeFailed (s.outgoing env pk) err))
    | none => (none, s.emit (.wrote (s.outgoing env pk) topic))

def writePacket (env : Env) (s : Session) (pk : Packet) : Option Error × Session :=
  s.writePacketOn env pk.topicName pk

def Fails (env : Env) (s : Session) (pk : Packet) : Prop :=
  s.client.closed = true ∨ ∃ log err, writeError env log (s.outgoing env pk) = some err

theorem writeError_accepting (now : Int) (log : List Event) (out : Packet) :
    writeError (.accepting now) log out = none := by
  show (if 0 < out.mods.maxSize && out.mods.maxSize < UInt32.ofNat 0 then _ else none) = none
  refine if_neg ?_
  rw [Bool.and_eq_true, decide_eq_true_eq, decide_eq_true_eq]
  exact fun hsize => absurd hsize.2 UInt32.not_lt_zero

theorem not_fails_accepting {s : Session} {now : Int} (h : s.client.closed = false) (pk : Packet) :
    ¬ Fails (.accepting now) s pk := by
  rintro (hclosed | ⟨log, err, herr⟩)
  · rw [h] at hclosed
    cases hclosed
  · rw [writeError_accepting] at herr
    cases herr

/-- What a packet takes to be written where the network takes all it is given. -/
instance (now : Int) (s : Session) (pk : Packet) : Decidable (Fails (.encoding now) s pk) :=
  decidable_of_iff
    (s.client.closed = true ∨ (writeError (.encoding now) [] (s.outgoing (.encoding now) pk)).isSome = true)
    (or_congr_right
      ⟨fun h => ⟨[], Option.isSome_iff_exists.mp h⟩, fun ⟨_, h⟩ => Option.isSome_iff_exists.mpr h⟩)

theorem writePacketOn_cases (env : Env) (s : Session) (topic : Bytes) (pk : Packet) :
    (s.client.closed = false ∧ s.client.conn = true ∧
        s.writePacketOn env topic pk = (none, s.emit (.wrote (s.outgoing env pk) topic))) ∨
      (s.client.closed = false ∧ s.client.conn = false ∧ s.writePacketOn env topic pk = (none, s)) ∨
      Fails env s pk ∧ ∃ out err, s.writePacketOn env topic pk = (some err, s.emit (.writeFailed out err)) := by
  unfold writePacketOn
  cases hclosed : s.client.closed with
  | true => exact .inr (.inr ⟨.inl hclosed, _, _, rfl⟩)
  | false =>
    cases hconn : s.client.conn with
    | false => exact .inr (.inl ⟨rfl, rfl, rfl⟩)
    | true =>
      cases hw : writeError env s.log (s.outgoing env pk) with
      | none => exact .inl ⟨rfl, rfl, rfl⟩
      | some err => exact .inr (.inr ⟨.inr ⟨_, err, hw⟩, _, err, rfl⟩)

theorem writePacketOn_eq_none_iff (env : Env) (s : Session) (topic : Bytes) (pk : Packet) :
    (s.writePacketOn env topic pk).1 = none ↔ ¬ (s.client.closed = true ∨
      s.client.conn = true ∧ writeError env s.log (s.outgoing env pk) ≠ none) := by
  unfold writePacketOn
  cases s.client.closed with
  | true => simp
  | false =>
    cases s.client.conn with
    | false => simp
    | true =>
      cases writeError env s.log (s.outgoing env pk) <;> simp

variable (s : Session) (env : Env) (topic : Bytes) (pk : Packet)

@[simp] theorem writePacketOn_client : (s.writePacketOn env topic pk).2.client = s.client := by
  obtain ⟨-, -, h⟩ | ⟨-, -, h⟩ | ⟨-, _, _, h⟩ := writePacketOn_cases env s topic pk <;> rw [h] <;> rfl

@[simp] theorem writePacketOn_server : (s.writePacketOn env topic pk).2.server = s.server := by
  obtain ⟨-, -, h⟩ | ⟨-, -, h⟩ | ⟨-, _, _, h⟩ := writePacketOn_cases env s topic pk <;> rw [h] <;> rfl

@[simp] theorem writePacket_client : (s.writePacket env pk).2.client = s.client :=
  writePacketOn_client s env _ pk

@[simp] theorem writePacket_server : (s.writePacket env pk).2.server = s.server :=
  writePacketOn_server s env _ pk

/-- `Stop`, which only the first call carries out. -/
def stop (env : Env) (s : Session) (err : Option Error) : Session :=
  if s.client.closed then s
  else
    { s with client := { s.client with closed := true, stopCause := err, disconnected := env.now } }

@[simp] theorem stop_log (env : Env) (s : Session) (err : Option Error) : (s.stop env err).log = s.log := by
  unfold stop
  split <;> rfl

theorem closed_stop (env : Env) (s : Session) (err : Option Error) : (s.stop env err).client.closed = true := by
  unfold stop
  split
  · rename_i h
    exact h
  · rfl

def buildAck (env : Env) (s : Session) (packetID : UInt16) (pkt : PacketType) (qos : UInt8)
    (properties : Properties) (reason : Code) : Packet :=
  let properties := if s.server.caps.noInheritedPropertiesOnAck then {} else properties
  { fixedHeader := { type := pkt, qos := qos }
    packetID := packetID
    reasonCode := reason.code
    properties :=
      if reason.isError then { properties with reasonString := reason.reason.toUTF8.toList }
      else properties
    created := env.now
    expiry := env.now + s.server.caps.maximumMessageExpiryInterval }

section Ack
variable (packetID : UInt16) (pkt : PacketType) (qos : UInt8) (properties : Properties) (reason : Code)

@[simp] theorem buildAck_fixedHeader :
    (s.buildAck env packetID pkt qos properties reason).fixedHeader = { type := pkt, qos := qos } := rfl

@[simp] theorem buildAck_packetID : (s.buildAck env packetID pkt qos properties reason).packetID = packetID := rfl

@[simp] theorem buildAck_expiry : (s.buildAck env packetID pkt qos properties reason).expiry =
    env.now + s.server.caps.maximumMessageExpiryInterval := rfl

end Ack

end Session
end Mqtt
