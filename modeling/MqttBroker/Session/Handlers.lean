import MqttBroker.Session.Deliver
import MqttBroker.Topics.Messages

/-! The handlers of the packets of a session. `receivePublish` is `processPublish`
up to the point where an accepted message is passed to `publishToSubscribers`. -/

namespace Mqtt
open FiniteMap
namespace Session

def disconnectPacket (code : Code) : Packet :=
  { fixedHeader := { type := .disconnect }
    reasonCode := code.code
    properties := if code.isError then { reasonString := code.reason.toUTF8.toList } else {} }

def disconnectClient (env : Env) (s : Session) (code : Code) : Option Error × Session :=
  let (err, s) := s.writePacket env (disconnectPacket code)
  if s.server.caps.passiveClientDisconnect then (err, s)
  else (if code.isError then some (.code code) else err, s.stop env (some (.code code)))

variable {P : Session → Prop} {env : Env} {s : Session} {pk : Packet}

theorem disconnectClient_invariant {code : Code}
    (hwrite : P (s.writePacket env (disconnectPacket code)).2)
    (hstop : ∀ {t}, P t → P (t.stop env (some (.code code)))) : P (s.disconnectClient env code).2 := by
  unfold disconnectClient
  dsimp only
  split
  · exact hwrite
  · exact hstop hwrite

def retainMessage (s : Session) (pk : Packet) : Session :=
  if s.server.caps.retainAvailable = 0 ∨ pk.ignore then s
  else
    let topics := (s.server.topics.retainMessage (pk.copy false)).2
    let info := { s.server.info with retained := size topics.retained }
    { s with server := { s.server with topics := topics, info := info } }.emit (.retain (pk.copy false))

/-- `publishToSubscribers` as far as it delivers to the client itself. -/
def publishToSubscribers (env : Env) (s : Session) (pk : Packet) : Session :=
  let s := s.emit (.forward pk)
  if pk.ignore then s
  else
    let pk := if pk.created = 0 then { pk with created := env.now } else pk
    let expiry := minimum s.server.caps.maximumMessageExpiryInterval pk.properties.messageExpiryInterval.toNat
    let pk := if pk.expiry = 0 ∧ 0 < expiry then { pk with expiry := pk.created + expiry } else pk
    match env.subscription pk.topicName with
    | some sub => (s.publishToClient env sub pk).2
    | none => s

theorem publishToSubscribers_invariant
    (hforward : P (s.emit (.forward pk)))
    (hdeliver : ∀ {sub q}, q.fixedHeader = pk.fixedHeader → P ((s.emit (.forward pk)).publishToClient env sub q).2) :
    P (s.publishToSubscribers env pk) := by
  unfold publishToSubscribers
  dsimp only
  split
  · exact hforward
  · split
    · apply hdeliver
      split <;> split <;> rfl
    · exact hforward

/-! ### PUBLISH -/

inductive PublishResult where
  | returned (err : Option Error) (s : Session)
  | accepted (pk : Packet) (s : Session)

def PublishResult.session : PublishResult → Session
  | .returned _ s => s
  | .accepted _ s => s

def answer (env : Env) (s : Session) (ack : Packet) : PublishResult :=
  let (err, s) := s.writePacket env ack
  .returned err s

def refusePublish (env : Env) (s : Session) (pk : Packet) : PublishResult :=
  if pk.fixedHeader.qos = 0 then .returned none s
  else if s.client.protocolVersion ≠ 5 then
    let (err, s) := s.disconnectClient env .notAuthorized
    .returned err s
  else
    let ackType := if pk.fixedHeader.qos = 2 then .pubrec else .puback
    s.answer env (s.buildAck env pk.packetID ackType 0 pk.properties .notAuthorized)

def stamp (env : Env) (s : Session) (pk : Packet) : Packet :=
  let expiry := minimum s.server.caps.maximumMessageExpiryInterval pk.properties.messageExpiryInterval.toNat
  { pk with
    origin := s.client.id
    created := env.now
    expiry := if 0 < expiry then env.now + expiry else pk.expiry }

def resolveAlias (s : Session) (pk : Packet) : Packet × Session :=
  if pk.properties.topicAliasFlag && 0 < pk.properties.topicAlias then
    let (topic, inbound) := s.client.inbound.set pk.properties.topicAlias pk.topicName
    ({ pk with topicName := topic }, { s with client := { s.client with inbound := inbound } })
  else (pk, s)

def capQos (s : Session) (pk : Packet) : Packet :=
  if s.server.caps.maximumQos < pk.fixedHeader.qos then
    { pk with fixedHeader := { pk.fixedHeader with qos := s.server.caps.maximumQos } }
  else pk

def blocksPublish (existing : Packet) : Bool :=
  existing.fixedHeader.type == .publish || existing.fixedHeader.type == .pubrec ||
    existing.expiry == inflightExpiryDeferred || existing.expiry == inflightExpiryReserved

def storePubrec (s : Session) (ack : Packet) : Session :=
  if (s.client.inflight.set ack).1 then
    ((s.onInflight fun f => f.put ack).countInflight 1).emit (.qosPublish ack)
  else s.onInflight fun f => f.put ack

def completePuback (s : Session) (ack pk : Packet) : Session :=
  let ack :=
    if ack.payload.length = 0 then
      { ack with payload := pk.payload, topicName := pk.topicName, origin := pk.origin }
    else ack
  (s.onInflight fun f => f.increaseReceiveQuota.2).emit (.qosComplete ack)

def publishAck (env : Env) (s : Session) (pk : Packet) : Packet :=
  let ackType := if pk.fixedHeader.qos = 2 then .pubrec else .puback
  (s.buildAck env pk.packetID ackType 0 pk.properties .success).fillFrom pk

def isBlocked (s : Session) (pk : Packet) : Bool :=
  pk.fixedHeader.qos == 2 && (s.client.inflight.get pk.packetID).any blocksPublish

def recordPublish (env : Env) (s : Session) (pk ack : Packet) : PublishResult :=
  let s := if pk.fixedHeader.qos = 2 then s.storePubrec ack else s
  match s.writePacket env ack with
  | (some err, s) => .returned (some err) s
  | (none, s) => .accepted pk (if pk.fixedHeader.qos = 1 then s.completePuback ack pk else s)

def acknowledgePublish (env : Env) (s : Session) (pk : Packet) : PublishResult :=
  let s := s.onInflight fun f => f.decreaseReceiveQuota.2
  if s.isBlocked pk then
    let ack := s.buildAck env pk.packetID .pubrec 0 pk.properties .packetIdentifierInUse
    (s.onInflight fun f => f.increaseReceiveQuota.2).answer env ack
  else s.recordPublish env pk (s.publishAck env pk)

/-- A message that `OnPublish` lets pass. -/
def acceptPublish (env : Env) (s : Session) (pk : Packet) : PublishResult :=
  let s := if pk.fixedHeader.retain then s.retainMessage pk else s
  if pk.fixedHeader.qos = 0 || s.client.inline then .accepted pk s
  else s.acknowledgePublish env pk

/-- What follows from the verdict of `OnPublish`. -/
def judgePublish (env : Env) (s : Session) (pk : Packet) : PublishResult :=
  match env.onPublish pk with
  | .accept pkx => s.acceptPublish env pkx
  | .reject => .returned none s
  | .ignore => s.acceptPublish env { pk with ignore := true }
  | .code c =>
    if s.client.protocolVersion = 5 && 0 < pk.fixedHeader.qos then
      s.answer env (s.buildAck env pk.packetID .puback 0 pk.properties c)
    else s.acceptPublish env pk
  | .other => s.acceptPublish env pk

/-- `processPublish` up to `publishToSubscribers`. -/
def receivePublish (env : Env) (s : Session) (pk : Packet) : PublishResult :=
  if !s.client.inline && !isValidFilter pk.topicName true then .returned none s
  else if s.client.inflight.receiveQuota = 0 then
    let (err, s) := s.disconnectClient env .receiveMaximum
    .returned err s
  else if !s.client.inline && !env.onACLCheck s.client.id pk.topicName true then s.refusePublish env pk
  else
    let pk := s.stamp env pk
    if !s.client.inline && (s.client.inflight.get pk.packetID).any fun pki => pki.fixedHeader.type == .pubrec then
      s.answer env (s.buildAck env pk.packetID .pubrec 0 pk.properties .packetIdentifierInUse)
    else
      let (pk, s) := s.resolveAlias pk
      s.judgePublish env (s.capQos pk)

def processPublish (env : Env) (s : Session) (pk : Packet) : Option Error × Session :=
  match s.receivePublish env pk with
  | .returned err s => (err, s)
  | .accepted pk s => (none, (s.publishToSubscribers env pk).emit (.published pk))

theorem processPublish_invariant
    (hreceived : P (s.receivePublish env pk).session)
    (hpassed : ∀ {q t}, s.receivePublish env pk = .accepted q t → P t →
      P ((t.publishToSubscribers env q).emit (.published q))) : P (s.processPublish env pk).2 := by
  unfold processPublish
  cases hret : s.receivePublish env pk with
  | returned err t =>
    rw [hret] at hreceived
    exact hreceived
  | accepted q t =>
    rw [hret] at hreceived
    exact hpassed hret hreceived

/-! ### Acknowledgements -/

def processPuback (s : Session) (pk : Packet) : Option Error × Session :=
  match s.client.inflight.get pk.packetID with
  | none => (none, s)
  | some inflightPk =>
    if inflightPk.expiry = inflightExpiryReserved then (none, s.onInflight fun f => f.remove pk.packetID)
    else
      let s := s.onInflight fun f => (f.remove pk.packetID).increaseSendQuota.2
      (none, (s.countInflight (-1)).emit (.qosComplete (pk.fillFrom inflightPk)))

def dropExchange (s : Session) (pk inflightPk : Packet) : Session :=
  ((s.onInflight fun f => f.remove pk.packetID).countInflight (-1)).emit (.qosDropped (pk.fillFrom inflightPk))

def processPubrec (env : Env) (s : Session) (pk : Packet) : Option Error × Session :=
  match s.client.inflight.get pk.packetID with
  | none => s.writePacket env (s.buildAck env pk.packetID .pubrel 1 pk.properties .packetIdentifierNotFound)
  | some inflightPk =>
    if pk.endsFlow then (none, s.dropExchange pk inflightPk)
    else
      let ack := (s.buildAck env pk.packetID .pubrel 1 pk.properties .success).fillFrom inflightPk
      (s.onInflight fun f => f.decreaseReceiveQuota.2.put ack).writePacket env ack

def processPubrel (env : Env) (s : Session) (pk : Packet) : Option Error × Session :=
  match s.client.inflight.get pk.packetID with
  | none => s.writePacket env (s.buildAck env pk.packetID .pubcomp 0 pk.properties .packetIdentifierNotFound)
  | some inflightPk =>
    if pk.endsFlow then (none, s.dropExchange pk inflightPk)
    else
      let ack := (s.buildAck env pk.packetID .pubcomp 0 pk.properties .success).fillFrom inflightPk
      match (s.onInflight fun f => f.put ack).writePacket env ack with
      | (some err, s) => (some err, s)
      | (none, s) =>
        let s := s.onInflight fun f => f.increaseReceiveQuota.2.increaseSendQuota.2.remove pk.packetID
        (none, (s.countInflight (-1)).emit (.qosComplete (pk.fillFrom inflightPk)))

def processPubcomp (s : Session) (pk : Packet) : Option Error × Session :=
  let s := s.onInflight fun f => f.increaseReceiveQuota.2.increaseSendQuota.2
  match s.client.inflight.get pk.packetID with
  | none => (none, s)
  | some inflightPk =>
    let s := (s.onInflight fun f => f.remove pk.packetID).countInflight (-1)
    (none, s.emit (.qosComplete (pk.fillFrom inflightPk)))

def processPingreq (env : Env) (s : Session) : Option Error × Session :=
  s.writePacket env { fixedHeader := { type := .pingresp } }

end Session
end Mqtt
