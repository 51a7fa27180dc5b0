import MqttBroker.Session.Handlers

/-! SUBSCRIBE, UNSUBSCRIBE, AUTH, DISCONNECT and a second CONNECT, and the
dispatch of `processPacket`. -/

namespace Mqtt
open FiniteMap
namespace Session

/-! ### Subscriptions -/

/-- Add a subscription to the index and to the client: whether it existed, and the session after it. -/
def addSubscription (s : Session) (sub : Subscription) : Bool × Session :=
  let (isNew, topics) := s.server.topics.subscribe s.client.id sub
  let subscriptions := s.server.info.subscriptions + if isNew then 1 else 0
  (!isNew,
    { s with
      server := { s.server with topics := topics, info := { s.server.info with subscriptions := subscriptions } }
      client := { s.client with subscriptions := s.client.subscriptions.insert sub.filter sub } })

def subscribeFilter (env : Env) (s : Session) (code : Code) (sub : Subscription) : UInt8 × Bool × Session :=
  let forVersion := fun r : UInt8 =>
    if Code.grantedQos2.code < r && s.client.protocolVersion < 5 then Code.unspecifiedError.code else r
  if code ≠ .success then (code.code, false, s)
  else if !isValidFilter sub.filter false then (forVersion Code.topicFilterInvalid.code, false, s)
  else if sub.noLocal && isSharedFilter sub.filter then
    (forVersion Code.protocolViolationInvalidSharedNoLocal.code, false, s)
  else if !env.onACLCheck s.client.id sub.filter false then
    let denied := if s.server.caps.obscureNotAuthorized then Code.unspecifiedError else Code.notAuthorized
    (forVersion denied.code, false, s)
  else
    let (existed, s) := s.addSubscription sub
    (forVersion (min sub.qos s.server.caps.maximumQos), existed, s)

def subscribeFilters (env : Env) (code : Code) : Session → List Subscription →
    List (Subscription × UInt8 × Bool) × Session
  | s, [] => ([], s)
  | s, sub :: subs =>
    let (reason, existed, s) := s.subscribeFilter env code sub
    let (rest, s) := subscribeFilters env code s subs
    ((sub, reason, existed) :: rest, s)

def publishRetainedToClient (env : Env) (s : Session) (sub : Subscription) (existed : Bool) : Session :=
  if isSharedFilter sub.filter then s
  else if (sub.retainHandling = 1 && existed) || sub.retainHandling = 2 then s
  else
    (s.server.topics.messages sub.filter).foldl (fun s pkv =>
      match s.publishToClient env { sub with fwdRetainedFlag := true } pkv with
      | (some _, s) => s
      | (none, s) => s.emit (.retainPublished pkv)) s

variable {P : Session → Prop} {env : Env} {s : Session} {pk : Packet}

theorem publishRetainedToClient_invariant {sub : Subscription}
    (hdeliver : ∀ {t pkv}, P t → pkv ∈ s.server.topics.messages sub.filter →
      P (t.publishToClient env { sub with fwdRetainedFlag := true } pkv).2)
    (hpublished : ∀ {t} pkv, P t → P (t.emit (.retainPublished pkv))) (h : P s) (existed : Bool) :
    P (s.publishRetainedToClient env sub existed) := by
  unfold publishRetainedToClient
  split
  · exact h
  · split
    · exact h
    · refine List.foldlRecOn _ _ h fun t ht pkv hpkv => ?_
      have hsent := hdeliver ht hpkv
      split
      · rename_i heq
        rwa [heq] at hsent
      · rename_i heq
        rw [heq] at hsent
        exact hpublished pkv hsent

def requestCode (s : Session) (pk : Packet) : Code :=
  if (s.client.inflight.get pk.packetID).isSome then .packetIdentifierInUse else .success

def requestAck (pk : Packet) (pkt : PacketType) (code : Code) (reasonCodes : Bytes) : Packet :=
  { fixedHeader := { type := pkt }
    packetID := pk.packetID
    reasonCodes := reasonCodes
    properties :=
      { user := pk.properties.user
        reasonString := if code.isError then code.reason.toUTF8.toList else [] } }

def processSubscribe (env : Env) (s : Session) (pk : Packet) : Option Error × Session :=
  let pk := env.onSubscribe pk
  let code := s.requestCode pk
  let (results, s) := subscribeFilters env code s pk.filters
  let reasonCodes := results.map fun r => r.2.1
  match (s.emit (.subscribed pk reasonCodes)).writePacket env (requestAck pk .suback code reasonCodes) with
  | (some err, s) => (some err, s)
  | (none, s) =>
    (none, results.foldl (fun s r =>
      if Code.unspecifiedError.code ≤ r.2.1 then s else s.publishRetainedToClient env r.1 r.2.2) s)

def unsubscribeFilters (code : Code) : Session → List Subscription → Bytes × Session
  | s, [] => ([], s)
  | s, sub :: subs =>
    if code ≠ .success then
      let (rest, s) := unsubscribeFilters code s subs
      (code.code :: rest, s)
    else
      let (existed, topics) := s.server.topics.unsubscribe sub.filter s.client.id
      let subscriptions := s.server.info.subscriptions - if existed then 1 else 0
      let reason := if existed then Code.success.code else Code.noSubscriptionExisted.code
      let (rest, s) := unsubscribeFilters code
        { s with
          server := { s.server with
            topics := topics, info := { s.server.info with subscriptions := subscriptions } }
          client := { s.client with subscriptions := s.client.subscriptions.erase sub.filter } } subs
      (reason :: rest, s)

def processUnsubscribe (env : Env) (s : Session) (pk : Packet) : Option Error × Session :=
  let code := s.requestCode pk
  let pk := env.onUnsubscribe pk
  let (reasonCodes, s) := unsubscribeFilters code s pk.filters
  (s.emit (.unsubscribed pk)).writePacket env (requestAck pk .unsuback code reasonCodes)

/-! ### Wills and disconnection -/

def willMessage (env : Env) (s : Session) : Packet :=
  let will := env.onWill s.client.will
  { fixedHeader := { type := .publish, retain := will.retain, qos := will.qos }
    topicName := will.topicName
    payload := will.payload
    properties := { user := will.user }
    origin := s.client.id
    created := env.now }

def sendLWT (env : Env) (s : Session) : Session :=
  if !s.client.will.flag then s
  else
    let pk := s.willMessage env
    let delay := s.client.will.willDelayInterval
    if 0 < delay then
      let pk := { pk with
        connect := { pk.connect with
          willProperties := { pk.connect.willProperties with willDelayInterval := delay } }
        expiry := env.now + delay.toNat }
      { s with server := { s.server with willDelayed := s.server.willDelayed.insert s.client.id pk } }
    else
      let s := if pk.fixedHeader.retain then s.retainMessage pk else s
      let s := s.publishToSubscribers env pk
      { s with client := { s.client with will := { s.client.will with flag := false } } }.emit (.willSent pk)

def processConnect (env : Env) (s : Session) : Option Error × Session :=
  (some (.code .protocolViolationSecondConnect), s.sendLWT env)

def processDisconnect (env : Env) (s : Session) (pk : Packet) : Option Error × Session :=
  let expiry := pk.properties.sessionExpiryInterval
  if pk.properties.sessionExpiryIntervalFlag && (0 < expiry && s.client.props.sessionExpiryInterval == 0) then
    (some (.code .protocolViolationZeroNonZeroExpiry), s)
  else
    let s :=
      if pk.properties.sessionExpiryIntervalFlag then
        { s with client := { s.client with props := { s.client.props with
          sessionExpiryInterval := expiry, sessionExpiryIntervalFlag := true } } }
      else s
    if pk.reasonCode = Code.disconnectWillMessage.code then (some (.code .disconnectWillMessage), s)
    else
      let s := { s with server := { s.server with willDelayed := s.server.willDelayed.erase s.client.id } }
      (none, s.stop env (some (.code .disconnected)))

theorem processDisconnect_invariant (h : P s)
    (hprops : ∀ props, P { s with client := { s.client with props := props } })
    (hstop : ∀ {t}, P t → P ({ t with
      server := { t.server with willDelayed := t.server.willDelayed.erase t.client.id } }.stop env
        (some (.code .disconnected)))) : P (s.processDisconnect env pk).2 := by
  unfold processDisconnect
  dsimp only
  split
  · exact h
  · split
    · split
      · exact hprops _
      · exact h
    · refine hstop ?_
      split
      · exact hprops _
      · exact h

/-! ### Dispatch -/

def validated (code : Code) (s : Session) (handler : Option Error × Session) : Option Error × Session :=
  if code ≠ .success then (some (.code code), s) else handler

def handle (env : Env) (s : Session) (pk : Packet) : Option Error × Session :=
  match pk.fixedHeader.type with
  | .connect => s.processConnect env
  | .disconnect => s.processDisconnect env pk
  | .pingreq => s.processPingreq env
  | .publish =>
    validated (pk.publishValidate s.server.caps.topicAliasMaximum) s (s.processPublish env pk)
  | .puback => s.processPuback pk
  | .pubrec => s.processPubrec env pk
  | .pubrel => s.processPubrel env pk
  | .pubcomp => s.processPubcomp pk
  | .subscribe => validated pk.subscribeValidate s (s.processSubscribe env pk)
  | .unsubscribe => validated pk.unsubscribeValidate s (s.processUnsubscribe env pk)
  | .auth => validated pk.authValidate s (env.onAuthPacket pk, s)
  | t => (some (.invalidPacketType t), s)

def processPacket (env : Env) (s : Session) (pk : Packet) : Option Error × Session :=
  match s.handle env pk with
  | (some err, s) => (some err, s)
  | (none, s) => s.resumeDeferredPublishes env

theorem processPacket_invariant
    (hhandled : P (s.handle env pk).2) (hresume : ∀ {t}, P t → P (t.resumeDeferredPublishes env).2) :
    P (s.processPacket env pk).2 := by
  unfold processPacket
  generalize s.handle env pk = handled at hhandled
  obtain ⟨_ | err, t⟩ := handled
  · exact hresume hhandled
  · exact hhandled

end Session
end Mqtt
