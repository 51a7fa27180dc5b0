import MqttBroker.Session.Requests

/-! Connections: a new client and its CONNECT, the session that it takes over,
the CONNACK, and the ends of a session and of a connection. -/

namespace Mqtt
open FiniteMap

def Client.new (caps : Capabilities) : Client :=
  { inbound := { maximum := caps.topicAliasMaximum }
    outbound := { maximum := caps.topicAliasMaximum } }

def Packet.will (pk : Packet) : Will :=
  let delay := pk.connect.willProperties.willDelayInterval
  { qos := pk.connect.willQos
    retain := pk.connect.willRetain
    payload := pk.connect.willPayload
    topicName := pk.connect.willTopic
    willDelayInterval :=
      if pk.properties.sessionExpiryIntervalFlag && pk.properties.sessionExpiryInterval < delay then
        pk.properties.sessionExpiryInterval
      else delay
    user := pk.connect.willProperties.user
    flag := true }

def Packet.clientProps (pk : Packet) (caps : Capabilities) (assigned : Bytes) : Properties :=
  let props := pk.properties.copy false
  { props with
    receiveMaximum :=
      if caps.maximumInflight < props.receiveMaximum then caps.maximumInflight else props.receiveMaximum
    assignedClientID := if pk.connect.clientIdentifier = [] then assigned else props.assignedClientID }

def Client.parseConnect (cl : Client) (caps : Capabilities) (assigned : Bytes) (pk : Packet) : Client :=
  let props := pk.clientProps caps assigned
  let sendQuota := if 5 ≤ pk.protocolVersion then props.receiveMaximum else caps.receiveMaximum
  { cl with
    protocolVersion := pk.protocolVersion
    username := pk.connect.username
    clean := pk.connect.clean
    props := props
    id := if pk.connect.clientIdentifier = [] then assigned else pk.connect.clientIdentifier
    inflight := (cl.inflight.resetReceiveQuota caps.receiveMaximum.toNat).resetSendQuota sendQuota.toNat
    outbound := { maximum := props.topicAliasMaximum }
    will := if pk.connect.willFlag then pk.will else cl.will }

def Client.validateConnect (cl : Client) (caps : Capabilities) (pk : Packet) : Code :=
  if pk.connectValidate ≠ .success then pk.connectValidate
  else if cl.protocolVersion < 5 && !pk.connect.clean && pk.connect.clientIdentifier == [] then .unspecifiedError
  else if cl.protocolVersion < caps.minimumProtocolVersion then .unsupportedProtocolVersion
  else if caps.maximumQos < cl.will.qos then .qosNotSupported
  else if cl.will.retain && caps.retainAvailable == 0 then .retainNotSupported
  else .success

namespace Session

def connackProps (s : Session) : Properties :=
  let caps := s.server.caps
  let props := s.client.props
  { receiveMaximum := caps.receiveMaximum
    maximumQos := if caps.maximumQos < 2 then caps.maximumQos else 0
    maximumQosFlag := caps.maximumQos < 2
    assignedClientID := props.assignedClientID
    sessionExpiryInterval :=
      if caps.maximumSessionExpiryInterval < props.sessionExpiryInterval then caps.maximumSessionExpiryInterval
      else 0
    sessionExpiryIntervalFlag := caps.maximumSessionExpiryInterval < props.sessionExpiryInterval }

def capSessionExpiry (s : Session) : Session :=
  let limit := s.server.caps.maximumSessionExpiryInterval
  if limit < s.client.props.sessionExpiryInterval then
    { s with client := { s.client with props := { s.client.props with
      sessionExpiryInterval := limit, sessionExpiryIntervalFlag := true } } }
  else s

def sendConnack (env : Env) (s : Session) (reason : Code) (present : Bool) : Option Error × Session :=
  if reason.isError then
    let reason := if s.client.protocolVersion < 5 then reason.forV3 else reason
    s.writePacket env
      { fixedHeader := { type := .connack }
        reasonCode := reason.code
        properties :=
          { receiveMaximum := s.server.caps.receiveMaximum
            reasonString := reason.reason.toUTF8.toList } }
  else
    s.capSessionExpiry.writePacket env
      { fixedHeader := { type := .connack }
        sessionPresent := present
        reasonCode := reason.code
        properties := s.connackProps }

def acceptance (s : Session) (present : Bool) : Packet :=
  { fixedHeader := { type := .connack }
    sessionPresent := present
    reasonCode := Code.success.code
    properties := s.connackProps }

/-! ### The end of a session -/

def unsubscribeOne (s : Session) (filter : Bytes) : Session :=
  let (existed, topics) := s.server.topics.unsubscribe filter s.client.id
  let subscriptions := s.server.info.subscriptions - if existed then 1 else 0
  { s with server := { s.server with topics := topics, info := { s.server.info with subscriptions := subscriptions } } }

def unsubscribeClient (s : Session) : Session :=
  let filters := s.client.subscriptions.entries
  let s := { s with client := { s.client with subscriptions := ∅ } }
  if s.client.isTakenOver then s
  else
    (filters.foldl (fun s e => s.unsubscribeOne e.1) s).emit
      (.unsubscribed { fixedHeader := { type := .unsubscribe }, filters := filters.map Sigma.snd })

def clearInflight (s : Session) (tk : Packet) : Session :=
  if (s.client.inflight.delete tk.packetID).1 then
    let s := (s.onInflight fun f => f.remove tk.packetID).emit (.qosDropped tk)
    if tk.expiry ≠ inflightExpiryReserved then s.countInflight (-1) else s
  else s

def clearInflights (env : Env) (s : Session) : Session :=
  (s.client.inflight.getAll env.order false).foldl clearInflight s

variable {P : Session → Prop} {s : Session}

theorem clearInflights_invariant {env : Env}
    (hcleared : ∀ {s tk}, P s → s.client.inflight.get tk.packetID = some tk →
      P (if tk.expiry ≠ inflightExpiryReserved then
          ((s.onInflight fun f => f.remove tk.packetID).emit (.qosDropped tk)).countInflight (-1)
        else (s.onInflight fun f => f.remove tk.packetID).emit (.qosDropped tk))) (h : P s) :
    P (s.clearInflights env) := by
  refine Inflight.foldl_snapshot (fun t : Session => t.client.inflight) P clearInflight ?_ env.order rfl h
  intro t tk hget ht
  unfold clearInflight Inflight.delete
  rw [hget]
  refine ⟨hcleared ht hget, fun id hne => ?_⟩
  dsimp only [Option.isSome_some]
  rw [if_pos rfl]
  split <;> exact (Inflight.get_remove _ _ _).trans (if_neg hne)

def resetInflights (env : Env) (f : Inflight) : Inflight :=
  (f.getAll env.order false).foldl (fun f tk => f.remove tk.packetID) f

/-! ### Taking a session over -/

def inheritInflight (caps : Capabilities) (existing : Inflight) (cl : Client) : Inflight :=
  if 0 < existing.len then
    let newMax := if cl.props.receiveMaximum = 0 then caps.receiveMaximum else cl.props.receiveMaximum
    let f := existing.clone.reconcileSendQuotaCap newMax.toNat
    if f.maximumReceiveQuota = 0 ∧ caps.receiveMaximum ≠ 0 then f.resetReceiveQuota caps.receiveMaximum.toNat
    else f
  else cl.inflight

theorem get_inheritInflight (caps : Capabilities) (f : Inflight) {cl : Client} (hcl : ∀ id, cl.inflight.get id = none)
    (id : UInt16) : (inheritInflight caps f cl).get id = f.get id := by
  have hget : ∀ n : Int, (f.clone.reconcileSendQuotaCap n).get id = f.get id := by
    intro n
    unfold Inflight.reconcileSendQuotaCap
    split <;> rfl
  unfold inheritInflight
  split
  · dsimp only
    generalize (if cl.props.receiveMaximum = 0 then caps.receiveMaximum else cl.props.receiveMaximum) = newMax
    split <;> exact hget _
  · rename_i hempty
    have hsize : size f.internal = 0 := Nat.le_zero.mp (Nat.not_lt.mp hempty)
    rw [hcl]
    exact (size_eq_zero_iff.mp hsize id).symm

def continues (existing : Client) (pk : Packet) : Bool :=
  !(pk.connect.clean || (existing.clean && existing.protocolVersion < 5))

/-- The end of `inheritClientSession` where the session goes on: what `existing` holds, which is marked as taken over by
then, passes to the client. -/
def transfer (env : Env) (s : Session) (existing : Client) : Client × Session :=
  let s := { s with client := { s.client with inflight := inheritInflight s.server.caps existing.inflight s.client } }
  let s := existing.subscriptions.entries.foldl (fun s e => (s.addSubscription e.2).2) s
  let t := unsubscribeClient { s with client := existing }
  ({ t.client with inflight := resetInflights env t.client.inflight }, { t with client := s.client })

theorem transfer_of_isTakenOver {env : Env} {existing : Client} (h : existing.isTakenOver = true) :
    s.transfer env existing =
      ({ existing with subscriptions := ∅, inflight := resetInflights env existing.inflight },
        existing.subscriptions.entries.foldl (fun s e => (s.addSubscription e.2).2)
          { s with client := { s.client with
            inflight := inheritInflight s.server.caps existing.inflight s.client } }) := by
  unfold transfer unsubscribeClient
  dsimp only
  rw [if_pos h]

/-- `inheritClientSession` where the session's client exists: whether the session is continued, the
existing client after it, and the session with the new client. -/
def inheritClientSession (env : Env) (s : Session) (pk : Packet) (cl : Client) : Bool × Client × Session :=
  let s := (s.disconnectClient env .sessionTakenOver).2
  if !continues s.client pk then
    let s := s.unsubscribeClient.clearInflights env
    (false, { s.client with isTakenOver := true }, { s with client := cl })
  else
    (true, transfer env { s with client := cl } { s.client with isTakenOver := true })

theorem inheritClientSession_eq (env : Env) (s : Session) (pk : Packet) (cl : Client) :
    s.inheritClientSession env pk cl =
      let t := (s.disconnectClient env .sessionTakenOver).2
      if !continues t.client pk then
        let u := t.unsubscribeClient.clearInflights env
        (false, { u.client with isTakenOver := true }, { u with client := cl })
      else
        (true,
          { t.client with
            isTakenOver := true, subscriptions := ∅, inflight := resetInflights env t.client.inflight },
          t.client.subscriptions.entries.foldl (fun s e => (s.addSubscription e.2).2)
            { t with client := { cl with inflight := inheritInflight t.server.caps t.client.inflight cl } }) := by
  unfold inheritClientSession
  dsimp only
  rw [transfer_of_isTakenOver rfl]

def establish (env : Env) (s : Session) (present : Bool) : Option Error × Session :=
  match s.sendConnack env .success present with
  | (some err, s) => (some err, s)
  | (none, s) =>
    let s := { s with server := { s.server with willDelayed := s.server.willDelayed.erase s.client.id } }
    if present then s.resendInflightMessages env else (none, s)

def reconnect (env : Env) (s : Session) (assigned : Bytes) (pk : Packet) : Session :=
  let cl := (Client.new s.server.caps).parseConnect s.server.caps assigned pk
  let (present, _, s) := s.inheritClientSession env pk cl
  match s.establish env present with
  | (some _, s) => s.stop env none
  | (none, s) => s

/-! ### The read loop -/

def receivePacket (env : Env) (s : Session) (pk : Packet) : Option Error × Session :=
  match s.processPacket env pk with
  | (some (.code code), s) =>
    if s.client.protocolVersion = 5 && code.isError then
      (some (.code code), (s.disconnectClient env code).2)
    else (some (.code code), s)
  | (some err, s) => (some err, s)
  | (none, s) => (none, s)

theorem receivePacket_invariant {env : Env} {pk : Packet}
    (hhandled : P (s.handle env pk).2) (hresume : ∀ {t}, P t → P (t.resumeDeferredPublishes env).2)
    (hdisconnect : ∀ {t} code, P t → P (t.disconnectClient env code).2) : P (s.receivePacket env pk).2 := by
  have hprocessed : P (s.processPacket env pk).2 := processPacket_invariant hhandled hresume
  unfold receivePacket
  generalize s.processPacket env pk = processed at hprocessed
  obtain ⟨_ | err, t⟩ := processed
  · exact hprocessed
  · cases err with
    | code code =>
      dsimp only
      split
      · exact hdisconnect code hprocessed
      · exact hprocessed
    | _ => exact hprocessed

/-- What `attachClient` does with the will when the read loop ends. -/
def endRead (env : Env) (s : Session) (err : Option Error) : Session :=
  match err with
  | some err => (s.sendLWT env).stop env (some err)
  | none => { s with client := { s.client with will := {} } }

end Session
end Mqtt
