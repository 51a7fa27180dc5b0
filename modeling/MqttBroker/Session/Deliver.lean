import MqttBroker.Session.Client

/-! Outbound messages: `publishToClient` with its queue and its flow control,
`resumeDeferredPublishes`, the write loop, and the loops over the inflight
messages. -/

namespace Mqtt
open FiniteMap
namespace Session

/-! ### Deferred messages -/

/-- What one turn of the loop of `resumeDeferredPublishes` does. -/
inductive Turn where
  | stop (err : Option Error) (s : Session)
  | again (s : Session)

def deferAgain (s : Session) (next : Packet) : Session :=
  s.onInflight fun f => (f.put { next with expiry := inflightExpiryDeferred }).increaseSendQuota.2

def sendDeferred (env : Env) (s : Session) (next : Packet) : Turn :=
  if !s.client.conn || s.client.closed then .stop none (s.deferAgain next)
  else
    match s.writePacket env next with
    | (some err, s) => .stop (some err) (s.deferAgain next)
    | (none, s) => .again s

def resumeTurn (env : Env) (s : Session) : Turn :=
  match s.client.inflight.takeNextImmediate env.order with
  | (none, _) => .stop none s
  | (some next, f) =>
    match f.decreaseSendQuota with
    | (false, f) => .stop none (s.onInflight fun _ => f.put { next with expiry := inflightExpiryDeferred })
    | (true, f) => sendDeferred env (s.onInflight fun _ => f) next

theorem sendDeferred_cases (env : Env) (s : Session) (next : Packet) :
    (s.client.closed = false ∧ s.client.conn = true ∧
        sendDeferred env s next = .again (s.emit (.wrote (s.outgoing env next) next.topicName))) ∨
      (sendDeferred env s next = .stop none (s.deferAgain next)) ∨
      ∃ out err, sendDeferred env s next = .stop (some err) ((s.emit (.writeFailed out err)).deferAgain next) := by
  unfold sendDeferred writePacket
  by_cases hopen : (!s.client.conn || s.client.closed) = true
  · rw [if_pos hopen]
    exact .inr (.inl rfl)
  · rw [if_neg hopen]
    simp only [Bool.or_eq_true, Bool.not_eq_true', not_or, Bool.not_eq_false, Bool.not_eq_true] at hopen
    obtain ⟨hclosed, hconn, hw⟩ | ⟨-, hconn, -⟩ | ⟨-, out, err, hw⟩ :=
      writePacketOn_cases env s next.topicName next
    · rw [hw]
      exact .inl ⟨hclosed, hconn, rfl⟩
    · rw [hopen.1] at hconn
      cases hconn
    · rw [hw]
      exact .inr (.inr ⟨out, err, rfl⟩)

def takeDeferred (s : Session) (pk : Packet) : Session :=
  s.onInflight fun f => { f.put { pk with expiry := 0 } with sendQuota := f.sendQuota - 1 }

variable {pk out : Packet}

theorem resumeTurn_of_take {env : Env} {s : Session} (hquota : 0 < s.client.inflight.sendQuota)
    (htake : s.client.inflight.takeNextImmediate env.order =
      (some { pk with expiry := 0 }, s.client.inflight.put { pk with expiry := 0 })) :
    resumeTurn env s = sendDeferred env (s.takeDeferred pk) { pk with expiry := 0 } := by
  have hdec : (s.client.inflight.put { pk with expiry := 0 }).decreaseSendQuota =
      (true, { s.client.inflight.put { pk with expiry := 0 } with
        sendQuota := s.client.inflight.sendQuota - 1 }) := by
    unfold Inflight.decreaseSendQuota
    rw [Inflight.put_sendQuota, if_neg (by omega)]
  unfold resumeTurn
  rw [htake]
  dsimp only
  rw [hdec]
  rfl

theorem resumeTurn_cases (env : Env) (s : Session) (hquota : 0 < s.client.inflight.sendQuota) :
    (resumeTurn env s = .stop none s ∧
        ∀ id pk, s.client.inflight.get id = some pk → pk.expiry ≠ inflightExpiryDeferred) ∨
      ∃ pk, s.client.inflight.get pk.packetID = some pk ∧ pk.expiry = inflightExpiryDeferred ∧
        (∀ id e, s.client.inflight.get id = some e → e.expiry = inflightExpiryDeferred →
          pk.created16 ≤ e.created16) ∧
        resumeTurn env s = sendDeferred env (s.takeDeferred pk) { pk with expiry := 0 } := by
  obtain ⟨htake, hnone⟩ | ⟨pk, hpk, hdef, hold, htake⟩ := s.client.inflight.takeNextImmediate_cases env.order
  · refine .inl ⟨?_, hnone⟩
    unfold resumeTurn
    rw [htake]
  · exact .inr ⟨pk, hpk, hdef, hold, resumeTurn_of_take hquota htake⟩

theorem resumeTurn_again {env : Env} {s s' : Session} (hquota : 0 < s.client.inflight.sendQuota)
    (h : resumeTurn env s = .again s') :
    s'.client.inflight.sendQuota = s.client.inflight.sendQuota - 1 := by
  obtain ⟨hstop, -⟩ | ⟨pk, -, -, -, hturn⟩ := resumeTurn_cases env s hquota
  · rw [hstop] at h
    cases h
  · rw [hturn] at h
    obtain ⟨-, -, hs⟩ | hs | ⟨_, _, hs⟩ := sendDeferred_cases env _ { pk with expiry := 0 } <;> rw [hs] at h <;>
      cases h
    rfl

def resumeLoop (env : Env) (s : Session) : Option Error × Session :=
  if _hquota : 0 < s.client.inflight.sendQuota then
    match _hturn : resumeTurn env s with
    | .stop err s' => (err, s')
    | .again s' => resumeLoop env s'
  else (none, s)
termination_by s.client.inflight.sendQuota.toNat
decreasing_by
  have := resumeTurn_again _hquota _hturn
  omega

def resumeDeferredPublishes (env : Env) (s : Session) : Option Error × Session :=
  let s := s.onInflight fun f => f.recoverStarvedSendQuota.2
  let (err, s) := resumeLoop env s
  (err, s.onInflight fun f => f.resetSendQuotaIfEmpty.2)

theorem resumeLoop_starved {env : Env} {s : Session} (h : s.client.inflight.sendQuota ≤ 0) :
    resumeLoop env s = (none, s) := by
  rw [resumeLoop]
  exact dif_neg (Int.not_lt.mpr h)

theorem resume_of_starved {env : Env} {s : Session} (h : s.client.inflight.recoverStarvedSendQuota.2.sendQuota ≤ 0) :
    s.resumeDeferredPublishes env =
      (none, (s.onInflight fun f => f.recoverStarvedSendQuota.2).onInflight fun f => f.resetSendQuotaIfEmpty.2) := by
  have hloop : resumeLoop env (s.onInflight fun f => f.recoverStarvedSendQuota.2) =
      (none, s.onInflight fun f => f.recoverStarvedSendQuota.2) := resumeLoop_starved h
  unfold resumeDeferredPublishes
  dsimp only
  rw [hloop]

section Invariant
variable {P : Session → Prop} {env : Env} {s : Session}
  (hsent : ∀ {s pk}, P s → 0 < s.client.inflight.sendQuota → s.client.inflight.get pk.packetID = some pk →
    pk.expiry = inflightExpiryDeferred → (∀ id e, s.client.inflight.get id = some e →
      e.expiry = inflightExpiryDeferred → pk.created16 ≤ e.created16) →
    s.client.closed = false → s.client.conn = true →
    P ((s.takeDeferred pk).emit (.wrote (s.outgoing env { pk with expiry := 0 }) pk.topicName)))
  (hparked : ∀ {s pk}, P s → 0 < s.client.inflight.sendQuota → s.client.inflight.get pk.packetID = some pk →
    pk.expiry = inflightExpiryDeferred → P ((s.takeDeferred pk).deferAgain { pk with expiry := 0 }) ∧
      ∀ out err, P (((s.takeDeferred pk).emit (.writeFailed out err)).deferAgain { pk with expiry := 0 }))
include hsent hparked

theorem resumeLoop_invariant (h : P s) : P (resumeLoop env s).2 := by
  induction hn : s.client.inflight.sendQuota.toNat using Nat.strong_induction_on generalizing s with
  | h n ih =>
    rw [resumeLoop]
    split
    · rename_i hquota
      obtain ⟨hstop, -⟩ | ⟨pk, hpk, hdef, hold, hturn⟩ := resumeTurn_cases env s hquota
      · split
        · rename_i heq
          rw [hstop] at heq
          cases heq
          exact h
        · rename_i heq
          rw [hstop] at heq
          cases heq
      · obtain ⟨hclosed, hconn, hs⟩ | hs | ⟨out, err, hs⟩ :=
          sendDeferred_cases env (s.takeDeferred pk) { pk with expiry := 0 }
        all_goals
          rw [hs] at hturn
          split
          all_goals
            rename_i heq
            rw [hturn] at heq
            cases heq
        · refine ih _ ?_ (hsent h hquota hpk hdef hold hclosed hconn) rfl
          have hlt : (s.client.inflight.sendQuota - 1).toNat < n := by omega
          exact hlt
        · exact (hparked h hquota hpk hdef).1
        · exact (hparked h hquota hpk hdef).2 out err
    · exact h

theorem resume_invariant (hreset : ∀ {s}, P s → P (s.onInflight fun f => f.resetSendQuotaIfEmpty.2))
    (h : P (s.onInflight fun f => f.recoverStarvedSendQuota.2)) : P (s.resumeDeferredPublishes env).2 :=
  hreset (resumeLoop_invariant hsent hparked h)

end Invariant

theorem resume_client (env : Env) (s : Session) : ∃ f es, (s.resumeDeferredPublishes env).2 =
    { s with client := { s.client with inflight := f }, log := s.log ++ es } := by
  refine @resume_invariant (fun u => ∃ f es, u =
    { s with client := { s.client with inflight := f }, log := s.log ++ es }) env s ?_ ?_ ?_
    ⟨_, [], by rw [List.append_nil]; rfl⟩
  · rintro _ pk ⟨f, es, rfl⟩ _ _ _ _ _ _
    exact ⟨_, es ++ [_], by rw [← List.append_assoc]; rfl⟩
  · rintro _ pk ⟨f, es, rfl⟩ _ _ _
    exact ⟨⟨_, es, rfl⟩, fun out err => ⟨_, es ++ [.writeFailed out err], by rw [← List.append_assoc]; rfl⟩⟩
  · rintro _ ⟨f, es, rfl⟩
    exact ⟨_, es, rfl⟩

/-! ### `publishToClient` -/

def copyFor (s : Session) (sub : Subscription) (pk : Packet) : Packet :=
  let v := s.client.protocolVersion
  let out := pk.copy false
  let dropRetain := !sub.fwdRetainedFlag && ((v == 5 && !sub.retainAsPublished) || v < 5)
  let identifiers := (sub.identifiers.getD ∅).entries.map Sigma.snd
  let qos := if sub.qos < out.fixedHeader.qos then sub.qos else out.fixedHeader.qos
  { out with
    fixedHeader :=
      { out.fixedHeader with
        retain := !dropRetain && out.fixedHeader.retain
        qos := if s.server.caps.maximumQos < qos then s.server.caps.maximumQos else qos }
    properties :=
      { out.properties with
        subscriptionIdentifier :=
          if identifiers.length > 0 then identifiers.mergeSort (· ≤ ·)
          else out.properties.subscriptionIdentifier } }

def withAlias (out : Packet) (given : UInt16 × Bool) : Packet :=
  { out with
    properties :=
      { out.properties with
        topicAlias := given.1
        topicAliasFlag := 0 < given.1 || out.properties.topicAliasFlag }
    topicName := if 0 < given.1 && given.2 then [] else out.topicName }

def prepare (s : Session) (sub : Subscription) (pk : Packet) : Packet × Session :=
  let out := s.copyFor sub pk
  if 0 < s.client.props.topicAliasMaximum then
    let (given, outbound) := s.client.outbound.set pk.topicName
    (withAlias out given, { s with client := { s.client with outbound := outbound } })
  else (out, s)

def dropStored (s : Session) (id : UInt16) : Session :=
  if (s.client.inflight.delete id).1 then
    (s.onInflight fun f => (f.remove id).increaseSendQuota.2).countInflight (-1)
  else s

theorem dropStored_of_get {s : Session} {id : UInt16} (h : s.client.inflight.get id = some pk) :
    s.dropStored id = (s.onInflight fun f => (f.remove id).increaseSendQuota.2).countInflight (-1) := by
  unfold dropStored Inflight.delete
  rw [h]
  rfl

def enqueue (s : Session) (pk out : Packet) : Option Error × Session :=
  if !s.client.conn || s.client.closed then
    (some (.code .disconnected),
      if out.fixedHeader.qos > 0 && out.packetID > 0 then s.dropStored out.packetID else s)
  else if s.client.queue.length < s.server.caps.maximumClientWritesPending then
    (none, { s with client := { s.client with queue := s.client.queue ++ [⟨out, pk.topicName⟩] } })
  else
    let s := { s with
      server := { s.server with
        info := { s.server.info with messagesDropped := s.server.info.messagesDropped + 1 } } }
    let s := s.emit (.publishDropped pk)
    (some (.code .pendingClientWritesExceeded),
      if out.fixedHeader.qos > 0 then s.dropStored out.packetID else s)

def dropMessage (s : Session) (pk : Packet) : Session :=
  { s with
    server := { s.server with
      info := { s.server.info with messagesDropped := s.server.info.messagesDropped + 1 } } }.emit (.publishDropped pk)

def CanQueue (s : Session) : Prop :=
  s.client.conn = true ∧ s.client.closed = false ∧ s.client.queue.length < s.server.caps.maximumClientWritesPending

theorem enqueue_cases (s : Session) (pk out : Packet) :
    (s.CanQueue ∧ s.enqueue pk out =
        (none, { s with client := { s.client with queue := s.client.queue ++ [⟨out, pk.topicName⟩] } })) ∨
      ¬s.CanQueue ∧ ∃ err u, (u = s ∨ u = s.dropMessage pk) ∧
        (0 < out.fixedHeader.qos ∧ s.enqueue pk out = (some err, u.dropStored out.packetID) ∨
          ¬(0 < out.fixedHeader.qos ∧ 0 < out.packetID) ∧ s.enqueue pk out = (some err, u)) := by
  unfold enqueue CanQueue
  split
  · rename_i hdown
    rw [Bool.or_eq_true, Bool.not_eq_true'] at hdown
    refine .inr ⟨fun h => ?_, .code .disconnected, s, .inl rfl, ?_⟩
    · rw [h.1, h.2.1] at hdown
      exact hdown.elim nofun nofun
    · split
      · rename_i hstored
        rw [Bool.and_eq_true, decide_eq_true_eq] at hstored
        exact .inl ⟨hstored.1, rfl⟩
      · rename_i hunstored
        refine .inr ⟨fun h => hunstored ?_, rfl⟩
        rw [Bool.and_eq_true, decide_eq_true_eq, decide_eq_true_eq]
        exact h
  · rename_i hlive
    rw [Bool.or_eq_true, Bool.not_eq_true', not_or, Bool.not_eq_false, Bool.not_eq_true] at hlive
    split
    · rename_i hroom
      exact .inl ⟨⟨hlive.1, hlive.2, hroom⟩, rfl⟩
    · rename_i hfull
      refine .inr ⟨fun h => hfull h.2.2, .code .pendingClientWritesExceeded, s.dropMessage pk, .inr rfl, ?_⟩
      by_cases hqos : 0 < out.fixedHeader.qos
      · refine .inl ⟨hqos, ?_⟩
        dsimp only
        rw [if_pos hqos]
        rfl
      · refine .inr ⟨fun h => hqos h.1, ?_⟩
        dsimp only
        rw [if_neg hqos]
        rfl

theorem enqueue_invariant {P : Session → Prop} {s : Session}
    (hqueued : P { s with client := { s.client with queue := s.client.queue ++ [⟨out, pk.topicName⟩] } }) (h : P s)
    (hdropped : P (s.dropMessage pk))
    (hstored : 0 < out.fixedHeader.qos → ∀ u : Session, u.client = s.client → P u → P (u.dropStored out.packetID)) :
    P (s.enqueue pk out).2 := by
  obtain ⟨-, heq⟩ | ⟨-, err, u, hu, hrest⟩ := s.enqueue_cases pk out
  · rw [heq]
    exact hqueued
  · have hclient : u.client = s.client := by
      rcases hu with rfl | rfl <;> rfl
    have hkept : P u := by
      rcases hu with rfl | rfl
      · exact h
      · exact hdropped
    obtain ⟨hqos, heq⟩ | ⟨-, heq⟩ := hrest
    · rw [heq]
      exact hstored hqos u hclient hkept
    · rw [heq]
      exact hkept

def dropInflight (s : Session) : Session :=
  { s with
    server := { s.server with
      info := { s.server.info with inflightDropped := s.server.info.inflightDropped + 1 } } }

def storeOutbound (s : Session) (out : Packet) (tookSendQuota : Bool) : Bool × Session :=
  match s.client.inflight.replaceCounted out with
  | (true, f) => (true, ((s.onInflight fun _ => f).countInflight 1).emit (.qosPublish out))
  | (false, _) =>
    let s := if tookSendQuota then s.onInflight fun f => f.increaseSendQuota.2 else s
    (false, (s.onInflight fun f => f.remove out.packetID).dropInflight)

theorem storeOutbound_reserved {s : Session} {r : Packet} (h : s.client.inflight.get out.packetID = some r)
    (hr : r.expiry = inflightExpiryReserved) (took : Bool) :
    s.storeOutbound out took = (true, ((s.onInflight fun f => f.put out).countInflight 1).emit (.qosPublish out)) := by
  unfold storeOutbound Inflight.replaceCounted
  rw [h]
  simp [hr, onInflight]

/-- Send a copy of QoS 1 or 2 under its reserved id: MQTT 5 clients without quota have it parked. -/
def sendQos (env : Env) (s : Session) (pk out : Packet) : Option Error × Session :=
  if 5 ≤ s.client.protocolVersion then
    if 0 < s.client.inflight.maximumSendQuota ∧ s.client.inflight.sendQuota ≤ 0 then
      match s.storeOutbound { out with expiry := inflightExpiryDeferred } false with
      | (true, s) => (none, (s.resumeDeferredPublishes env).2)
      | (false, s) => (some (.code .quotaExceeded), s)
    else
      let took := decide (0 < s.client.inflight.maximumSendQuota)
      let s := if took then s.onInflight fun f => f.decreaseSendQuota.2 else s
      match s.storeOutbound out took with
      | (true, s) => s.enqueue pk out
      | (false, s) => (some (.code .quotaExceeded), s)
  else
    let s :=
      if s.client.inflight.sendQuota = 0 ∧ 0 < s.client.inflight.maximumSendQuota then
        s.onInflight fun f => f.resetSendQuota s.server.caps.receiveMaximum.toNat
      else s
    match s.storeOutbound out false with
    | (true, s) => (s.onInflight fun f => f.decreaseSendQuota.2).enqueue pk out
    | (false, s) => (some (.code .quotaExceeded), s)

/-- `publishToClient`. The copy it also returns is read by no caller. -/
def publishToClient (env : Env) (s : Session) (sub : Subscription) (pk : Packet) : Option Error × Session :=
  if sub.noLocal && pk.origin == s.client.id then (none, s)
  else if !env.onACLCheck s.client.id pk.topicName false then (some (.code .notAuthorized), s)
  else
    let (out, s) := s.prepare sub pk
    if out.fixedHeader.qos > 0 then
      match s.nextPacketID env s.server.caps.maximumInflight.toNat with
      | (some i, s) => s.sendQos env pk ({ out with packetID := UInt16.ofNat i }.fillFrom pk)
      | (none, s) => (some (.code .quotaExceeded), (s.emit (.packetIDExhausted pk)).dropInflight)
    else s.enqueue pk out

theorem prepare_client (s : Session) (sub : Subscription) (pk : Packet) :
    ∃ outbound, (s.prepare sub pk).2 = { s with client := { s.client with outbound := outbound } } := by
  unfold prepare
  split
  · exact ⟨_, rfl⟩
  · exact ⟨s.client.outbound, rfl⟩

theorem prepare_expiry (s : Session) (sub : Subscription) (pk : Packet) : (s.prepare sub pk).1.expiry = pk.expiry := by
  unfold prepare
  split <;> rfl

theorem prepare_created (s : Session) (sub : Subscription) (pk : Packet) :
    (s.prepare sub pk).1.created = pk.created := by
  unfold prepare
  split <;> rfl

theorem prepare_payload (s : Session) (sub : Subscription) (pk : Packet) :
    (s.prepare sub pk).1.payload = pk.payload := by
  unfold prepare
  split <;> rfl

theorem prepare_type (s : Session) (sub : Subscription) (pk : Packet) :
    (s.prepare sub pk).1.fixedHeader.type = pk.fixedHeader.type := by
  unfold prepare
  split <;> rfl

theorem nextPacketID_cases (env : Env) (s : Session) (max : Int) :
    s.nextPacketID env max = (none, s) ∨
      ∃ j, s.client.inflight.get (UInt16.ofNat j) = none ∧
        s.nextPacketID env max = (some j, { s with
          client := { s.client with
            packetID := j
            inflight := s.client.inflight.put (Inflight.reservation env.now (UInt16.ofNat j)) } }) := by
  unfold nextPacketID
  obtain h | ⟨j, hfree, h⟩ := nextPacketIDLoop_cases s.client.inflight env.now s.server.caps.maximumPacketID
    s.client.packetID max s.client.packetID false
  · rw [h]
    exact .inl rfl
  · rw [h]
    exact .inr ⟨j, hfree, rfl⟩

def isLocal (s : Session) (sub : Subscription) (pk : Packet) : Bool := sub.noLocal && pk.origin == s.client.id

def withOutbound (s : Session) (outbound : OutboundTopicAliases) : Session :=
  { s with client := { s.client with outbound := outbound } }

def reserve (env : Env) (s : Session) (outbound : OutboundTopicAliases) (j : Nat) : Session :=
  { s with
    client := { s.client with
      outbound := outbound
      packetID := j
      inflight := s.client.inflight.put (Inflight.reservation env.now (UInt16.ofNat j)) } }

/-- What `publishToClient` can come to. -/
inductive Publishes (env : Env) (s : Session) (sub : Subscription) (pk : Packet) : Option Error × Session → Prop
  | own (hlocal : s.isLocal sub pk = true) : Publishes env s sub pk (none, s)
  | unauthorized (hlocal : s.isLocal sub pk = false) : Publishes env s sub pk (some (.code .notAuthorized), s)
  | exhausted {outbound : OutboundTopicAliases} (hlocal : s.isLocal sub pk = false)
      (hqos : 0 < (s.prepare sub pk).1.fixedHeader.qos) :
      Publishes env s sub pk
        (some (.code .quotaExceeded), ((s.withOutbound outbound).emit (.packetIDExhausted pk)).dropInflight)
  | sent {outbound : OutboundTopicAliases} {j : Nat} {out : Packet} (hlocal : s.isLocal sub pk = false)
      (hqos : 0 < (s.prepare sub pk).1.fixedHeader.qos)
      (hnext : (s.withOutbound outbound).nextPacketID env s.server.caps.maximumInflight.toNat =
        (some j, s.reserve env outbound j))
      (hfree : s.client.inflight.get (UInt16.ofNat j) = none)
      (hout : out = { (s.prepare sub pk).1 with packetID := UInt16.ofNat j }.fillFrom pk)
      (hid : out.packetID = UInt16.ofNat j)
      (hreserved : (s.reserve env outbound j).client.inflight.get out.packetID =
        some (Inflight.reservation env.now (UInt16.ofNat j)))
      (hheader : out.fixedHeader = (s.prepare sub pk).1.fixedHeader) (hexpiry : out.expiry = pk.expiry) :
      Publishes env s sub pk ((s.reserve env outbound j).sendQos env pk out)
  | queued {outbound : OutboundTopicAliases} (hlocal : s.isLocal sub pk = false)
      (hqos : ¬0 < (s.prepare sub pk).1.fixedHeader.qos) :
      Publishes env s sub pk ((s.withOutbound outbound).enqueue pk (s.prepare sub pk).1)

theorem publishToClient_cases (env : Env) (s : Session) (sub : Subscription) (pk : Packet) :
    Publishes env s sub pk (s.publishToClient env sub pk) := by
  obtain ⟨outbound, hprep⟩ := prepare_client s sub pk
  have hpair : s.prepare sub pk = ((s.prepare sub pk).1, s.withOutbound outbound) := Prod.ext rfl hprep
  unfold publishToClient
  split
  · rename_i hlocal
    exact .own hlocal
  · rename_i hlocal
    replace hlocal : s.isLocal sub pk = false := Bool.eq_false_iff.mpr hlocal
    split
    · exact .unauthorized hlocal
    · rw [hpair]
      dsimp only
      split
      · rename_i hqos
        obtain hnone | ⟨j, hfree, hsome⟩ :=
          nextPacketID_cases env (s.withOutbound outbound) s.server.caps.maximumInflight.toNat
        · have hnone' : (s.withOutbound outbound).nextPacketID env
              (s.withOutbound outbound).server.caps.maximumInflight.toNat = _ := hnone
          rw [hnone']
          exact .exhausted hlocal hqos
        · have hsome' : (s.withOutbound outbound).nextPacketID env
              (s.withOutbound outbound).server.caps.maximumInflight.toNat = (some j, s.reserve env outbound j) := hsome
          rw [hsome']
          refine .sent hlocal hqos hsome hfree rfl (Packet.fillFrom_packetID _ _) ?_
            (Packet.fillFrom_fixedHeader _ _) ?_
          · rw [Packet.fillFrom_packetID]
            exact (Inflight.get_put _ _ _).trans (if_pos rfl)
          · rw [Packet.fillFrom_expiry]
            exact prepare_expiry s sub pk
      · rename_i hqos
        exact .queued hlocal hqos

def Parks (s : Session) : Prop :=
  5 ≤ s.client.protocolVersion ∧ 0 < s.client.inflight.maximumSendQuota ∧ s.client.inflight.sendQuota ≤ 0

def park (s : Session) (out : Packet) : Session :=
  ((s.onInflight fun f => f.put { out with expiry := inflightExpiryDeferred }).countInflight 1).emit
    (.qosPublish { out with expiry := inflightExpiryDeferred })

def storeQos (s : Session) (out : Packet) (quota maximum : Int) : Session :=
  ((s.onInflight fun f => { f.put out with sendQuota := quota, maximumSendQuota := maximum }).countInflight 1).emit
    (.qosPublish out)

theorem sendQos_cases (env : Env) {s : Session} (pk : Packet) {r : Packet}
    (hget : s.client.inflight.get out.packetID = some r) (hr : r.expiry = inflightExpiryReserved) :
    (s.Parks ∧ s.sendQos env pk out = (none, ((s.park out).resumeDeferredPublishes env).2)) ∨
      ¬s.Parks ∧ ∃ quota maximum,
        (5 ≤ s.client.protocolVersion → maximum = s.client.inflight.maximumSendQuota ∧
          quota = if 0 < s.client.inflight.maximumSendQuota then s.client.inflight.sendQuota - 1
            else s.client.inflight.sendQuota) ∧
        s.sendQos env pk out = (s.storeQos out quota maximum).enqueue pk out := by
  unfold sendQos Parks
  by_cases hversion : 5 ≤ s.client.protocolVersion
  · rw [if_pos hversion]
    by_cases hquota : 0 < s.client.inflight.maximumSendQuota ∧ s.client.inflight.sendQuota ≤ 0
    · have hget' : s.client.inflight.get ({ out with expiry := inflightExpiryDeferred } : Packet).packetID = some r :=
        hget
      rw [if_pos hquota, storeOutbound_reserved hget' hr]
      exact .inl ⟨⟨hversion, hquota⟩, rfl⟩
    · rw [if_neg hquota]
      refine .inr ⟨fun h => hquota h.2, ?_⟩
      dsimp only
      by_cases hlimited : 0 < s.client.inflight.maximumSendQuota
      · have hdec : s.client.inflight.decreaseSendQuota.2 =
            { s.client.inflight with sendQuota := s.client.inflight.sendQuota - 1 } := by
          unfold Inflight.decreaseSendQuota
          rw [if_neg fun h => hquota ⟨hlimited, h⟩]
        have hget' : (s.onInflight fun f => f.decreaseSendQuota.2).client.inflight.get out.packetID = some r :=
          (Inflight.get_decreaseSendQuota _ _).trans hget
        rw [if_pos (decide_eq_true hlimited), storeOutbound_reserved hget' hr, if_pos hlimited]
        refine ⟨_, _, fun _ => ⟨rfl, rfl⟩, ?_⟩
        unfold storeQos onInflight
        dsimp only
        rw [hdec]
        rfl
      · have hunlimited : ¬decide (0 < s.client.inflight.maximumSendQuota) = true := by
          rw [decide_eq_true_eq]
          exact hlimited
        rw [if_neg hunlimited, storeOutbound_reserved hget hr, if_neg hlimited]
        exact ⟨_, _, fun _ => ⟨rfl, rfl⟩, rfl⟩
  · rw [if_neg hversion]
    refine .inr ⟨fun h => hversion h.1, ?_⟩
    dsimp only
    -- a client below MQTT 5 has the quota reset to the server's maximum before the message takes one unit
    obtain ⟨quota, maximum, hreset⟩ : ∃ quota maximum,
        (if s.client.inflight.sendQuota = 0 ∧ 0 < s.client.inflight.maximumSendQuota then
          s.onInflight fun f => f.resetSendQuota s.server.caps.receiveMaximum.toNat else s) =
        s.onInflight fun f => { f with sendQuota := quota, maximumSendQuota := maximum } := by
      split
      · exact ⟨_, _, rfl⟩
      · exact ⟨s.client.inflight.sendQuota, s.client.inflight.maximumSendQuota, rfl⟩
    have hget' : (s.onInflight fun f =>
        { f with sendQuota := quota, maximumSendQuota := maximum }).client.inflight.get out.packetID = some r := hget
    rw [hreset, storeOutbound_reserved hget' hr]
    by_cases hzero : quota ≤ 0
    · refine ⟨quota, maximum, fun h => absurd h hversion, ?_⟩
      have hdec : ({ s.client.inflight.put out with
          sendQuota := quota, maximumSendQuota := maximum } : Inflight).decreaseSendQuota.2 = _ :=
        congrArg Prod.snd (if_pos hzero)
      exact congrArg (fun f =>
        ((((s.onInflight fun _ => f).countInflight 1).emit (.qosPublish out))).enqueue pk out) hdec
    · refine ⟨quota - 1, maximum, fun h => absurd h hversion, ?_⟩
      have hdec : ({ s.client.inflight.put out with
          sendQuota := quota, maximumSendQuota := maximum } : Inflight).decreaseSendQuota.2 = _ :=
        congrArg Prod.snd (if_neg hzero)
      exact congrArg (fun f =>
        ((((s.onInflight fun _ => f).countInflight 1).emit (.qosPublish out))).enqueue pk out) hdec

def writeNext (env : Env) (s : Session) : Session :=
  match s.client.queue with
  | [] => s
  | q :: rest => ({ s with client := { s.client with queue := rest } }.writePacketOn env q.topic q.packet).2

/-! ### Loops over the inflight messages -/

def completeResent (s : Session) (tk : Packet) : Session :=
  if tk.fixedHeader.type = .puback ∨ tk.fixedHeader.type = .pubcomp then
    if (s.client.inflight.delete tk.packetID).1 then
      ((s.onInflight fun f => f.remove tk.packetID).emit (.qosComplete tk)).countInflight (-1)
    else s
  else s

def asResent (tk : Packet) : Packet :=
  if tk.fixedHeader.type = .publish then { tk with fixedHeader := { tk.fixedHeader with dup := true } } else tk

theorem asResent_packetID (tk : Packet) : (asResent tk).packetID = tk.packetID := by
  unfold asResent
  split <;> rfl

theorem asResent_type (tk : Packet) : (asResent tk).fixedHeader.type = tk.fixedHeader.type := by
  unfold asResent
  split <;> rfl

def resendLoop (env : Env) : List Packet → Session → Option Error × Session
  | [], s => (none, s)
  | tk :: tks, s =>
    if tk.expiry = inflightExpiryDeferred ∨ tk.expiry = inflightExpiryReserved then resendLoop env tks s
    else
      match (s.emit (.qosPublish (asResent tk))).writePacket env (asResent tk) with
      | (some err, s) => (some err, s)
      | (none, s) => resendLoop env tks (s.completeResent (asResent tk))

def resendInflightMessages (env : Env) (s : Session) : Option Error × Session :=
  if s.client.inflight.len = 0 then (none, s)
  else resendLoop env (s.client.inflight.getAll env.order false) s

section Resend
variable {P : Session → Prop} {env : Env}
  (hwritten : ∀ {s tk}, P s → s.client.inflight.get tk.packetID = some tk →
    P ((s.emit (.qosPublish (asResent tk))).writePacket env (asResent tk)).2)
  (hcompleted : ∀ {s tk}, P s → s.client.inflight.get tk.packetID = some tk → tk.expiry ≠ inflightExpiryReserved →
    tk.fixedHeader.type = .puback ∨ tk.fixedHeader.type = .pubcomp →
    P (((s.onInflight fun f => f.remove tk.packetID).emit (.qosComplete (asResent tk))).countInflight (-1)))

include hcompleted in
theorem completeResent_invariant {s : Session} {tk : Packet} (h : P s)
    (hget : s.client.inflight.get tk.packetID = some tk) (hmark : tk.expiry ≠ inflightExpiryReserved) :
    P (s.completeResent (asResent tk)) ∧ ∀ id, id ≠ tk.packetID →
      (s.completeResent (asResent tk)).client.inflight.get id = s.client.inflight.get id := by
  unfold completeResent Inflight.delete
  rw [asResent_packetID, asResent_type, hget]
  split
  · rename_i hdone
    refine ⟨hcompleted h hget hmark hdone, fun id hne => ?_⟩
    exact (Inflight.get_remove _ _ _).trans (if_neg hne)
  · exact ⟨h, fun _ _ => rfl⟩

include hwritten hcompleted

theorem resendLoop_invariant (tks : List Packet) : ∀ {s : Session}, P s → (tks.map Packet.packetID).Nodup →
    (∀ tk ∈ tks, s.client.inflight.get tk.packetID = some tk) → P (resendLoop env tks s).2 := by
  induction tks with
  | nil => exact fun h _ _ => h
  | cons tk tks ih =>
    intro s h hnodup hstored
    rw [List.map_cons, List.nodup_cons] at hnodup
    have hget := hstored tk List.mem_cons_self
    have hrest := fun tk' htk' => hstored tk' (List.mem_cons_of_mem _ htk')
    unfold resendLoop
    split
    · exact ih h hnodup.2 hrest
    · rename_i hmark
      have hwrote := hwritten h hget
      have hclient := writePacket_client (s.emit (.qosPublish (asResent tk))) env (asResent tk)
      split
      · rename_i hw
        rwa [hw] at hwrote
      · rename_i t hw
        rw [hw] at hwrote hclient
        have hinflight : t.client.inflight = s.client.inflight := by
          rw [hclient]
          rfl
        rw [← hinflight] at hget
        obtain ⟨hdone, hothers⟩ := completeResent_invariant hcompleted hwrote hget (not_or.mp hmark).2
        refine ih hdone hnodup.2 fun tk' htk' => ?_
        rw [hothers, hinflight]
        · exact hrest tk' htk'
        · exact fun heq => hnodup.1 (heq ▸ List.mem_map_of_mem htk')

theorem resend_invariant {s : Session} (h : P s) : P (s.resendInflightMessages env).2 := by
  unfold resendInflightMessages
  split
  · exact h
  · exact resendLoop_invariant hwritten hcompleted _ h (Inflight.nodup_getAll _ _) fun tk htk =>
      (Inflight.mem_getAll_iff _).mp htk

end Resend

/-- The expiry test of `ClearExpiredInflights`. -/
def isExpired (now maximumExpiry : Int) (tk : Packet) : Bool :=
  (tk.protocolVersion == 5 && 0 < tk.expiry && tk.expiry < now) ||
    (0 < maximumExpiry && 0 < tk.created && maximumExpiry < now - tk.created)

def clearExpired (now maximumExpiry : Int) (acc : List UInt16 × Session) (tk : Packet) : List UInt16 × Session :=
  if tk.expiry = inflightExpiryDeferred ∨ tk.expiry = inflightExpiryReserved then acc
  else if isExpired now maximumExpiry tk && (acc.2.client.inflight.delete tk.packetID).1 then
    let s := acc.2.onInflight fun f =>
      if tk.fixedHeader.qos > 0 then (f.remove tk.packetID).increaseSendQuota.2 else f.remove tk.packetID
    (acc.1 ++ [tk.packetID], (s.emit (.qosDropped tk)).countInflight (-1))
  else acc

def clearExpiredInflights (env : Env) (s : Session) (now maximumExpiry : Int) : List UInt16 × Session :=
  (s.client.inflight.getAll env.order false).foldl (clearExpired now maximumExpiry) ([], s)

def swept (s : Session) (tk : Packet) : Session :=
  ((s.onInflight fun f => if tk.fixedHeader.qos > 0 then (f.remove tk.packetID).increaseSendQuota.2
    else f.remove tk.packetID).emit (.qosDropped tk)).countInflight (-1)

theorem get_swept (s : Session) (tk : Packet) (id : UInt16) :
    (s.swept tk).client.inflight.get id = if id = tk.packetID then none else s.client.inflight.get id := by
  show (if tk.fixedHeader.qos > 0 then (s.client.inflight.remove tk.packetID).increaseSendQuota.2
    else s.client.inflight.remove tk.packetID).get id = _
  split
  · exact (Inflight.get_increaseSendQuota _ _).trans (Inflight.get_remove _ _ _)
  · exact Inflight.get_remove _ _ _

theorem clearExpiredInflights_invariant {P : Session → Prop} {env : Env} {now maximumExpiry : Int}
    (hswept : ∀ {s tk}, P s → s.client.inflight.get tk.packetID = some tk → tk.expiry ≠ inflightExpiryDeferred →
      tk.expiry ≠ inflightExpiryReserved → isExpired now maximumExpiry tk = true → P (s.swept tk))
    {s : Session} (h : P s) : P (s.clearExpiredInflights env now maximumExpiry).2 := by
  refine Inflight.foldl_snapshot (fun acc : List UInt16 × Session => acc.2.client.inflight) (fun acc => P acc.2)
    (clearExpired now maximumExpiry) ?_ env.order rfl h
  intro acc tk hget hacc
  unfold clearExpired
  split
  · exact ⟨hacc, fun _ _ => rfl⟩
  · rename_i hmark
    rw [not_or] at hmark
    split
    · rename_i hexpired
      rw [Bool.and_eq_true] at hexpired
      exact ⟨hswept hacc hget hmark.1 hmark.2 hexpired.1, fun id hne => (get_swept _ _ _).trans (if_neg hne)⟩
    · exact ⟨hacc, fun _ _ => rfl⟩

end Session
end Mqtt
