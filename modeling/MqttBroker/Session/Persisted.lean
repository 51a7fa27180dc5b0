import MqttBroker.Session.Gauge

/-! The inflight messages that the storage hooks have. `OnQosPublish` stores a packet
id, `OnQosComplete` and `OnQosDropped` remove one. The store mirrors the inflight
map of the client if every insertion and every deletion comes with its hook call. -/

namespace Mqtt
open FiniteMap
namespace Session
open Inflight

def persist (ids : Finset UInt16) : Event → Finset UInt16
  | .qosPublish pk => insert pk.packetID ids
  | .qosComplete pk => ids.erase pk.packetID
  | .qosDropped pk => ids.erase pk.packetID
  | _ => ids

def stored (s : Session) : Finset UInt16 := s.log.foldl persist ∅

structure Mirrors (s : Session) : Prop where
  unreserved : ∀ id, Unreserved s id
  ids : ∀ id, id ∈ s.stored ↔ (s.client.inflight.get id).isSome = true

variable {env : Env} {s t u : Session} {pk out m : Packet} {id : UInt16}

theorem stored_emit (s : Session) (e : Event) : (s.emit e).stored = persist s.stored e := by
  show (s.log ++ [e]).foldl persist ∅ = _
  rw [List.foldl_append]
  rfl

theorem stored_of_log (h : t.log = s.log) : t.stored = s.stored := by
  unfold stored
  rw [h]

theorem stored_writePacketOn (env : Env) (s : Session) (topic : Bytes) (pk : Packet) :
    (s.writePacketOn env topic pk).2.stored = s.stored := by
  obtain ⟨-, -, h⟩ | ⟨-, -, h⟩ | ⟨-, out, err, h⟩ := writePacketOn_cases env s topic pk
  · rw [h, stored_emit]
    rfl
  · rw [h]
  · rw [h, stored_emit]
    rfl

theorem stored_writePacket (env : Env) (s : Session) (pk : Packet) : (s.writePacket env pk).2.stored = s.stored :=
  stored_writePacketOn env s _ pk

theorem stored_stop (env : Env) (s : Session) (err : Option Error) : (s.stop env err).stored = s.stored := by
  unfold stop
  split <;> rfl

theorem stored_disconnectClient (env : Env) (s : Session) (code : Code) :
    (s.disconnectClient env code).2.stored = s.stored :=
  disconnectClient_invariant (P := fun t => t.stored = s.stored) (stored_writePacket env s _)
    fun h => (stored_stop env _ _).trans h

theorem Mirrors.same (h : Mirrors s) (hstored : t.stored = s.stored)
    (hget : ∀ id, t.client.inflight.get id = s.client.inflight.get id) : Mirrors t := by
  refine ⟨fun id e he => ?_, fun id => ?_⟩
  · rw [hget] at he
    exact h.unreserved id e he
  · rw [hstored, hget]
    exact h.ids id

theorem Mirrors.of_inflight (h : Mirrors s) (hstored : t.stored = s.stored)
    (hinflight : t.client.inflight = s.client.inflight) : Mirrors t :=
  h.same hstored fun id => by rw [hinflight]

theorem Mirrors.put (h : Mirrors s) (hm : m.isCounted = true)
    (hget : ∀ id, t.client.inflight.get id = if id = m.packetID then some m else s.client.inflight.get id)
    (hstored : t.stored = insert m.packetID s.stored) : Mirrors t := by
  refine ⟨fun id e he => ?_, fun id => ?_⟩
  · rw [hget] at he
    split at he
    · cases he
      exact Packet.isCounted_iff.mp hm
    · exact h.unreserved id e he
  · rw [hstored, hget, Finset.mem_insert, h.ids id]
    split
    · rename_i heq
      exact iff_of_true (.inl heq) rfl
    · rename_i hne
      exact or_iff_right hne

theorem Mirrors.replace (h : Mirrors s) (hm : m.isCounted = true)
    (hold : (s.client.inflight.get m.packetID).isSome = true)
    (hget : ∀ id, t.client.inflight.get id = if id = m.packetID then some m else s.client.inflight.get id)
    (hstored : t.stored = s.stored) : Mirrors t := by
  refine h.put hm hget ?_
  rw [hstored, Finset.insert_eq_of_mem ((h.ids _).mpr hold)]

theorem Mirrors.remove (h : Mirrors s)
    (hget : ∀ i, t.client.inflight.get i = if i = id then none else s.client.inflight.get i)
    (hstored : t.stored = s.stored.erase id) : Mirrors t := by
  refine ⟨fun i e he => ?_, fun i => ?_⟩
  · rw [hget] at he
    split at he
    · cases he
    · exact h.unreserved i e he
  · rw [hstored, hget, Finset.mem_erase, h.ids i]
    split
    · rename_i heq
      exact iff_of_false (fun hboth => hboth.1 heq) Bool.false_ne_true
    · rename_i hne
      exact and_iff_right hne

/-! ### Outbound messages -/

theorem Mirrors.resume (h : Mirrors s) : Mirrors (s.resumeDeferredPublishes env).2 := by
  apply resume_invariant
  · intro v pk hv _ hpk _ _ _ _
    refine hv.replace (m := { pk with expiry := 0 }) rfl ?_ (fun id => get_put _ _ _) ?_
    · rw [hpk]
      rfl
    · exact stored_emit _ _
  · intro v pk hv _ hpk _
    have hput : ∀ w : Session, w.stored = v.stored → (w.client.inflight = (v.takeDeferred pk).client.inflight) →
        Mirrors (w.deferAgain { pk with expiry := 0 }) := by
      intro w hstored hinflight
      refine hv.replace (m := { pk with expiry := inflightExpiryDeferred }) rfl ?_ (fun id => ?_) hstored
      · rw [hpk]
        rfl
      · show (w.client.inflight.put { pk with expiry := inflightExpiryDeferred }).increaseSendQuota.2.get id = _
        rw [get_increaseSendQuota, get_put, hinflight]
        split
        · rfl
        · rename_i hne
          exact (get_put _ _ _).trans (if_neg hne)
    exact ⟨hput _ rfl rfl, fun out err => hput _ (stored_emit _ _) rfl⟩
  · exact fun hv => hv.same rfl fun id => get_resetSendQuotaIfEmpty _ _
  · exact h.same rfl fun id => get_recoverStarvedSendQuota _ _

theorem Mirrors.enqueue (h : Mirrors s) (hroom : 0 < out.fixedHeader.qos → s.CanQueue) :
    Mirrors (s.enqueue pk out).2 := by
  obtain ⟨-, heq⟩ | ⟨hfull, err, u, hu, ⟨hqos, -⟩ | ⟨-, heq⟩⟩ := s.enqueue_cases pk out
  · rw [heq]
    exact h.of_inflight rfl rfl
  · exact absurd (hroom hqos) hfull
  · rw [heq]
    rcases hu with rfl | rfl
    · exact h
    · exact h.of_inflight (stored_emit _ _) rfl

structure Reserves (id : UInt16) (s : Session) : Prop where
  entry : ∃ r, s.client.inflight.get id = some r ∧ r.expiry = inflightExpiryReserved
  unreserved : ∀ i, i ≠ id → Unreserved s i
  ids : ∀ i, i ≠ id → (i ∈ s.stored ↔ (s.client.inflight.get i).isSome = true)

theorem Reserves.put (h : Reserves m.packetID s) (hm : m.isCounted = true)
    (hget : ∀ i, t.client.inflight.get i = if i = m.packetID then some m else s.client.inflight.get i)
    (hlog : t.log = s.log ++ [.qosPublish m]) : Mirrors t := by
  have hstored : t.stored = insert m.packetID s.stored := by
    rw [← show persist s.stored (.qosPublish m) = insert m.packetID s.stored from rfl, ← stored_emit]
    exact stored_of_log hlog
  refine ⟨fun i e he => ?_, fun i => ?_⟩
  · rw [hget] at he
    split at he
    · cases he
      exact Packet.isCounted_iff.mp hm
    · rename_i hne
      exact h.unreserved i hne e he
  · rw [hstored, hget, Finset.mem_insert]
    split
    · rename_i heq
      exact iff_of_true (.inl heq) rfl
    · rename_i hne
      rw [or_iff_right hne]
      exact h.ids i hne

theorem Reserves.sendQos (h : Reserves out.packetID s) (hout : out.isCounted = true) (hroom : s.Parks ∨ s.CanQueue) :
    Mirrors (s.sendQos env pk out).2 := by
  obtain ⟨r, hget, hr⟩ := h.entry
  obtain ⟨-, hsend⟩ | ⟨hparks, quota, maximum, -, hsend⟩ := sendQos_cases env pk hget hr
  · rw [hsend]
    have hstored : Mirrors (s.park out) :=
      Reserves.put (m := { out with expiry := inflightExpiryDeferred }) h out.isCounted_deferred
        (fun id => get_put _ _ _) rfl
    exact hstored.resume
  · rw [hsend]
    have hopen : s.CanQueue := hroom.resolve_left hparks
    have hstored : Mirrors (s.storeQos out quota maximum) := h.put hout (fun id => get_put _ _ _) rfl
    exact hstored.enqueue fun _ => hopen

def Accommodates (s : Session) (sub : Subscription) (pk : Packet) : Prop :=
  0 < (s.prepare sub pk).1.fixedHeader.qos → s.Parks ∨ s.CanQueue

theorem Mirrors.publishToClient {sub : Subscription} (h : Mirrors s) (hpk : pk.expiry ≠ inflightExpiryReserved)
    (hroom : s.Accommodates sub pk) : Mirrors (s.publishToClient env sub pk).2 := by
  have haliased : ∀ outbound, Mirrors (s.withOutbound outbound) := fun _ => h.of_inflight rfl rfl
  have hcases := publishToClient_cases env s sub pk
  generalize s.publishToClient env sub pk = result at hcases ⊢
  cases hcases with
  | own | unauthorized => exact h
  | @exhausted outbound => exact (haliased outbound).of_inflight (stored_emit _ _) rfl
  | @sent outbound j out _ hqos _ _ _ hid hreserved _ hexpiry =>
    have hother : ∀ i, i ≠ out.packetID →
        (s.reserve env outbound j).client.inflight.get i = s.client.inflight.get i := by
      intro i hi
      rw [hid] at hi
      exact (get_put _ _ _).trans (if_neg hi)
    have hnew : Reserves out.packetID (s.reserve env outbound j) := by
      refine ⟨⟨_, hreserved, rfl⟩, fun i hi e he => ?_, fun i hi => ?_⟩
      · rw [hother i hi] at he
        exact h.unreserved i e he
      · rw [hother i hi]
        exact h.ids i
    have hcounted : out.isCounted = true := by
      rw [Packet.isCounted_iff, hexpiry]
      exact hpk
    exact hnew.sendQos hcounted (hroom hqos)
  | @queued outbound _ hqos => exact (haliased outbound).enqueue fun hpos => absurd hpos hqos

/-! ### PUBLISH -/

theorem Mirrors.writePacket (h : Mirrors s) (env : Env) (pk : Packet) : Mirrors (s.writePacket env pk).2 :=
  h.of_inflight (stored_writePacket env s pk) (by rw [writePacket_client])

theorem Mirrors.disconnectClient {code : Code} (h : Mirrors s) : Mirrors (s.disconnectClient env code).2 :=
  h.of_inflight (stored_disconnectClient env s code) (quiet_disconnectClient env s code).inflight

theorem Mirrors.halts (h : Mirrors s) {r : PublishResult} (hr : Halts env s r) : Mirrors r.session := by
  cases hr with
  | dropped => exact h
  | disconnected => exact h.disconnectClient
  | answered => exact h.writePacket _ _

theorem Mirrors.storePubrec (h : Mirrors s) (hm : m.isCounted = true) : Mirrors (s.storePubrec m) := by
  unfold Session.storePubrec Inflight.set
  cases hget : s.client.inflight.get m.packetID with
  | none => exact h.put hm (fun id => get_put _ _ _) (stored_emit _ _)
  | some e =>
    refine h.replace hm ?_ (fun id => get_put _ _ _) rfl
    rw [hget]
    rfl

theorem completePuback_id (ack q : Packet) : ∃ p : Packet, p.packetID = ack.packetID ∧
    s.completePuback ack q = (s.onInflight fun f => f.increaseReceiveQuota.2).emit (.qosComplete p) := by
  unfold completePuback
  refine ⟨_, ?_, rfl⟩
  split <;> rfl

variable {q : Packet}

theorem Mirrors.completePuback (h : Mirrors s) (hfree : s.client.inflight.get m.packetID = none) :
    Mirrors (s.completePuback m q) := by
  obtain ⟨p, hid, hp⟩ := @completePuback_id s m q
  rw [hp]
  have hget : ∀ i, (s.onInflight fun f => f.increaseReceiveQuota.2).client.inflight.get i = s.client.inflight.get i :=
    fun i => (sameSend_increaseReceiveQuota _).get i
  refine h.same ?_ hget
  rw [stored_emit]
  show s.stored.erase p.packetID = s.stored
  refine Finset.erase_eq_of_notMem fun hmem => ?_
  rw [hid, h.ids, hfree] at hmem
  cases hmem

theorem Mirrors.recordPublish (h : Mirrors s) (hm : m.isCounted = true)
    (hfree : pk.fixedHeader.qos = 1 → s.client.inflight.get m.packetID = none) :
    Mirrors (s.recordPublish env pk m).session := by
  unfold Session.recordPublish
  dsimp only
  have hstored : Mirrors (if pk.fixedHeader.qos = 2 then s.storePubrec m else s) := by
    split
    · exact h.storePubrec hm
    · exact h
  have hwritten := hstored.writePacket env m
  have hclient := writePacket_client (if pk.fixedHeader.qos = 2 then s.storePubrec m else s) env m
  generalize Session.writePacket env (if pk.fixedHeader.qos = 2 then s.storePubrec m else s) m = result
    at hwritten hclient
  obtain ⟨_ | err, v⟩ := result
  · dsimp only [PublishResult.session] at hwritten hclient ⊢
    split
    · rename_i hqos
      refine hwritten.completePuback ?_
      rw [hclient, if_neg (by rw [hqos]; decide)]
      exact hfree hqos
    · exact hwritten
  · exact hwritten

theorem Mirrors.acknowledgePublish (h : Mirrors s)
    (hack : env.now + s.server.caps.maximumMessageExpiryInterval ≠ inflightExpiryReserved)
    (hfree : pk.fixedHeader.qos = 1 → s.client.inflight.get pk.packetID = none) :
    Mirrors (s.acknowledgePublish env pk).session := by
  have hsame := s.client.inflight.sameSend_decreaseReceiveQuota
  have hquota : Mirrors (s.onInflight fun f => f.decreaseReceiveQuota.2) := h.same rfl fun id => hsame.get id
  unfold Session.acknowledgePublish
  dsimp only
  split
  · have hback : Mirrors ((s.onInflight fun f => f.decreaseReceiveQuota.2).onInflight fun f =>
        f.increaseReceiveQuota.2) :=
      hquota.same rfl fun id => (sameSend_increaseReceiveQuota _).get id
    exact hback.writePacket _ _
  · refine hquota.recordPublish ?_ fun hqos => ?_
    · rw [Packet.isCounted_iff, publishAck_expiry]
      exact hack
    · rw [publishAck_packetID]
      exact (hsame.get _).trans (hfree hqos)

/-- The message is not one of QoS 1 under the id of a message to the client, and a copy of it for the
client itself is not dropped. -/
structure Distinct (env : Env) (s : Session) (pk : Packet) : Prop where
  id : ∀ q, Passes env s (s.subject env pk) q → q.fixedHeader.qos = 1 → s.client.inflight.get q.packetID = none
  room : ∀ q sub, Passes env s (s.subject env pk) q → env.subscription q.topicName = some sub → s.Parks ∨ s.CanQueue

theorem stored_retained (s : Session) (q : Packet) : (s.retained q).stored = s.stored := by
  obtain ⟨-, -, hlog | hlog⟩ := retained_cases s q
  · exact stored_of_log hlog
  · refine (stored_of_log (s := s.emit (.retain (q.copy false))) hlog).trans ?_
    rw [stored_emit]
    rfl

theorem Mirrors.acceptPublish (h : Mirrors s)
    (hack : env.now + s.server.caps.maximumMessageExpiryInterval ≠ inflightExpiryReserved)
    (hfree : pk.fixedHeader.qos = 1 → s.client.inflight.get pk.packetID = none) :
    Mirrors (s.acceptPublish env pk).session := by
  obtain ⟨hclient, hcaps, -⟩ := retained_cases s pk
  have hretained : Mirrors (s.retained pk) := h.of_inflight (stored_retained s pk) (by rw [hclient])
  rw [acceptPublish_eq]
  split
  · exact hretained
  · refine hretained.acknowledgePublish ?_ fun hqos => ?_
    · rw [hcaps]
      exact hack
    · rw [hclient]
      exact hfree hqos

theorem Mirrors.receivePublish (h : Mirrors s)
    (hack : env.now + s.server.caps.maximumMessageExpiryInterval ≠ inflightExpiryReserved)
    (hfree : ∀ q, Passes env s (s.subject env pk) q → q.fixedHeader.qos = 1 → s.client.inflight.get q.packetID = none) :
    Mirrors (s.receivePublish env pk).session := by
  have haliased : Mirrors (s.aliased env pk) := by
    rw [aliased_eq]
    exact h.of_inflight rfl rfl
  obtain (hhalts | ⟨-, hhalts⟩) | ⟨-, q, hpass, hacc⟩ := receivePublish_halts env s pk
  · exact h.halts hhalts
  · exact haliased.halts hhalts
  · rw [hacc]
    refine haliased.acceptPublish ?_ fun hqos => ?_
    · rw [aliased_eq]
      exact hack
    · rw [aliased_eq]
      exact hfree q hpass hqos

structure SameLink (s t : Session) : Prop where
  conn : t.client.conn = s.client.conn
  closed : t.client.closed = s.client.closed
  queue : t.client.queue = s.client.queue
  version : t.client.protocolVersion = s.client.protocolVersion
  caps : t.server.caps = s.server.caps

theorem SameLink.trans (h : SameLink s t) (h' : SameLink t u) : SameLink s u :=
  ⟨h'.conn.trans h.conn, h'.closed.trans h.closed, h'.queue.trans h.queue, h'.version.trans h.version,
    h'.caps.trans h.caps⟩

theorem SameLink.canQueue (h : SameLink s t) (hs : s.CanQueue) : t.CanQueue := by
  unfold CanQueue
  rw [h.conn, h.closed, h.queue, h.caps]
  exact hs

theorem SameLink.parks (h : SameLink s t)
    (hmaximum : t.client.inflight.maximumSendQuota = s.client.inflight.maximumSendQuota)
    (hquota : t.client.inflight.sendQuota = s.client.inflight.sendQuota) (hs : s.Parks) : t.Parks := by
  unfold Parks
  rw [h.version, hmaximum, hquota]
  exact hs

theorem OnlyInflight.sameLink (h : OnlyInflight s t) : SameLink s t := by
  obtain ⟨⟨f, hf⟩, hcaps⟩ := h
  refine ⟨?_, ?_, ?_, ?_, hcaps⟩ <;> rw [hf]

theorem room_of_accepted (hret : s.receivePublish env pk = .accepted q t)
    (hroom : s.Parks ∨ s.CanQueue) : t.Parks ∨ t.CanQueue := by
  obtain ⟨err, t', hret', -⟩ | ⟨-, q', -, hacc⟩ := receivePublish_cases env s pk
  · rw [hret'] at hret
    cases hret
  · have hlink : SameLink s t := by
      have haliased : SameLink s (s.aliased env pk) := by
        rw [aliased_eq]
        exact ⟨rfl, rfl, rfl, rfl, rfl⟩
      have haccepted := haliased.trans (@onlyInflight_acceptPublish env (s.aliased env pk) q').sameLink
      rw [← hacc, hret] at haccepted
      exact haccepted
    have hinflight : ((s.aliased env pk).retained q').client.inflight = s.client.inflight := by
      rw [(retained_cases _ _).1, aliased_eq]
    have hquota : t.client.inflight.maximumSendQuota = s.client.inflight.maximumSendQuota ∧
        t.client.inflight.sendQuota = s.client.inflight.sendQuota := by
      rw [hret] at hacc
      obtain ⟨-, _, _, hret', -⟩ | ⟨-, -, -, _, _, hret', -⟩ | ⟨-, hret'⟩ | ⟨-, -, v, hret', -, hsame⟩ :=
        acceptPublish_cases env (s.aliased env pk) q'
      · rw [hret'] at hacc
        cases hacc
      · rw [hret'] at hacc
        cases hacc
      · rw [hret'] at hacc
        cases hacc
        rw [hinflight]
        exact ⟨rfl, rfl⟩
      · rw [hret'] at hacc
        cases hacc
        rw [hsame.maximumSendQuota, hsame.sendQuota, ← hinflight]
        unfold recorded
        split <;> exact ⟨rfl, rfl⟩
    exact hroom.imp (hlink.parks hquota.1 hquota.2) hlink.canQueue

theorem Mirrors.publishToSubscribers (h : Mirrors s) (hnow : 0 ≤ env.now)
    (hexpiry : q.expiry ≠ inflightExpiryReserved) (hcreated : 0 ≤ q.created)
    (hroom : ∀ sub, env.subscription q.topicName = some sub → s.Parks ∨ s.CanQueue) :
    Mirrors (s.publishToSubscribers env q) := by
  have hforward : Mirrors (s.emit (.forward q)) := h.of_inflight (stored_emit _ _) rfl
  exact publishToSubscribers_cases (fun _ => ne_reserved_of_nonneg) hnow hexpiry hcreated hforward
    fun sub p hsub hp => hforward.publishToClient hp fun _ => hroom sub hsub

theorem Mirrors.processPublish (h : Mirrors s) (hmark : Unmarked env s pk) (hdistinct : Distinct env s pk) :
    Mirrors (s.processPublish env pk).2 := by
  refine processPublish_invariant (h.receivePublish hmark.ack hdistinct.id) fun {q t} hret hreceived => ?_
  have hpass := passes_of_accepted hret
  obtain ⟨hexpiry, hcreated⟩ :=
    expiry_of_passes (fun _ => ne_reserved_of_nonneg) hmark.now hmark.publish hmark.hook hpass
  have hforwarded : Mirrors (t.publishToSubscribers env q) :=
    hreceived.publishToSubscribers hmark.now hexpiry hcreated
      fun sub hsub => room_of_accepted hret (hdistinct.room q sub hpass hsub)
  exact hforwarded.of_inflight (stored_emit _ _) rfl

/-! ### Acknowledgements -/

theorem Mirrors.processPuback (h : Mirrors s) : Mirrors (s.processPuback pk).2 := by
  unfold Session.processPuback
  cases hget : s.client.inflight.get pk.packetID with
  | none => exact h
  | some e =>
    dsimp only
    rw [if_neg (h.unreserved _ e hget)]
    refine h.remove (fun i => (get_increaseSendQuota _ _).trans (get_remove _ _ _)) ?_
    exact (stored_emit _ _).trans (congrArg s.stored.erase (Packet.fillFrom_packetID _ _))

theorem Mirrors.dropExchange {e : Packet} (h : Mirrors s) : Mirrors (s.dropExchange pk e) := by
  refine h.remove (fun i => get_remove _ _ _) ?_
  exact (stored_emit _ _).trans (congrArg s.stored.erase (Packet.fillFrom_packetID _ _))

section
variable (hack : env.now + s.server.caps.maximumMessageExpiryInterval ≠ inflightExpiryReserved)
include hack

theorem Mirrors.replaceAck (h : Mirrors s) {e ack : Packet} (hget : s.client.inflight.get pk.packetID = some e)
    (hid : ack.packetID = pk.packetID) (hexpiry : ack.expiry = env.now + s.server.caps.maximumMessageExpiryInterval)
    {f : Inflight → Inflight} (hf : ∀ i, (f s.client.inflight).get i = s.client.inflight.get i) :
    Mirrors (s.onInflight fun g => (f g).put ack) := by
  refine h.replace (m := ack) ?_ ?_ (fun i => (get_put _ _ _).trans (by rw [hf])) rfl
  · rw [Packet.isCounted_iff, hexpiry]
    exact hack
  · rw [hid, hget]
    rfl

theorem Mirrors.processPubrec (h : Mirrors s) : Mirrors (s.processPubrec env pk).2 := by
  apply processPubrec_invariant
  · exact fun _ hu => hu.writePacket _ _
  · exact fun _ => h.dropExchange
  · exact fun hget hid _ hexpiry => h.replaceAck hack hget hid hexpiry (sameSend_decreaseReceiveQuota _).get
  · exact h

theorem Mirrors.processPubrel (h : Mirrors s) : Mirrors (s.processPubrel env pk).2 := by
  apply processPubrel_invariant
  · exact fun _ hu => hu.writePacket _ _
  · exact fun _ => h.dropExchange
  · exact fun hget hid _ hexpiry => h.replaceAck hack hget hid hexpiry (f := id) fun _ => rfl
  · intro e ack t ht _ _ _
    refine @Mirrors.remove _ _ pk.packetID ht (fun i => ?_) ?_
    · refine (get_remove _ _ _).trans ?_
      rw [get_increaseSendQuota, (sameSend_increaseReceiveQuota _).get]
    · refine (stored_emit _ _).trans ?_
      show t.stored.erase (pk.fillFrom e).packetID = _
      rw [Packet.fillFrom_packetID]
  · exact h

end

theorem Mirrors.processPubcomp (h : Mirrors s) : Mirrors (s.processPubcomp pk).2 := by
  have hsame : ∀ id, (s.onInflight fun f => f.increaseReceiveQuota.2.increaseSendQuota.2).client.inflight.get id =
      s.client.inflight.get id := fun id => (get_increaseSendQuota _ _).trans ((sameSend_increaseReceiveQuota _).get id)
  have hquota : Mirrors (s.onInflight fun f => f.increaseReceiveQuota.2.increaseSendQuota.2) := h.same rfl hsame
  unfold Session.processPubcomp
  dsimp only
  split
  · exact hquota
  · rename_i e he
    refine hquota.remove (fun i => get_remove _ _ _) ?_
    exact (stored_emit _ _).trans (congrArg s.stored.erase (Packet.fillFrom_packetID _ _))

/-! ### Sweeps -/

theorem Mirrors.clearExpiredInflights (h : Mirrors s) {now maximumExpiry : Int} :
    Mirrors (s.clearExpiredInflights env now maximumExpiry).2 :=
  clearExpiredInflights_invariant (fun hs _ _ _ _ => hs.remove (get_swept _ _) (stored_emit _ _)) h

theorem Mirrors.clearInflights (h : Mirrors s) : Mirrors (s.clearInflights env) := by
  refine clearInflights_invariant (fun {u tk} hu hget => ?_) h
  rw [if_pos (hu.unreserved _ tk hget)]
  exact hu.remove (fun i => get_remove _ _ _) (stored_emit _ _)

end Session

/-! ### Runs -/

namespace Persisted
open Session Inflight

def exchanges : List PacketType := [.publish, .puback, .pubrec, .pubrel, .pubcomp]

/-- A complete call for the client: a message is published to it, a packet of it is handled, the write loop
takes a turn, or its inflight messages are swept or cleared. -/
inductive Call where
  | deliver (sub : Subscription) (pk : Packet)
  | packet (pk : { pk : Packet // pk.fixedHeader.type ∈ exchanges })
  | write
  | sweep (now maximumExpiry : Int)
  | clear

def run (s : Session) : Env × Call → Session
  | (env, .deliver sub pk) => (s.publishToClient env sub pk).2
  | (env, .packet pk) => (s.processPacket env pk.1).2
  | (env, .write) => s.writeNext env
  | (env, .sweep now maximumExpiry) => (s.clearExpiredInflights env now maximumExpiry).2
  | (env, .clear) => s.clearInflights env

def Step (s : Session) (call : Env × Call) (t : Session) : Prop := t = run s call

/-- No message that is stored is dropped from the queue or for a closed connection, a PUBLISH of QoS 1 does
not have the id of an inflight message, and no expiry is the mark of a reservation. -/
def Lossless (s : Session) : Env × Call → Prop
  | (_, .deliver sub pk) => pk.expiry ≠ inflightExpiryReserved ∧ s.Accommodates sub pk
  | (env, .packet pk) => env.now + s.server.caps.maximumMessageExpiryInterval ≠ inflightExpiryReserved ∧
      (pk.1.fixedHeader.type = .publish → Unmarked env s pk.1 ∧ Distinct env s pk.1)
  | _ => True

variable {env : Env} {s t : Session}

theorem mirrors_handle {pk : { pk : Packet // pk.fixedHeader.type ∈ exchanges }} (h : Mirrors s)
    (hok : Lossless s (env, .packet pk)) : Mirrors (s.handle env pk.1).2 := by
  obtain ⟨pk, htype⟩ := pk
  obtain ⟨hack, hpublish⟩ := hok
  unfold Session.handle
  simp only [exchanges, List.mem_cons, List.not_mem_nil, or_false] at htype
  rcases htype with htype | htype | htype | htype | htype
  · rw [htype]
    obtain ⟨hmark, hdistinct⟩ := hpublish htype
    dsimp only
    unfold validated
    split
    · exact h
    · exact h.processPublish hmark hdistinct
  · rw [htype]
    exact h.processPuback
  · rw [htype]
    exact h.processPubrec hack
  · rw [htype]
    exact h.processPubrel hack
  · rw [htype]
    exact h.processPubcomp

theorem mirrors_run {call : Env × Call} (h : Mirrors s) (hok : Lossless s call) : Mirrors (run s call) := by
  obtain ⟨env, call⟩ := call
  cases call with
  | deliver sub pk => exact h.publishToClient hok.1 hok.2
  | packet pk => exact processPacket_invariant (mirrors_handle h hok) fun ht => ht.resume
  | write =>
    show Mirrors (s.writeNext env)
    unfold writeNext
    split
    · exact h
    · exact h.of_inflight (stored_writePacketOn _ _ _ _) (by rw [writePacketOn_client])
  | sweep now maximumExpiry => exact h.clearExpiredInflights
  | clear => exact h.clearInflights

/-- As long as no call loses a message silently, the stored ids are those of the messages in flight. -/
theorem stored_of_lossless (hs : Mirrors s) (hr : Runs.Reach Step Lossless s t) (id : UInt16) :
    id ∈ t.stored ↔ ∃ e, t.client.inflight.get id = some e ∧ e.expiry ≠ inflightExpiryReserved := by
  have ht : Mirrors t := by
    refine hr.invariant hs ?_
    rintro u call v hu hok rfl
    exact mirrors_run hu hok
  rw [ht.ids id, Option.isSome_iff_exists]
  constructor
  · rintro ⟨e, he⟩
    exact ⟨e, he, ht.unreserved id e he⟩
  · rintro ⟨e, he, -⟩
    exact ⟨e, he⟩

def client (queue : List Queued) : Session :=
  { client := { queue := queue, inflight := Inflight.new.resetReceiveQuota 10 },
    server := { caps := { maximumClientWritesPending := 1 } } }

def message : Packet := { fixedHeader := { type := .publish, qos := 1 }, topicName := [97], payload := [1] }

theorem mirrors_client (queue : List Queued) : Mirrors (client queue) := by
  have hget : ∀ id, (client queue).client.inflight.get id = none := fun _ => rfl
  refine ⟨fun id e he => ?_, fun id => ?_⟩
  · rw [hget] at he
    cases he
  · rw [hget]
    exact iff_of_false (Finset.notMem_empty id) Bool.false_ne_true

def delivery : Env × Call := (.accepting 100, .deliver { filter := [97], qos := 1 } message)

theorem exists_unreserved {o : Option Packet} (h : o.any (fun e => e.expiry != inflightExpiryReserved) = true) :
    ∃ e, o = some e ∧ e.expiry ≠ inflightExpiryReserved := by
  obtain ⟨e, he, hne⟩ := (Option.any_eq_true _ _).mp h
  exact ⟨e, he, bne_iff_ne.mp hne⟩

theorem stored_of_delivery : 1 ∈ (run (client []) delivery).stored := by
  have hok : Lossless (client []) delivery := ⟨by decide, fun _ => .inr ⟨rfl, rfl, by decide⟩⟩
  rw [stored_of_lossless (mirrors_client []) (Runs.Reach.refl.next hok rfl) 1]
  exact exists_unreserved (by decide +kernel)

def publishOne : Packet := { fixedHeader := { type := .publish, qos := 1 }, packetID := 1, topicName := [98] }

/-- A message that finds the queue full stays stored, and a PUBLISH with the id of a message in flight takes
that message out of the store. -/
theorem store_diverges :
    (∃ t, Runs.Reach Step (fun _ _ => True) (client [⟨{}, [97]⟩]) t ∧ 1 ∈ t.stored ∧
        t.client.inflight.get 1 = none) ∧
      ∃ t, Runs.Reach Step (fun _ _ => True) (client []) t ∧ 1 ∉ t.stored ∧
        ∃ e, t.client.inflight.get 1 = some e ∧ e.expiry ≠ inflightExpiryReserved := by
  exact ⟨⟨run (client [⟨{}, [97]⟩]) delivery, .next .refl trivial rfl, by decide +kernel, by decide +kernel⟩,
    run (run (client []) delivery) (.accepting 100, .packet ⟨publishOne, by decide⟩),
    .next (.next .refl trivial rfl) trivial rfl, by decide +kernel, exists_unreserved (by decide +kernel)⟩

end Persisted
end Mqtt
