import MqttBroker.Session.Cases
import MqttBroker.Session.PacketIDs

/-! Calls that fail. A `publishToClient` that returns an error has taken back its packet
id, its send quota and its count. A PUBLISH that is refused is passed to nobody, but
a message to be retained is retained before its packet id is checked. -/

namespace Mqtt
open FiniteMap

namespace Inflight
variable {f : Inflight} {m : Packet}

theorem remove_of_get_eq_none {id : UInt16} (h : f.get id = none) : f.remove id = f := by
  have hentries : f.internal.erase id = f.internal := by
    refine AList.ext ?_
    show List.kerase id f.internal.entries = f.internal.entries
    refine List.kerase_of_notMem_keys ?_
    exact AList.lookup_eq_none.mp h
  unfold remove
  simp only [hentries]

theorem remove_put_new (h : f.get m.packetID = none) : (f.put m).remove m.packetID = f := by
  rw [remove_put, remove_of_get_eq_none h]

theorem increase_of_taken {g : Inflight} (hhigh : f.sendQuota ≤ f.maximumSendQuota)
    (h : g = { f with sendQuota := f.sendQuota - 1 }) : g.increaseSendQuota.2 = f := by
  have hlt : ¬f.maximumSendQuota ≤ f.sendQuota - 1 := by omega
  unfold increaseSendQuota
  rw [h]
  dsimp only
  rw [if_neg hlt, Int.sub_add_cancel]

theorem increase_of_full (h : f.maximumSendQuota ≤ f.sendQuota) : f.increaseSendQuota.2 = f := by
  unfold increaseSendQuota
  rw [if_pos h]

end Inflight

namespace Session
open Inflight
variable {env : Env} {s t : Session} {sub : Subscription} {pk out : Packet} {err : Error}

/-! ### `publishToClient` -/

theorem enqueue_failed {e : Packet} (hget : s.client.inflight.get out.packetID = some e) (hid : 0 < out.packetID)
    (hqos : 0 < out.fixedHeader.qos) (h : s.enqueue pk out = (some err, t)) :
    t.client.inflight = (s.client.inflight.remove out.packetID).increaseSendQuota.2 ∧
      t.server.info.inflight = s.server.info.inflight - 1 := by
  have hdrop : ∀ u : Session, u.client = s.client →
      (u.dropStored out.packetID).client.inflight = (s.client.inflight.remove out.packetID).increaseSendQuota.2 ∧
        (u.dropStored out.packetID).server.info.inflight = u.server.info.inflight - 1 := by
    intro u hu
    have hget' : u.client.inflight.get out.packetID = some e := by
      rw [hu]
      exact hget
    rw [dropStored_of_get hget', ← hu]
    exact ⟨rfl, rfl⟩
  obtain ⟨-, heq⟩ | ⟨-, e', u, hu, ⟨-, heq⟩ | ⟨hnot, -⟩⟩ := s.enqueue_cases pk out
  · cases heq.symm.trans h
  · cases heq.symm.trans h
    rcases hu with rfl | rfl
    · exact hdrop _ rfl
    · exact hdrop _ rfl
  · exact absurd ⟨hqos, hid⟩ hnot

theorem enqueue_unstored (hqos : ¬0 < out.fixedHeader.qos) (h : s.enqueue pk out = (some err, t)) :
    t.client.inflight = s.client.inflight ∧ t.server.info.inflight = s.server.info.inflight := by
  obtain ⟨-, heq⟩ | ⟨-, e', u, hu, ⟨hpos, -⟩ | ⟨-, heq⟩⟩ := s.enqueue_cases pk out
  · cases heq.symm.trans h
  · exact absurd hpos hqos
  · cases heq.symm.trans h
    rcases hu with rfl | rfl <;> exact ⟨rfl, rfl⟩

theorem sendQos_failed {r : Packet} (hversion : 5 ≤ s.client.protocolVersion)
    (hlow : 0 ≤ s.client.inflight.sendQuota) (hhigh : s.client.inflight.sendQuota ≤ s.client.inflight.maximumSendQuota)
    (hget : s.client.inflight.get out.packetID = some r) (hr : r.expiry = inflightExpiryReserved)
    (hid : 0 < out.packetID) (hqos : 0 < out.fixedHeader.qos) (h : s.sendQos env pk out = (some err, t)) :
    t.client.inflight = s.client.inflight.remove out.packetID ∧
      t.server.info.inflight = s.server.info.inflight := by
  obtain ⟨-, heq⟩ | ⟨hopen, quota, maximum, htaken, heq⟩ := sendQos_cases env pk hget hr
  · cases heq.symm.trans h
  · rw [heq] at h
    obtain ⟨rfl, rfl⟩ := htaken hversion
    obtain ⟨hinflight, hcount⟩ := enqueue_failed (e := out) ((get_put _ _ _).trans (if_pos rfl)) hid hqos h
    refine ⟨hinflight.trans ?_, hcount.trans (Int.add_sub_cancel _ _)⟩
    have hremove : (s.client.inflight.put out).remove out.packetID = s.client.inflight.remove out.packetID :=
      remove_put _ _
    by_cases hlimited : 0 < s.client.inflight.maximumSendQuota
    · apply increase_of_taken (f := s.client.inflight.remove out.packetID) hhigh
      rw [if_pos hlimited]
      exact congrArg (fun f : Inflight => { f with sendQuota := s.client.inflight.sendQuota - 1 }) hremove
    · rw [if_neg hlimited]
      refine Eq.trans ?_ (increase_of_full (f := s.client.inflight.remove out.packetID) ?_)
      · exact congrArg (fun f : Inflight => f.increaseSendQuota.2) hremove
      · show s.client.inflight.maximumSendQuota ≤ s.client.inflight.sendQuota
        omega

/-- A call for an MQTT 5 client that returns an error has changed nothing of the flow control. -/
theorem publishToClient_failed {env : Env} {s t : Session} {sub : Subscription} {pk : Packet} {err : Error}
    (hversion : s.client.protocolVersion = 5) (hlow : 0 ≤ s.client.inflight.sendQuota)
    (hhigh : s.client.inflight.sendQuota ≤ s.client.inflight.maximumSendQuota)
    (hids : s.server.caps.maximumPacketID ≤ 65535) (h : s.publishToClient env sub pk = (some err, t)) :
    t.client.inflight = s.client.inflight ∧ t.server.info.inflight = s.server.info.inflight := by
  have hcases := publishToClient_cases env s sub pk
  rw [h] at hcases
  generalize hresult : (some err, t) = result at hcases
  cases hcases with
  | own => cases hresult
  | unauthorized | exhausted =>
    cases hresult
    exact ⟨rfl, rfl⟩
  | @sent outbound j out _ hqos hnext hfree _ hid hreserved hheader _ =>
    have hversion' : 5 ≤ (s.reserve env outbound j).client.protocolVersion := UInt8.le_of_eq hversion.symm
    have hpos : 0 < out.packetID := by
      rw [hid]
      exact nextPacketID_pos (s := s.withOutbound outbound) hids hnext
    have hqos' : 0 < out.fixedHeader.qos := by
      rw [hheader]
      exact hqos
    obtain ⟨hinflight, hcount⟩ := sendQos_failed hversion' hlow hhigh hreserved rfl hpos hqos' hresult.symm
    rw [hid] at hinflight
    exact ⟨hinflight.trans (remove_put_new (m := reservation env.now (UInt16.ofNat j)) hfree), hcount⟩
  | @queued outbound _ hqos => exact enqueue_unstored (s := s.withOutbound outbound) hqos hresult.symm

def crowded : Session :=
  { client :=
      { protocolVersion := 5
        inflight := Inflight.new.resetSendQuota 1
        queue := [⟨{}, []⟩] }
    server := { caps := { maximumClientWritesPending := 1 } } }

/-- The message for which the queue has no room gives back its id and its quota. -/
theorem crowded_unchanged :
    ∃ t, crowded.publishToClient (.accepting 0) { qos := 1 } { fixedHeader := { type := .publish, qos := 1 } } =
        (some (.code .pendingClientWritesExceeded), t) ∧
      t.client.inflight = crowded.client.inflight ∧ t.server.info.inflight = 0 := by
  have hcall : (crowded.publishToClient (.accepting 0) { qos := 1 }
      { fixedHeader := { type := .publish, qos := 1 } }).1 = some (.code .pendingClientWritesExceeded) := by
    decide +kernel
  refine ⟨_, Prod.ext hcall rfl, ?_⟩
  exact publishToClient_failed rfl (by decide) (by decide) (by decide) (Prod.ext hcall rfl)

/-! ### What is logged -/

def Logs (p : Event → Bool) (s t : Session) : Prop := ∃ es, t.log = s.log ++ es ∧ ∀ e ∈ es, p e = true

section Logs
variable {p : Event → Bool} {u : Session} {q ack : Packet}

theorem Logs.of_log (h : t.log = s.log) : Logs p s t :=
  ⟨[], by rw [h, List.append_nil], fun _ he => absurd he List.not_mem_nil⟩

theorem Logs.trans (h : Logs p s t) (h' : Logs p t u) : Logs p s u := by
  obtain ⟨es, hlog, hes⟩ := h
  obtain ⟨es', hlog', hes'⟩ := h'
  refine ⟨es ++ es', by rw [hlog', hlog, List.append_assoc], ?_⟩
  intro e he
  rcases List.mem_append.mp he with he | he
  · exact hes e he
  · exact hes' e he

theorem logs_emit {e : Event} (he : p e = true) : Logs p s (s.emit e) :=
  ⟨[e], rfl, fun e' h => by rw [List.mem_singleton.mp h, he]⟩

theorem Logs.drop (h : Logs p s t) : ∀ e ∈ t.log.drop s.log.length, p e = true := by
  obtain ⟨es, hlog, hes⟩ := h
  rw [hlog, List.drop_left]
  exact hes

theorem logs_writePacket (hwrote : ∀ topic, p (.wrote (s.outgoing env pk) topic) = true)
    (hfailed : ∀ err, p (.writeFailed (s.outgoing env pk) err) = true)
    (hclosed : ∀ err, p (.writeFailed pk err) = true) : Logs p s (s.writePacket env pk).2 := by
  unfold writePacket writePacketOn
  split
  · exact logs_emit (hclosed _)
  · split
    · exact .of_log rfl
    · split
      · exact logs_emit (hfailed _)
      · exact logs_emit (hwrote _)

theorem logs_disconnectClient (code : Code)
    (hwrote : ∀ out topic, out.fixedHeader.type = .disconnect → p (.wrote out topic) = true)
    (hfailed : ∀ out err, out.fixedHeader.type = .disconnect → p (.writeFailed out err) = true) :
    Logs p s (s.disconnectClient env code).2 := by
  have hw : Logs p s (s.writePacket env (disconnectPacket code)).2 :=
    logs_writePacket (fun topic => hwrote _ topic rfl) (fun err => hfailed _ err rfl) fun err => hfailed _ err rfl
  exact disconnectClient_invariant (P := Logs p s) hw fun h => h.trans (.of_log (stop_log env _ _))

theorem logs_retained (hretain : ∀ m, p (.retain m) = true) : Logs p s (s.retained q) := by
  obtain ⟨-, -, hlog | hlog⟩ := retained_cases s q
  · exact .of_log hlog
  · exact ⟨_, hlog, fun e he => by rw [List.mem_singleton.mp he, hretain]⟩

theorem logs_storePubrec (hqos : ∀ m, p (.qosPublish m) = true) : Logs p s (s.storePubrec ack) := by
  unfold storePubrec
  split
  · refine Logs.trans (t := (s.onInflight fun f => f.put ack).countInflight 1) (.of_log rfl) ?_
    exact logs_emit (hqos ack)
  · exact .of_log rfl

theorem recordPublish_session (env : Env) (s : Session) (q ack : Packet) :
    ∃ u, u = (if q.fixedHeader.qos = 2 then s.storePubrec ack else s) ∧
      ((s.recordPublish env q ack).session = (u.writePacket env ack).2 ∨
        (s.recordPublish env q ack).session = (u.writePacket env ack).2.completePuback ack q) := by
  refine ⟨_, rfl, ?_⟩
  unfold recordPublish
  generalize (if q.fixedHeader.qos = 2 then s.storePubrec ack else s) = u
  dsimp only
  rcases u.writePacket env ack with ⟨_ | err, t⟩
  · dsimp only [PublishResult.session]
    split
    · exact .inr rfl
    · exact .inl rfl
  · exact .inl rfl

theorem logs_recordPublish (hqos : ∀ m, p (.qosPublish m) = true) (hcomplete : ∀ m, p (.qosComplete m) = true)
    (hack : ∀ u : Session, Logs p u (u.writePacket env ack).2) : Logs p s (s.recordPublish env q ack).session := by
  obtain ⟨u, hu, hsession⟩ := recordPublish_session env s q ack
  have hstored : Logs p s u := by
    rw [hu]
    split
    · exact logs_storePubrec hqos
    · exact .of_log rfl
  have hwritten := hstored.trans (hack u)
  rcases hsession with hsession | hsession
  · rw [hsession]
    exact hwritten
  · rw [hsession]
    refine hwritten.trans ?_
    exact Logs.trans (t := (u.writePacket env ack).2.onInflight fun f => f.increaseReceiveQuota.2) (.of_log rfl)
      (logs_emit (hcomplete _))

end Logs

/-! ### Refused PUBLISH packets -/

def isErrorAck (pk : Packet) : Bool :=
  (pk.fixedHeader.type == .puback || pk.fixedHeader.type == .pubrec) && 0x80 ≤ pk.reasonCode

def isRefusal : Event → Bool
  | .wrote pk _ => isErrorAck pk
  | .writeFailed pk _ => isErrorAck pk
  | _ => false

def isPassedOn : Event → Bool
  | .forward _ => true
  | .published _ => true
  | _ => false

/-- `processPublish` answers with an error, or it drops the PUBLISH because of its topic, of the access check or
of `OnPublish`. -/
def Refused (env : Env) (s : Session) (pk : Packet) : Prop :=
  (∃ e ∈ (s.receivePublish env pk).session.log.drop s.log.length, isRefusal e = true) ∨
    (s.client.inline = false ∧ isValidFilter pk.topicName true = false) ∨
    (s.client.inline = false ∧ env.onACLCheck s.client.id pk.topicName true = false) ∨
    env.onPublish (s.subject env pk) = .reject

def WithoutEffect (s t : Session) : Prop :=
  (∀ topic, t.server.topics.retained.lookup topic = s.server.topics.retained.lookup topic) ∧
    ∀ e ∈ t.log.drop s.log.length, isPassedOn e = false

/-- The message is to be retained, and is not what its topic already retains; or it has no payload, and something is. -/
def Replaces (s : Session) (q : Packet) : Prop :=
  q.fixedHeader.retain = true ∧ s.server.caps.retainAvailable ≠ 0 ∧ q.ignore = false ∧
    s.server.topics.retained.lookup q.topicName ≠ if 0 < q.payload.length then some (q.copy false) else none

/-- The message passes `OnPublish` and replaces what is retained, and then its packet id is found to be taken. -/
def RetainsBlocked (env : Env) (s : Session) (pk : Packet) : Prop :=
  Admits env s pk ∧ s.client.inline = false ∧ (s.client.closed = true ∨ s.client.conn = true) ∧
    ∃ q, Passes env s (s.subject env pk) q ∧ s.isBlocked q = true ∧ s.Replaces q

theorem lookup_retained {q : Packet} (topic : Bytes) :
    (s.retained q).server.topics.retained.lookup topic =
      if q.fixedHeader.retain = true ∧ s.server.caps.retainAvailable ≠ 0 ∧ q.ignore = false ∧ topic = q.topicName then
        if 0 < q.payload.length then some (q.copy false) else none
      else s.server.topics.retained.lookup topic := by
  unfold retained retainMessage
  cases q.fixedHeader.retain with
  | false => simp
  | true =>
    by_cases hoff : s.server.caps.retainAvailable = 0 ∨ q.ignore = true
    · rw [if_pos rfl, if_pos hoff, if_neg fun h => hoff.elim h.2.1 fun hignore => by simp [hignore] at h]
    · rw [not_or, Bool.not_eq_true] at hoff
      rw [if_pos rfl, if_neg (by simp [hoff])]
      refine (TopicsIndex.lookup_retainMessage _ _ topic).trans ?_
      simp [hoff, Packet.copy]

theorem replaces_iff {q : Packet} : s.Replaces q ↔
    ∃ topic, (s.retained q).server.topics.retained.lookup topic ≠ s.server.topics.retained.lookup topic := by
  constructor
  · rintro ⟨hretain, havailable, hignore, hother⟩
    refine ⟨q.topicName, ?_⟩
    rw [lookup_retained, if_pos ⟨hretain, havailable, hignore, rfl⟩]
    exact hother.symm
  · rintro ⟨topic, hchanged⟩
    rw [lookup_retained] at hchanged
    split at hchanged
    · rename_i h
      obtain ⟨hretain, havailable, hignore, rfl⟩ := h
      exact ⟨hretain, havailable, hignore, hchanged.symm⟩
    · exact absurd rfl hchanged

section PassedOn

abbrev Withheld (s t : Session) : Prop := Logs (fun e => !isPassedOn e) s t

theorem withheld_writePacket : Withheld s (s.writePacket env pk).2 :=
  logs_writePacket (fun _ => rfl) (fun _ => rfl) fun _ => rfl

theorem withheld_answer : Withheld s (s.answer env pk).session := withheld_writePacket

theorem withheld_disconnectClient (code : Code) : Withheld s (s.disconnectClient env code).2 :=
  logs_disconnectClient code (fun _ _ _ => rfl) fun _ _ _ => rfl

theorem withheld_recordPublish {q ack : Packet} : Withheld s (s.recordPublish env q ack).session :=
  logs_recordPublish (fun _ => rfl) (fun _ => rfl) fun _ => withheld_writePacket

theorem withheld_acceptPublish {q : Packet} : Withheld s (s.acceptPublish env q).session := by
  have hretained : Withheld s (s.retained q) := logs_retained fun _ => rfl
  rw [acceptPublish_eq]
  split
  · exact hretained
  · refine hretained.trans ?_
    unfold acknowledgePublish
    dsimp only
    split
    · refine Logs.trans (t := ((s.retained q).onInflight fun f => f.decreaseReceiveQuota.2).onInflight
        fun f => f.increaseReceiveQuota.2) (.of_log rfl) withheld_answer
    · exact Logs.trans (t := (s.retained q).onInflight fun f => f.decreaseReceiveQuota.2) (.of_log rfl)
        withheld_recordPublish

theorem Halts.withheld {r : PublishResult} (h : Halts env s r) : Withheld s r.session := by
  cases h with
  | dropped => exact .of_log rfl
  | disconnected => exact withheld_disconnectClient _
  | answered => exact withheld_answer

theorem withheld_receivePublish (env : Env) (s : Session) (pk : Packet) :
    Withheld s (s.receivePublish env pk).session := by
  have haliased : Withheld s (s.aliased env pk) := by
    rw [aliased_eq]
    exact .of_log rfl
  obtain (hhalts | ⟨-, hhalts⟩) | ⟨-, q, -, hacc⟩ := receivePublish_halts env s pk
  · exact hhalts.withheld
  · exact haliased.trans hhalts.withheld
  · rw [hacc]
    exact haliased.trans withheld_acceptPublish

end PassedOn

section Answers

abbrev Unrefused (s t : Session) : Prop := Logs (fun e => !isRefusal e) s t

theorem publishAck_reasonCode (env : Env) (s : Session) (q : Packet) : (s.publishAck env q).reasonCode = 0 := by
  unfold publishAck
  rw [Packet.fillFrom_reasonCode]
  rfl

theorem isErrorAck_of_success (h : pk.reasonCode = 0) : isErrorAck pk = false := by
  unfold isErrorAck
  rw [h, Bool.and_eq_false_iff]
  exact .inr rfl

theorem unrefused_acknowledgePublish {q : Packet} (h : s.isBlocked q = false) :
    Unrefused s (s.acknowledgePublish env q).session := by
  have hreason := publishAck_reasonCode env s q
  have hblock : (s.onInflight fun f => f.decreaseReceiveQuota.2).isBlocked q = false := by
    unfold isBlocked
    rw [onInflight_client, s.client.inflight.sameSend_decreaseReceiveQuota.get]
    exact h
  have hack : (s.onInflight fun f => f.decreaseReceiveQuota.2).publishAck env q = s.publishAck env q := rfl
  unfold acknowledgePublish
  dsimp only
  rw [hblock, if_neg Bool.false_ne_true, hack]
  refine Logs.trans (t := s.onInflight fun f => f.decreaseReceiveQuota.2) (.of_log rfl) ?_
  refine logs_recordPublish (fun _ => rfl) (fun _ => rfl) fun u => ?_
  have hplain : isErrorAck (u.outgoing env (s.publishAck env q)) = false := isErrorAck_of_success hreason
  refine logs_writePacket (fun topic => ?_) (fun err => ?_) fun err => ?_
  · simp only [isRefusal, hplain, Bool.not_false]
  · simp only [isRefusal, hplain, Bool.not_false]
  · simp only [isRefusal, isErrorAck_of_success hreason, Bool.not_false]

theorem answer_refusal {ack : Packet} (h : isErrorAck ack = true) :
    (s.answer env ack).session.server = s.server ∧
      ((s.client.closed = true ∨ s.client.conn = true) →
        ∃ e ∈ (s.answer env ack).session.log.drop s.log.length, isRefusal e = true) ∧
      (¬(s.client.closed = true ∨ s.client.conn = true) → (s.answer env ack).session.log = s.log) := by
  have hemit : ∀ e, isRefusal e = true → ∃ e' ∈ (s.emit e).log.drop s.log.length, isRefusal e' = true := by
    intro e he
    refine ⟨e, ?_, he⟩
    rw [emit_log, List.drop_left]
    exact List.mem_singleton_self e
  have hsession : (s.answer env ack).session = (s.writePacketOn env ack.topicName ack).2 := rfl
  have hserver : (s.writePacketOn env ack.topicName ack).2.server = s.server := writePacketOn_server _ _ _ _
  refine ⟨hsession ▸ hserver, ?_, ?_⟩
  · rw [hsession]
    intro hopen
    unfold writePacketOn
    split
    · exact hemit _ h
    · rename_i hclosed
      have hconn : s.client.conn = true := hopen.resolve_left hclosed
      rw [hconn, if_neg (by decide)]
      split
      · exact hemit _ h
      · exact hemit _ h
  · intro hdown
    rw [not_or, Bool.not_eq_true, Bool.not_eq_true] at hdown
    rw [hsession]
    unfold writePacketOn
    rw [hdown.1, hdown.2]
    rfl

theorem acknowledgePublish_blocked {q : Packet} (h : s.isBlocked q = true) :
    ∃ v ack, (s.acknowledgePublish env q) = answer env v ack ∧ isErrorAck ack = true ∧ v.server = s.server ∧
      v.client.closed = s.client.closed ∧ v.client.conn = s.client.conn ∧ v.log = s.log := by
  have hblock : (s.onInflight fun f => f.decreaseReceiveQuota.2).isBlocked q = true := by
    unfold isBlocked
    rw [onInflight_client, s.client.inflight.sameSend_decreaseReceiveQuota.get]
    exact h
  unfold acknowledgePublish
  dsimp only
  rw [hblock, if_pos rfl]
  exact ⟨_, _, rfl, rfl, rfl, rfl, rfl, rfl⟩

end Answers

theorem retained_aliased_session (env : Env) (s : Session) (pk q : Packet) : ∃ inbound,
    (s.aliased env pk).retained q =
      { s.retained q with client := { (s.retained q).client with inbound := inbound } } := by
  obtain ⟨inbound, halias⟩ := aliased_session env s pk
  refine ⟨inbound, ?_⟩
  rw [halias]
  unfold retained retainMessage
  split
  · split <;> rfl
  · rfl

theorem retained_aliased {q : Packet} :
    ((s.aliased env pk).retained q).server = (s.retained q).server ∧
      ((s.aliased env pk).retained q).isBlocked q = s.isBlocked q ∧
      ((s.aliased env pk).retained q).client.closed = s.client.closed ∧
      ((s.aliased env pk).retained q).client.conn = s.client.conn := by
  obtain ⟨inbound, heq⟩ := retained_aliased_session env s pk q
  obtain ⟨hclient, -, -⟩ := retained_cases s q
  rw [heq]
  unfold isBlocked
  rw [hclient]
  exact ⟨rfl, rfl, rfl, rfl⟩

theorem receivePublish_eq_of_passes {q : Packet} (hadmits : Admits env s pk)
    (hpass : Passes env s (s.subject env pk) q) :
    s.receivePublish env pk =
      if q.fixedHeader.qos = 0 || s.client.inline then .accepted q ((s.aliased env pk).retained q)
      else ((s.aliased env pk).retained q).acknowledgePublish env q := by
  obtain ⟨inbound, halias⟩ := aliased_session env s pk
  have hinline : (s.aliased env pk).client.inline = s.client.inline := by rw [halias]
  rw [receivePublish_of_admits hadmits, judgePublish_of_passes (passes_aliased.mpr hpass), acceptPublish_eq, hinline]

theorem unrefused_retained {q : Packet} : Unrefused s ((s.aliased env pk).retained q) := by
  refine Logs.trans (t := s.aliased env pk) (.of_log ?_) (logs_retained fun _ => rfl)
  rw [aliased_eq]

theorem receivePublish_blocked {q : Packet} (hadmits : Admits env s pk) (hinline : s.client.inline = false)
    (hpass : Passes env s (s.subject env pk) q) (hblocked : s.isBlocked q = true) :
    ∃ v ack, s.receivePublish env pk = answer env v ack ∧ isErrorAck ack = true ∧
      v.server = (s.retained q).server ∧ v.client.closed = s.client.closed ∧ v.client.conn = s.client.conn ∧
      Unrefused s v := by
  obtain ⟨hserver, hblock, hclosed, hconn⟩ := @retained_aliased env s pk q
  obtain ⟨v, ack, hanswer, hack, hv, hvclosed, hvconn, hlog⟩ :=
    @acknowledgePublish_blocked env ((s.aliased env pk).retained q) q (hblock.trans hblocked)
  have hqos : ¬(q.fixedHeader.qos = 0 || s.client.inline) = true := by
    unfold isBlocked at hblocked
    rw [Bool.and_eq_true, beq_iff_eq] at hblocked
    rw [hblocked.1, hinline]
    decide
  refine ⟨v, ack, ?_, hack, hv.trans hserver, hvclosed.trans hclosed, hvconn.trans hconn, ?_⟩
  · rw [receivePublish_eq_of_passes hadmits hpass, if_neg hqos, hanswer]
  · exact unrefused_retained.trans (.of_log hlog)

theorem receivePublish_unblocked {q : Packet} (hadmits : Admits env s pk) (hpass : Passes env s (s.subject env pk) q)
    (hfree : s.client.inline = true ∨ s.isBlocked q = false) : Unrefused s (s.receivePublish env pk).session := by
  obtain ⟨-, hblock, -, -⟩ := @retained_aliased env s pk q
  rw [receivePublish_eq_of_passes hadmits hpass]
  split
  · exact unrefused_retained
  · rename_i hqos
    rw [Bool.or_eq_true, not_or] at hqos
    refine unrefused_retained.trans (unrefused_acknowledgePublish ?_)
    rw [hblock]
    exact hfree.resolve_left hqos.2

theorem Refused.answered {q : Packet} (h : Refused env s pk) (hadmits : Admits env s pk)
    (hpass : Passes env s (s.subject env pk) q) :
    ∃ e ∈ (s.receivePublish env pk).session.log.drop s.log.length, isRefusal e = true := by
  rcases h with h | ⟨hinline, htopic⟩ | ⟨hinline, hacl⟩ | hreject
  · exact h
  · rcases hadmits.topic with h | h
    · rw [h] at hinline
      cases hinline
    · rw [h] at htopic
      cases htopic
  · rcases hadmits.acl with h | h
    · rw [h] at hinline
      cases hinline
    · rw [h] at hacl
      cases hacl
  · unfold Passes at hpass
    rw [hreject] at hpass
    exact hpass.elim

theorem processPublish_returned {err : Option Error} (h : s.receivePublish env pk = .returned err t) :
    (s.processPublish env pk).2 = t := by
  unfold processPublish
  rw [h]

/-- A PUBLISH that is refused has no effect, unless it is a message to be retained whose packet id is taken: it is
retained before it is refused. -/
theorem refused_unaffected_iff (env : Env) (s : Session) (pk : Packet) :
    (Refused env s pk → WithoutEffect s (s.processPublish env pk).2) ↔ ¬RetainsBlocked env s pk := by
  have hwithheld := (withheld_receivePublish env s pk).drop
  constructor
  · rintro h ⟨hadmits, hinline, hopen, q, hpass, hblocked, hreplaces⟩
    obtain ⟨topic, hchanged⟩ := replaces_iff.mp hreplaces
    obtain ⟨v, ack, hanswer, hack, hserver, hclosed, hconn, es, hlog, -⟩ :=
      receivePublish_blocked hadmits hinline hpass hblocked
    obtain ⟨hsame, hrefusal, -⟩ := @answer_refusal env v ack hack
    rw [← hclosed, ← hconn] at hopen
    obtain ⟨e, he, hrefuses⟩ := hrefusal hopen
    have hrefused : Refused env s pk := by
      refine .inl ⟨e, ?_, hrefuses⟩
      rw [hanswer]
      refine List.drop_subset_drop_left _ ?_ he
      rw [hlog, List.length_append]
      exact Nat.le_add_right _ _
    have hunaffected := (h hrefused).1 topic
    rw [processPublish_returned hanswer] at hunaffected
    have hretained := congrArg (fun x : Shared => x.topics.retained.lookup topic) (hsame.trans hserver)
    exact hchanged (hretained.symm.trans hunaffected)
  · intro h hrefused
    -- what is left to show of a PUBLISH that is turned away
    have hreturned : ∀ {err t}, s.receivePublish env pk = .returned err t →
        (∀ topic, t.server.topics.retained.lookup topic = s.server.topics.retained.lookup topic) →
        WithoutEffect s (s.processPublish env pk).2 := by
      intro err t hret hretained
      rw [processPublish_returned hret]
      rw [hret] at hwithheld
      exact ⟨hretained, fun e he => (Bool.not_eq_true' _).mp (hwithheld e he)⟩
    obtain ⟨err, t, hret, hquiet⟩ | ⟨hadmits, q, hpass, -⟩ := receivePublish_cases env s pk
    · have hserver : t.server = s.server := by
        rcases hquiet with hquiet | ⟨-, hquiet⟩
        · exact hquiet.server
        · rw [hquiet.server, aliased_eq]
      exact hreturned hret fun topic => by rw [hserver]
    · obtain ⟨e, he, hrefuses⟩ := hrefused.answered hadmits hpass
      by_cases hfree : s.client.inline = true ∨ s.isBlocked q = false
      · have hnot := (receivePublish_unblocked hadmits hpass hfree).drop e he
        rw [hrefuses] at hnot
        cases hnot
      · rw [not_or, Bool.not_eq_true, Bool.not_eq_false] at hfree
        obtain ⟨v, ack, hanswer, hack, hserver, hclosed, hconn, hunrefused⟩ :=
          receivePublish_blocked hadmits hfree.1 hpass hfree.2
        obtain ⟨hsame, -, hdown⟩ := @answer_refusal env v ack hack
        by_cases hopen : s.client.closed = true ∨ s.client.conn = true
        · refine hreturned hanswer fun topic => ?_
          have hretained := congrArg (fun x : Shared => x.topics.retained.lookup topic) (hsame.trans hserver)
          refine hretained.trans ?_
          by_contra hchanged
          exact h ⟨hadmits, hfree.1, hopen, q, hpass, hfree.2, replaces_iff.mpr ⟨topic, hchanged⟩⟩
        · rw [← hclosed, ← hconn] at hopen
          have hnot := (hunrefused.trans (.of_log (hdown hopen))).drop e (hanswer ▸ he)
          rw [hrefuses] at hnot
          cases hnot

def occupied : Session :=
  { client :=
      { protocolVersion := 5
        inflight := (Inflight.new.resetReceiveQuota 1).put
          { packetID := 1, fixedHeader := { type := .publish, qos := 1 } } } }

def clashing : Packet :=
  { packetID := 1, fixedHeader := { type := .publish, qos := 2, retain := true }, topicName := [0x61], payload := [1] }

/-- The message is refused, and the index retains it. -/
theorem retained_though_refused :
    Refused (.accepting 0) occupied clashing ∧ occupied.server.topics.retained.lookup [0x61] = none ∧
      ((occupied.processPublish (.accepting 0) clashing).2.server.topics.retained.lookup [0x61]).isSome = true := by
  have hrefusal : ((occupied.receivePublish (.accepting 0) clashing).session.log.drop occupied.log.length).any
      isRefusal = true := rfl
  exact ⟨.inl (List.any_eq_true.mp hrefusal), rfl, rfl⟩

end Session
end Mqtt
