import MqttBroker.Session.Requests

/-! What each handler does to a session. Most of them stay within the inflight
messages and the counters of the server: they pass no message on and write no
PUBLISH. -/

namespace Mqtt
namespace Session

def inert : Event → Bool
  | .forward _ => false
  | .retain _ => false
  | .wrote pk _ => pk.fixedHeader.type != .publish
  | _ => true

/-- Nothing changes beside the state of the connection, the inflight messages and the server's
counters, and what happens is inert. -/
def Frame (s t : Session) : Prop :=
  ∃ inflight closed stopCause disconnected info es, (∀ e ∈ es, inert e = true) ∧
    t = { client := { s.client with
            inflight := inflight, closed := closed, stopCause := stopCause, disconnected := disconnected }
          server := { s.server with info := info }
          log := s.log ++ es }

structure Quiet (s t : Session) : Prop where
  toFrame : Frame s t
  inflight : t.client.inflight = s.client.inflight
  server : t.server = s.server

variable {env : Env} {s t u : Session} {pk : Packet}

section Frame
variable (h : Frame s t)
include h

theorem Frame.version : t.client.protocolVersion = s.client.protocolVersion := by
  obtain ⟨_, _, _, _, _, _, -, rfl⟩ := h
  rfl

theorem Frame.props : t.client.props = s.client.props := by
  obtain ⟨_, _, _, _, _, _, -, rfl⟩ := h
  rfl

theorem Frame.inline : t.client.inline = s.client.inline := by
  obtain ⟨_, _, _, _, _, _, -, rfl⟩ := h
  rfl

theorem Frame.caps : t.server.caps = s.server.caps := by
  obtain ⟨_, _, _, _, _, _, -, rfl⟩ := h
  rfl

theorem Frame.topics : t.server.topics = s.server.topics := by
  obtain ⟨_, _, _, _, _, _, -, rfl⟩ := h
  rfl

theorem Frame.log : ∃ es, t.log = s.log ++ es ∧ ∀ e ∈ es, inert e = true := by
  obtain ⟨_, _, _, _, _, es, hes, rfl⟩ := h
  exact ⟨es, rfl, hes⟩

theorem Frame.trans (h' : Frame t u) : Frame s u := by
  obtain ⟨_, _, _, _, _, es, hes, rfl⟩ := h
  obtain ⟨inflight, closed, stopCause, disconnected, info, es', hes', rfl⟩ := h'
  refine ⟨inflight, closed, stopCause, disconnected, info, es ++ es', ?_, by rw [List.append_assoc]⟩
  intro e he
  exact (List.mem_append.mp he).elim (hes e) (hes' e)

theorem outgoing_frame (pk : Packet) : t.outgoing env pk = s.outgoing env pk := by
  unfold outgoing
  rw [h.version, h.props, h.caps]

end Frame

theorem frame_of_log (inflight : Inflight) (closed : Bool) (stopCause : Option Error) (disconnected : Int)
    (info : Info) : Frame s
      { s with
        client := { s.client with
          inflight := inflight, closed := closed, stopCause := stopCause, disconnected := disconnected }
        server := { s.server with info := info } } :=
  ⟨inflight, closed, stopCause, disconnected, info, [], fun _ h => absurd h List.not_mem_nil,
    by rw [List.append_nil]⟩

theorem Frame.refl (s : Session) : Frame s s :=
  frame_of_log s.client.inflight s.client.closed s.client.stopCause s.client.disconnected s.server.info

theorem frame_emit {e : Event} (he : inert e = true) : Frame s (s.emit e) :=
  ⟨_, _, _, _, _, [e], fun e' h => by rw [List.mem_singleton.mp h, he], rfl⟩

theorem frame_onInflight (f : Inflight → Inflight) : Frame s (s.onInflight f) := frame_of_log _ _ _ _ _

theorem frame_countInflight (n : Int) : Frame s (s.countInflight n) := frame_of_log _ _ _ _ _

theorem Quiet.refl (s : Session) : Quiet s s := ⟨.refl s, rfl, rfl⟩

theorem Quiet.trans (h : Quiet s t) (h' : Quiet t u) : Quiet s u :=
  ⟨h.toFrame.trans h'.toFrame, h'.inflight.trans h.inflight, h'.server.trans h.server⟩

theorem quiet_writePacket (env : Env) (s : Session) (hpk : pk.fixedHeader.type ≠ .publish) :
    Quiet s (s.writePacket env pk).2 := by
  have hone : ∀ {e : Event}, inert e = true → Quiet s (s.emit e) := fun he => ⟨frame_emit he, rfl, rfl⟩
  obtain ⟨-, -, h⟩ | ⟨-, -, h⟩ | ⟨-, out, err, h⟩ := writePacketOn_cases env s pk.topicName pk
  · rw [writePacket, h]
    exact hone (bne_iff_ne.mpr hpk)
  · rw [writePacket, h]
    exact Quiet.refl s
  · rw [writePacket, h]
    exact hone rfl

theorem quiet_stop (env : Env) (s : Session) (err : Option Error) : Quiet s (s.stop env err) := by
  unfold stop
  split
  · exact Quiet.refl s
  · exact ⟨frame_of_log _ _ _ _ _, rfl, rfl⟩

theorem quiet_disconnectClient (env : Env) (s : Session) (code : Code) : Quiet s (s.disconnectClient env code).2 := by
  have hwrite : Quiet s (s.writePacket env (disconnectPacket code)).2 :=
    quiet_writePacket env s (by simp [disconnectPacket])
  exact disconnectClient_invariant (P := Quiet s) hwrite fun h => h.trans (quiet_stop env _ _)

theorem quiet_answer (env : Env) (s : Session) (hpk : pk.fixedHeader.type ≠ .publish) :
    ∃ err t, s.answer env pk = .returned err t ∧ Quiet s t :=
  ⟨_, _, rfl, quiet_writePacket env s hpk⟩

inductive Halts (env : Env) (s : Session) : PublishResult → Prop
  | dropped : Halts env s (.returned none s)
  | disconnected {code : Code} (hcode : code.isError = true) :
      Halts env s (.returned (s.disconnectClient env code).1 (s.disconnectClient env code).2)
  | answered {ack : Packet} (hack : ack.fixedHeader.type ≠ .publish) : Halts env s (s.answer env ack)

theorem Halts.quiet {r : PublishResult} (h : Halts env s r) : ∃ err t, r = .returned err t ∧ Quiet s t := by
  cases h with
  | dropped => exact ⟨none, s, rfl, Quiet.refl s⟩
  | disconnected => exact ⟨_, _, rfl, quiet_disconnectClient env s _⟩
  | answered hack => exact quiet_answer env s hack

theorem halts_refusePublish (env : Env) (s : Session) (pk : Packet) : Halts env s (s.refusePublish env pk) := by
  unfold refusePublish
  split
  · exact .dropped
  · split
    · exact .disconnected rfl
    · refine .answered ?_
      rw [buildAck_fixedHeader]
      dsimp only
      split <;> decide

theorem resolveAlias_session (s : Session) (pk : Packet) :
    ∃ inbound, (s.resolveAlias pk).2 = { s with client := { s.client with inbound := inbound } } := by
  unfold resolveAlias
  split
  · exact ⟨_, rfl⟩
  · exact ⟨s.client.inbound, rfl⟩

/-! ### PUBLISH -/

/-- The packet as `OnPublish` sees it. -/
def subject (env : Env) (s : Session) (pk : Packet) : Packet := s.capQos (s.resolveAlias (s.stamp env pk)).1

theorem subject_cases (env : Env) (s : Session) (pk : Packet) : ∃ qos, qos ≤ pk.fixedHeader.qos ∧
    s.subject env pk = { s.stamp env pk with
      topicName := (s.resolveAlias (s.stamp env pk)).1.topicName
      fixedHeader := { pk.fixedHeader with qos := qos } } := by
  have halias : (s.resolveAlias (s.stamp env pk)).1 =
      { s.stamp env pk with topicName := (s.resolveAlias (s.stamp env pk)).1.topicName } := by
    unfold resolveAlias
    split <;> rfl
  unfold subject capQos
  rw [halias]
  split
  · rename_i hqos
    exact ⟨_, UInt8.le_of_lt hqos, rfl⟩
  · exact ⟨_, UInt8.le_refl _, rfl⟩

/-- The checks that a PUBLISH passes before `OnPublish` sees it. -/
structure Admits (env : Env) (s : Session) (pk : Packet) : Prop where
  topic : s.client.inline = true ∨ isValidFilter pk.topicName true = true
  quota : s.client.inflight.receiveQuota ≠ 0
  acl : s.client.inline = true ∨ env.onACLCheck s.client.id pk.topicName true = true
  fresh : s.client.inline = true ∨
    ∀ pki, s.client.inflight.get pk.packetID = some pki → pki.fixedHeader.type ≠ .pubrec

/-- The packet with which the handler goes on after `OnPublish`. -/
def Passes (env : Env) (s : Session) (p q : Packet) : Prop :=
  match env.onPublish p with
  | .accept pkx => q = pkx
  | .reject => False
  | .ignore => q = { p with ignore := true }
  | .code _ => ¬ (s.client.protocolVersion = 5 ∧ 0 < p.fixedHeader.qos) ∧ q = p
  | .other => q = p

theorem judgePublish_cases (env : Env) (s : Session) (p : Packet) :
    Halts env s (s.judgePublish env p) ∨ ∃ q, Passes env s p q ∧ s.judgePublish env p = s.acceptPublish env q := by
  unfold judgePublish Passes
  cases env.onPublish p with
  | accept pkx => exact .inr ⟨pkx, rfl, rfl⟩
  | reject => exact .inl .dropped
  | ignore => exact .inr ⟨_, rfl, rfl⟩
  | code c =>
    dsimp only
    split
    · exact .inl (.answered (by simp))
    · rename_i h
      rw [Bool.and_eq_true, decide_eq_true_eq, decide_eq_true_eq] at h
      exact .inr ⟨p, ⟨h, rfl⟩, rfl⟩
  | other => exact .inr ⟨p, rfl, rfl⟩

variable {p q : Packet}

theorem judgePublish_of_passes (h : Passes env s p q) : s.judgePublish env p = s.acceptPublish env q := by
  unfold Passes at h
  unfold judgePublish
  cases hv : env.onPublish p with
  | accept pkx =>
    rw [hv] at h
    rw [h]
  | reject =>
    rw [hv] at h
    exact h.elim
  | ignore =>
    rw [hv] at h
    rw [h]
  | code c =>
    rw [hv] at h
    dsimp only
    rw [if_neg, h.2]
    rw [Bool.and_eq_true, decide_eq_true_eq, decide_eq_true_eq]
    exact h.1
  | other =>
    rw [hv] at h
    rw [h]

theorem passes_unique {q' : Packet} (h : Passes env s p q) (h' : Passes env s p q') : q' = q := by
  unfold Passes at h h'
  cases hv : env.onPublish p with
  | reject =>
    rw [hv] at h
    exact h.elim
  | code c =>
    rw [hv] at h h'
    exact h'.2.trans h.2.symm
  | _ =>
    rw [hv] at h h'
    exact h'.trans h.symm

def aliased (env : Env) (s : Session) (pk : Packet) : Session := (s.resolveAlias (s.stamp env pk)).2

theorem aliased_session (env : Env) (s : Session) (pk : Packet) :
    ∃ inbound, s.aliased env pk = { s with client := { s.client with inbound := inbound } } :=
  resolveAlias_session s (s.stamp env pk)

theorem aliased_eq :
    s.aliased env pk = { s with client := { s.client with inbound := (s.aliased env pk).client.inbound } } := by
  obtain ⟨inbound, halias⟩ := aliased_session env s pk
  rw [halias]

theorem capQos_aliased (env : Env) (s : Session) (pk : Packet) :
    (s.aliased env pk).capQos (s.resolveAlias (s.stamp env pk)).1 = s.subject env pk := by
  unfold subject capQos
  rw [aliased_eq]

theorem receivePublish_of_admits (h : Admits env s pk) :
    s.receivePublish env pk = (s.aliased env pk).judgePublish env (s.subject env pk) := by
  have htopic : ¬ ((!s.client.inline && !isValidFilter pk.topicName true) = true) := by
    rcases h.topic with h | h <;> simp [h]
  have hacl : ¬ ((!s.client.inline && !env.onACLCheck s.client.id pk.topicName true) = true) := by
    rcases h.acl with h | h <;> simp [h]
  have hfresh : ¬ ((!s.client.inline && (s.client.inflight.get (s.stamp env pk).packetID).any fun pki =>
      pki.fixedHeader.type == .pubrec) = true) := by
    rcases h.fresh with h | h
    · simp [h]
    · show ¬ ((_ && (s.client.inflight.get pk.packetID).any _) = true)
      rw [Bool.and_eq_true, Option.any_eq_true]
      rintro ⟨-, pki, hget, htype⟩
      exact h pki hget (beq_iff_eq.mp htype)
  unfold receivePublish
  rw [if_neg htopic, if_neg h.quota, if_neg hacl]
  dsimp only
  rw [if_neg hfresh, ← capQos_aliased]
  rfl

theorem receivePublish_of_not_admits (h : ¬ Admits env s pk) :
    s.receivePublish env pk = .returned none s ∨
      s.receivePublish env pk =
        .returned (s.disconnectClient env .receiveMaximum).1 (s.disconnectClient env .receiveMaximum).2 ∨
      s.receivePublish env pk = s.refusePublish env pk ∨
      (∃ pki, s.client.inflight.get pk.packetID = some pki ∧ pki.fixedHeader.type = .pubrec ∧
        s.receivePublish env pk =
          s.answer env (s.buildAck env pk.packetID .pubrec 0 pk.properties .packetIdentifierInUse)) := by
  unfold receivePublish
  split
  · exact .inl rfl
  · rename_i htopic
    split
    · exact .inr (.inl rfl)
    · rename_i hquota
      split
      · exact .inr (.inr (.inl rfl))
      · rename_i hacl
        dsimp only
        split
        · rename_i hfresh
          rw [Bool.and_eq_true, Option.any_eq_true] at hfresh
          obtain ⟨-, pki, hget, htype⟩ := hfresh
          exact .inr (.inr (.inr ⟨pki, hget, beq_iff_eq.mp htype, rfl⟩))
        · rename_i hfresh
          simp only [Bool.and_eq_true, Bool.not_eq_true', not_and, Bool.not_eq_false] at htopic hacl hfresh
          refine absurd ⟨?_, hquota, ?_, ?_⟩ h
          · exact (Bool.eq_false_or_eq_true _).imp_right htopic
          · exact (Bool.eq_false_or_eq_true _).imp_right hacl
          · refine (Bool.eq_false_or_eq_true _).imp_right fun hinline pki hget htype => ?_
            refine hfresh hinline ?_
            show (s.client.inflight.get pk.packetID).any _ = true
            rw [hget, Option.any_some, htype]
            rfl

theorem halts_receivePublish (h : ¬ Admits env s pk) : Halts env s (s.receivePublish env pk) := by
  obtain heq | heq | heq | ⟨pki, -, -, heq⟩ := receivePublish_of_not_admits h
  · rw [heq]
    exact .dropped
  · rw [heq]
    exact .disconnected rfl
  · rw [heq]
    exact halts_refusePublish env s pk
  · rw [heq]
    exact .answered (by simp)

theorem passes_aliased : Passes env (s.aliased env pk) p q ↔ Passes env s p q := by
  unfold Passes
  rw [aliased_eq]

theorem receivePublish_halts (env : Env) (s : Session) (pk : Packet) :
    (Halts env s (s.receivePublish env pk) ∨
        Admits env s pk ∧ Halts env (s.aliased env pk) (s.receivePublish env pk)) ∨
      Admits env s pk ∧ ∃ q, Passes env s (s.subject env pk) q ∧
        s.receivePublish env pk = (s.aliased env pk).acceptPublish env q := by
  by_cases hadmits : Admits env s pk
  · rw [receivePublish_of_admits hadmits]
    obtain hhalts | ⟨q, hpass, hacc⟩ := judgePublish_cases env (s.aliased env pk) (s.subject env pk)
    · exact .inl (.inr ⟨hadmits, hhalts⟩)
    · exact .inr ⟨hadmits, q, passes_aliased.mp hpass, hacc⟩
  · exact .inl (.inl (halts_receivePublish hadmits))

theorem receivePublish_cases (env : Env) (s : Session) (pk : Packet) :
    (∃ err t, s.receivePublish env pk = .returned err t ∧
        (Quiet s t ∨ Admits env s pk ∧ Quiet (s.aliased env pk) t)) ∨
      Admits env s pk ∧ ∃ q, Passes env s (s.subject env pk) q ∧
        s.receivePublish env pk = (s.aliased env pk).acceptPublish env q := by
  obtain (hhalts | ⟨hadmits, hhalts⟩) | haccepted := receivePublish_halts env s pk
  · obtain ⟨err, t, hret, hquiet⟩ := hhalts.quiet
    exact .inl ⟨err, t, hret, .inl hquiet⟩
  · obtain ⟨err, t, hret, hquiet⟩ := hhalts.quiet
    exact .inl ⟨err, t, hret, .inr ⟨hadmits, hquiet⟩⟩
  · exact .inr haccepted

theorem receivePublish_invariant {P : Session → Prop} (hquiet : ∀ {u v : Session}, Quiet u v → P u → P v) (h : P s)
    (haliased : P (s.aliased env pk))
    (haccept : ∀ q, Passes env s (s.subject env pk) q → P ((s.aliased env pk).acceptPublish env q).session) :
    P (s.receivePublish env pk).session := by
  obtain ⟨err, t, hret, hq | ⟨-, hq⟩⟩ | ⟨-, q, hpass, hacc⟩ := receivePublish_cases env s pk
  · rw [hret]
    exact hquiet hq h
  · rw [hret]
    exact hquiet hq haliased
  · rw [hacc]
    exact haccept q hpass

def recorded (env : Env) (s : Session) (q : Packet) : Inflight :=
  if q.fixedHeader.qos = 2 then s.client.inflight.put (s.publishAck env q) else s.client.inflight

theorem writePacket_fails {err : Error} (h : s.writePacket env pk = (some err, t)) : Fails env s pk := by
  obtain ⟨-, -, hw⟩ | ⟨-, -, hw⟩ | ⟨hfails, -⟩ := writePacketOn_cases env s pk.topicName pk
  · rw [writePacket, hw] at h
    cases h
  · rw [writePacket, hw] at h
    cases h
  · exact hfails

theorem frame_storePubrec (ack : Packet) : Frame s (s.storePubrec ack) := by
  unfold storePubrec
  split
  · exact ((frame_onInflight _).trans (frame_countInflight _)).trans (frame_emit rfl)
  · exact frame_onInflight _

theorem storePubrec_inflight (ack : Packet) : (s.storePubrec ack).client.inflight = s.client.inflight.put ack := by
  unfold storePubrec
  split <;> rfl

theorem frame_completePuback (ack q : Packet) : Frame s (s.completePuback ack q) :=
  (frame_onInflight _).trans (frame_emit rfl)

theorem completePuback_inflight (ack q : Packet) :
    Inflight.SameSend s.client.inflight (s.completePuback ack q).client.inflight :=
  Inflight.sameSend_increaseReceiveQuota _

theorem publishAck_type_ne (env : Env) (s : Session) (q : Packet) :
    (s.publishAck env q).fixedHeader.type ≠ .publish := by
  unfold publishAck
  rw [Packet.fillFrom_fixedHeader, buildAck_fixedHeader]
  dsimp only
  split <;> decide

@[simp] theorem publishAck_packetID (env : Env) (s : Session) (q : Packet) :
    (s.publishAck env q).packetID = q.packetID := by
  unfold publishAck
  rw [Packet.fillFrom_packetID, buildAck_packetID]

@[simp] theorem publishAck_expiry (env : Env) (s : Session) (q : Packet) :
    (s.publishAck env q).expiry = env.now + s.server.caps.maximumMessageExpiryInterval := by
  unfold publishAck
  rw [Packet.fillFrom_expiry, buildAck_expiry]

@[simp] theorem publishAck_qos (env : Env) (s : Session) (q : Packet) : (s.publishAck env q).fixedHeader.qos = 0 := by
  unfold publishAck
  rw [Packet.fillFrom_fixedHeader, buildAck_fixedHeader]

theorem recordPublish_cases (env : Env) (s : Session) (q : Packet) {ack : Packet}
    (hack : ack.fixedHeader.type ≠ .publish) :
    (Fails env s ack ∧ ∃ err t, s.recordPublish env q ack = .returned err t ∧ Frame s t ∧
        t.client.inflight = if q.fixedHeader.qos = 2 then s.client.inflight.put ack else s.client.inflight) ∨
      ∃ t, s.recordPublish env q ack = .accepted q t ∧ Frame s t ∧ Inflight.SameSend
        (if q.fixedHeader.qos = 2 then s.client.inflight.put ack else s.client.inflight) t.client.inflight := by
  unfold recordPublish
  have hstored : Frame s (if q.fixedHeader.qos = 2 then s.storePubrec ack else s) ∧
      (if q.fixedHeader.qos = 2 then s.storePubrec ack else s).client.inflight =
        (if q.fixedHeader.qos = 2 then s.client.inflight.put ack else s.client.inflight) ∧
      (if q.fixedHeader.qos = 2 then s.storePubrec ack else s).client.closed = s.client.closed := by
    split
    · refine ⟨frame_storePubrec ack, storePubrec_inflight ack, ?_⟩
      unfold storePubrec
      split <;> rfl
    · exact ⟨Frame.refl s, rfl, rfl⟩
  generalize (if q.fixedHeader.qos = 2 then s.storePubrec ack else s) = u at hstored
  obtain ⟨hframe, hinflight, hclosed⟩ := hstored
  have hquiet := quiet_writePacket env u hack
  rcases hw : u.writePacket env ack with ⟨_ | err, t⟩
  · rw [hw] at hquiet
    refine .inr ?_
    dsimp only at hquiet ⊢
    rw [hw]
    dsimp only
    split
    · refine ⟨_, rfl, (hframe.trans hquiet.toFrame).trans (frame_completePuback ack q), ?_⟩
      rw [← hinflight, ← hquiet.inflight]
      exact completePuback_inflight ack q
    · refine ⟨t, rfl, hframe.trans hquiet.toFrame, ?_⟩
      rw [← hinflight, ← hquiet.inflight]
      exact .refl _
  · rw [hw] at hquiet
    have hfails : Fails env s ack := by
      have := writePacket_fails hw
      unfold Fails at this ⊢
      rwa [hclosed, outgoing_frame hframe] at this
    dsimp only at hquiet ⊢
    rw [hw]
    exact .inl ⟨hfails, some err, t, rfl, hframe.trans hquiet.toFrame, hquiet.inflight.trans hinflight⟩

theorem acknowledgePublish_cases (env : Env) (s : Session) (q : Packet) :
    (s.isBlocked q = true ∧ ∃ err t, s.acknowledgePublish env q = .returned err t ∧ Frame s t ∧
        Inflight.SameSend s.client.inflight t.client.inflight) ∨
      (s.isBlocked q = false ∧ Fails env s (s.publishAck env q) ∧ ∃ err t,
        s.acknowledgePublish env q = .returned err t ∧ Frame s t ∧
        Inflight.SameSend (s.recorded env q) t.client.inflight) ∨
      (s.isBlocked q = false ∧ ∃ t, s.acknowledgePublish env q = .accepted q t ∧ Frame s t ∧
        Inflight.SameSend (s.recorded env q) t.client.inflight) := by
  have hsend := s.client.inflight.sameSend_decreaseReceiveQuota
  have hblock : (s.onInflight fun f => f.decreaseReceiveQuota.2).isBlocked q = s.isBlocked q := by
    unfold isBlocked
    rw [onInflight_client, hsend.get]
  have hack : ((s.onInflight fun f => f.decreaseReceiveQuota.2).publishAck env q) = s.publishAck env q := rfl
  unfold acknowledgePublish
  dsimp only
  rw [hblock, hack]
  cases hb : s.isBlocked q with
  | true =>
    refine .inl ⟨rfl, ?_⟩
    rw [if_pos rfl]
    have htype : (s.buildAck env q.packetID .pubrec 0 q.properties .packetIdentifierInUse).fixedHeader.type ≠
        .publish := by simp
    obtain ⟨err, t, hret, hquiet⟩ := quiet_answer env
      ((s.onInflight fun f => f.decreaseReceiveQuota.2).onInflight fun f => f.increaseReceiveQuota.2) htype
    refine ⟨err, t, hret, ((frame_onInflight _).trans (frame_onInflight _)).trans hquiet.toFrame, ?_⟩
    rw [hquiet.inflight]
    exact hsend.trans (Inflight.sameSend_increaseReceiveQuota _)
  | false =>
    right
    rw [if_neg (by decide)]
    have hrec : Inflight.SameSend (s.recorded env q)
        (if q.fixedHeader.qos = 2 then s.client.inflight.decreaseReceiveQuota.2.put (s.publishAck env q)
          else s.client.inflight.decreaseReceiveQuota.2) := by
      unfold recorded
      split
      · exact hsend.put _
      · exact hsend
    obtain ⟨hfails, err, t, hret, hframe, hinf⟩ | ⟨t, hret, hframe, hinf⟩ :=
      recordPublish_cases env (s.onInflight fun f => f.decreaseReceiveQuota.2) q (publishAck_type_ne env s q)
    · refine .inl ⟨rfl, hfails, err, t, hret, (frame_onInflight _).trans hframe, ?_⟩
      rw [hinf]
      exact hrec
    · exact .inr ⟨rfl, t, hret, (frame_onInflight _).trans hframe, hrec.trans hinf⟩

def retained (s : Session) (q : Packet) : Session := if q.fixedHeader.retain then s.retainMessage q else s

theorem acceptPublish_eq (env : Env) (s : Session) (q : Packet) :
    s.acceptPublish env q =
      if q.fixedHeader.qos = 0 || s.client.inline then .accepted q (s.retained q)
      else (s.retained q).acknowledgePublish env q := by
  have hclient : (s.retained q).client = s.client := by
    unfold retained retainMessage
    split
    · split <;> rfl
    · rfl
  unfold acceptPublish
  show (if q.fixedHeader.qos = 0 || (s.retained q).client.inline then _ else _) = _
  rw [hclient]
  rfl

theorem retained_cases (s : Session) (q : Packet) :
    (s.retained q).client = s.client ∧ (s.retained q).server.caps = s.server.caps ∧
      ((s.retained q).log = s.log ∨ (s.retained q).log = s.log ++ [.retain (q.copy false)]) := by
  unfold retained retainMessage
  split
  · split
    · exact ⟨rfl, rfl, .inl rfl⟩
    · exact ⟨rfl, rfl, .inr rfl⟩
  · exact ⟨rfl, rfl, .inl rfl⟩

def OnlyInflight (s t : Session) : Prop :=
  (∃ f, t.client = { s.client with inflight := f }) ∧ t.server.caps = s.server.caps

theorem OnlyInflight.trans (h : OnlyInflight s t) (h' : OnlyInflight t u) : OnlyInflight s u := by
  obtain ⟨⟨f, hf⟩, hcaps⟩ := h
  obtain ⟨⟨g, hg⟩, hcaps'⟩ := h'
  exact ⟨⟨g, by rw [hg, hf]⟩, hcaps'.trans hcaps⟩

theorem onlyInflight_onInflight (f : Inflight → Inflight) : OnlyInflight s (s.onInflight f) := ⟨⟨_, rfl⟩, rfl⟩

theorem onlyInflight_writePacket : OnlyInflight s (s.writePacket env pk).2 :=
  ⟨⟨_, writePacket_client _ _ _⟩, by rw [writePacket_server]⟩

theorem onlyInflight_recordPublish (ack : Packet) : OnlyInflight s (s.recordPublish env pk ack).session := by
  have hstored : OnlyInflight s (if pk.fixedHeader.qos = 2 then s.storePubrec ack else s) := by
    unfold storePubrec
    split
    · split <;> exact ⟨⟨_, rfl⟩, rfl⟩
    · exact ⟨⟨_, rfl⟩, rfl⟩
  have hwritten := hstored.trans (@onlyInflight_writePacket env _ ack)
  unfold recordPublish
  dsimp only
  generalize (if pk.fixedHeader.qos = 2 then s.storePubrec ack else s).writePacket env ack = written at hwritten
  obtain ⟨_ | err, v⟩ := written
  · show OnlyInflight s (if pk.fixedHeader.qos = 1 then v.completePuback ack pk else v)
    split
    · exact hwritten.trans (onlyInflight_onInflight fun f => f.increaseReceiveQuota.2)
    · exact hwritten
  · exact hwritten

theorem onlyInflight_acceptPublish (q : Packet) : OnlyInflight s (s.acceptPublish env q).session := by
  obtain ⟨hclient, hcaps, -⟩ := retained_cases s q
  have hretained : OnlyInflight s (s.retained q) := ⟨⟨_, hclient⟩, hcaps⟩
  rw [acceptPublish_eq]
  split
  · exact hretained
  · have hquota := hretained.trans (onlyInflight_onInflight fun f => f.decreaseReceiveQuota.2)
    unfold acknowledgePublish
    dsimp only
    split
    · exact (hquota.trans (onlyInflight_onInflight fun f => f.increaseReceiveQuota.2)).trans onlyInflight_writePacket
    · exact hquota.trans (onlyInflight_recordPublish _)

theorem fails_retained
    (h : Fails env ((s.aliased env pk).retained q) (((s.aliased env pk).retained q).publishAck env q)) :
    Fails env s (s.publishAck env q) := by
  obtain ⟨hclient, hcaps, -⟩ := retained_cases (s.aliased env pk) q
  unfold Fails outgoing publishAck buildAck at h ⊢
  rw [hclient, hcaps, aliased_eq] at h
  exact h

theorem publishAck_type (env : Env) (s : Session) (hq : q.fixedHeader.qos = 2) :
    (s.publishAck env q).fixedHeader.type = .pubrec := by
  unfold publishAck
  rw [Packet.fillFrom_fixedHeader, buildAck_fixedHeader]
  exact if_pos hq

theorem acceptPublish_cases (env : Env) (s : Session) (q : Packet) :
    ((s.retained q).isBlocked q = true ∧ ∃ err t, s.acceptPublish env q = .returned err t ∧
        Frame (s.retained q) t ∧ Inflight.SameSend (s.retained q).client.inflight t.client.inflight) ∨
      (s.client.inline = false ∧ (s.retained q).isBlocked q = false ∧
        Fails env (s.retained q) ((s.retained q).publishAck env q) ∧
        ∃ err t, s.acceptPublish env q = .returned err t ∧ Frame (s.retained q) t ∧
          Inflight.SameSend ((s.retained q).recorded env q) t.client.inflight) ∨
      ((q.fixedHeader.qos = 0 ∨ s.client.inline = true) ∧
        s.acceptPublish env q = .accepted q (s.retained q)) ∨
      (s.client.inline = false ∧ (s.retained q).isBlocked q = false ∧
        ∃ t, s.acceptPublish env q = .accepted q t ∧ Frame (s.retained q) t ∧
          Inflight.SameSend ((s.retained q).recorded env q) t.client.inflight) := by
  rw [acceptPublish_eq]
  by_cases hnone : (q.fixedHeader.qos = 0 || s.client.inline) = true
  · rw [if_pos hnone]
    rw [Bool.or_eq_true, decide_eq_true_eq] at hnone
    exact .inr (.inr (.inl ⟨hnone, rfl⟩))
  · rw [if_neg hnone]
    have hinline : s.client.inline = false := by
      rw [Bool.or_eq_true, not_or, Bool.not_eq_true, Bool.not_eq_true] at hnone
      exact hnone.2
    obtain ⟨htaken, h⟩ | ⟨hfree, hfails, h⟩ | ⟨hfree, h⟩ := acknowledgePublish_cases env (s.retained q) q
    · exact .inl ⟨htaken, h⟩
    · exact .inr (.inl ⟨hinline, hfree, hfails, h⟩)
    · exact .inr (.inr (.inr ⟨hinline, hfree, h⟩))

theorem acceptPublish_invariant {P : Session → Prop} (hframe : ∀ {u v : Session}, Frame u v → P u → P v)
    (h : P (s.retained q)) : P (s.acceptPublish env q).session := by
  obtain ⟨-, err, t, hret, hf, -⟩ | ⟨-, -, -, err, t, hret, hf, -⟩ | ⟨-, hret⟩ | ⟨-, -, t, hret, hf, -⟩ :=
    acceptPublish_cases env s q
  · rw [hret]
    exact hframe hf h
  · rw [hret]
    exact hframe hf h
  · rw [hret]
    exact h
  · rw [hret]
    exact hframe hf h

/-! ### Acknowledgements -/

/-- What `processPubrec` can come to. -/
inductive OnPubrec (env : Env) (s : Session) (pk : Packet) : Option Error × Session → Prop
  | unknown {ack : Packet} (hget : s.client.inflight.get pk.packetID = none)
      (hheader : ack.fixedHeader = { type := .pubrel, qos := 1 }) : OnPubrec env s pk (s.writePacket env ack)
  | dropped {e : Packet} (hget : s.client.inflight.get pk.packetID = some e) (hends : pk.endsFlow = true) :
      OnPubrec env s pk (none, s.dropExchange pk e)
  | released {e ack : Packet} (hget : s.client.inflight.get pk.packetID = some e) (hends : pk.endsFlow = false)
      (hid : ack.packetID = pk.packetID) (hheader : ack.fixedHeader = { type := .pubrel, qos := 1 })
      (hexpiry : ack.expiry = env.now + s.server.caps.maximumMessageExpiryInterval) :
      OnPubrec env s pk ((s.onInflight fun f => f.decreaseReceiveQuota.2.put ack).writePacket env ack)

theorem processPubrec_cases (env : Env) (s : Session) (pk : Packet) : OnPubrec env s pk (s.processPubrec env pk) := by
  unfold processPubrec
  cases hget : s.client.inflight.get pk.packetID with
  | none => exact .unknown hget rfl
  | some e =>
    dsimp only
    split
    · rename_i hends
      exact .dropped hget hends
    · rename_i hends
      exact .released hget (Bool.eq_false_iff.mpr hends) (Packet.fillFrom_packetID _ _)
        (Packet.fillFrom_fixedHeader _ _) (Packet.fillFrom_expiry _ _)

/-- The PUBCOMP with which a PUBREL for an entry is answered. -/
def completion (env : Env) (s : Session) (pk e : Packet) : Packet :=
  (s.buildAck env pk.packetID .pubcomp 0 pk.properties .success).fillFrom e

/-- What `processPubrel` can come to. -/
inductive OnPubrel (env : Env) (s : Session) (pk : Packet) : Option Error × Session → Prop
  | unknown {ack : Packet} (hget : s.client.inflight.get pk.packetID = none)
      (hheader : ack.fixedHeader = { type := .pubcomp }) : OnPubrel env s pk (s.writePacket env ack)
  | dropped {e : Packet} (hget : s.client.inflight.get pk.packetID = some e) (hends : pk.endsFlow = true) :
      OnPubrel env s pk (none, s.dropExchange pk e)
  | unwritten {e ack : Packet} {err : Error} {t : Session} (hget : s.client.inflight.get pk.packetID = some e)
      (hends : pk.endsFlow = false) (hack : ack = s.completion env pk e) (hid : ack.packetID = pk.packetID)
      (hheader : ack.fixedHeader = { type := .pubcomp })
      (hexpiry : ack.expiry = env.now + s.server.caps.maximumMessageExpiryInterval)
      (hw : (s.onInflight fun f => f.put ack).writePacket env ack = (some err, t)) : OnPubrel env s pk (some err, t)
  | completed {e ack : Packet} {t : Session} (hget : s.client.inflight.get pk.packetID = some e)
      (hends : pk.endsFlow = false) (hid : ack.packetID = pk.packetID)
      (hheader : ack.fixedHeader = { type := .pubcomp })
      (hexpiry : ack.expiry = env.now + s.server.caps.maximumMessageExpiryInterval)
      (hw : (s.onInflight fun f => f.put ack).writePacket env ack = (none, t)) :
      OnPubrel env s pk (none, ((t.onInflight fun f =>
        f.increaseReceiveQuota.2.increaseSendQuota.2.remove pk.packetID).countInflight (-1)).emit
          (.qosComplete (pk.fillFrom e)))

theorem processPubrel_cases (env : Env) (s : Session) (pk : Packet) : OnPubrel env s pk (s.processPubrel env pk) := by
  unfold processPubrel
  cases hget : s.client.inflight.get pk.packetID with
  | none => exact .unknown hget rfl
  | some e =>
    dsimp only
    split
    · rename_i hends
      exact .dropped hget hends
    · rename_i hends
      have hopen := Bool.eq_false_iff.mpr hends
      have hid := Packet.fillFrom_packetID (s.buildAck env pk.packetID .pubcomp 0 pk.properties .success) e
      have hheader := Packet.fillFrom_fixedHeader (s.buildAck env pk.packetID .pubcomp 0 pk.properties .success) e
      have hexpiry := Packet.fillFrom_expiry (s.buildAck env pk.packetID .pubcomp 0 pk.properties .success) e
      split
      · rename_i hw
        exact .unwritten hget hopen rfl hid hheader hexpiry hw
      · rename_i hw
        exact .completed hget hopen hid hheader hexpiry hw

theorem frame_processPuback : Frame s (s.processPuback pk).2 := by
  unfold processPuback
  split
  · exact Frame.refl s
  · split
    · exact frame_onInflight fun f => f.remove pk.packetID
    · exact ((frame_onInflight _).trans (frame_countInflight _)).trans (frame_emit rfl)

theorem frame_dropExchange (e : Packet) : Frame s (s.dropExchange pk e) :=
  ((frame_onInflight _).trans (frame_countInflight _)).trans (frame_emit rfl)

section Rules
variable {P : Session → Prop} (hwrite : ∀ {u ack}, ack.fixedHeader.type ≠ .publish → P u → P (u.writePacket env ack).2)
  (hdrop : ∀ {e}, s.client.inflight.get pk.packetID = some e → P (s.dropExchange pk e))
include hwrite hdrop

theorem processPubrec_invariant (hput : ∀ {e ack}, s.client.inflight.get pk.packetID = some e →
      ack.packetID = pk.packetID → ack.fixedHeader.type ≠ .publish →
      ack.expiry = env.now + s.server.caps.maximumMessageExpiryInterval →
      P (s.onInflight fun f => f.decreaseReceiveQuota.2.put ack)) (h : P s) : P (s.processPubrec env pk).2 := by
  have hcases := processPubrec_cases env s pk
  generalize s.processPubrec env pk = result at hcases ⊢
  cases hcases with
  | unknown _ hheader => exact hwrite (by rw [hheader]; decide) h
  | dropped hget => exact hdrop hget
  | @released _ ack hget _ hid hheader hexpiry =>
    have htype : ack.fixedHeader.type ≠ .publish := by
      rw [hheader]
      decide
    exact hwrite htype (hput hget hid htype hexpiry)

theorem processPubrel_invariant (hput : ∀ {e ack}, s.client.inflight.get pk.packetID = some e →
      ack.packetID = pk.packetID → ack.fixedHeader.type ≠ .publish →
      ack.expiry = env.now + s.server.caps.maximumMessageExpiryInterval → P (s.onInflight fun f => f.put ack))
    (hdone : ∀ {e ack t}, P t → t.client.inflight = s.client.inflight.put ack → ack.packetID = pk.packetID →
      ack.expiry = env.now + s.server.caps.maximumMessageExpiryInterval →
      P (((t.onInflight fun f => f.increaseReceiveQuota.2.increaseSendQuota.2.remove pk.packetID).countInflight
        (-1)).emit (.qosComplete (pk.fillFrom e)))) (h : P s) : P (s.processPubrel env pk).2 := by
  have hwritten : ∀ {e ack}, s.client.inflight.get pk.packetID = some e → ack.packetID = pk.packetID →
      ack.fixedHeader = { type := .pubcomp } →
      ack.expiry = env.now + s.server.caps.maximumMessageExpiryInterval →
      P ((s.onInflight fun f => f.put ack).writePacket env ack).2 := by
    intro e ack hget hid hheader hexpiry
    have htype : ack.fixedHeader.type ≠ .publish := by
      rw [hheader]
      decide
    exact hwrite htype (hput hget hid htype hexpiry)
  have hcases := processPubrel_cases env s pk
  generalize s.processPubrel env pk = result at hcases ⊢
  cases hcases with
  | unknown _ hheader => exact hwrite (by rw [hheader]; decide) h
  | dropped hget => exact hdrop hget
  | unwritten hget _ _ hid hheader hexpiry hw =>
    have ht := hwritten hget hid hheader hexpiry
    rw [hw] at ht
    exact ht
  | @completed _ ack _ hget _ hid hheader hexpiry hw =>
    have ht := hwritten hget hid hheader hexpiry
    have hclient := writePacket_client (s.onInflight fun f => f.put ack) env ack
    rw [hw] at ht hclient
    exact hdone ht (congrArg Client.inflight hclient) hid hexpiry

end Rules

theorem frame_processPubrec : Frame s (s.processPubrec env pk).2 := by
  apply processPubrec_invariant
  · exact fun htype hu => hu.trans (quiet_writePacket env _ htype).toFrame
  · exact fun _ => frame_dropExchange _
  · exact fun _ _ _ _ => frame_onInflight _
  · exact .refl s

theorem frame_processPubrel : Frame s (s.processPubrel env pk).2 := by
  apply processPubrel_invariant
  · exact fun htype hu => hu.trans (quiet_writePacket env _ htype).toFrame
  · exact fun _ => frame_dropExchange _
  · exact fun _ _ _ _ => frame_onInflight _
  · exact fun ht _ _ _ => ((ht.trans (frame_onInflight _)).trans (frame_countInflight _)).trans (frame_emit rfl)
  · exact .refl s

theorem frame_processPubcomp : Frame s (s.processPubcomp pk).2 := by
  unfold processPubcomp
  dsimp only
  split
  · exact frame_onInflight fun f => f.increaseReceiveQuota.2.increaseSendQuota.2
  · exact (((frame_onInflight _).trans (frame_onInflight _)).trans (frame_countInflight _)).trans (frame_emit rfl)

/-! ### Entries under other ids -/

theorem get_processPuback (id : UInt16) : (s.processPuback pk).2.client.inflight.get id =
    if id = pk.packetID then none else s.client.inflight.get id := by
  unfold processPuback
  cases hget : s.client.inflight.get pk.packetID with
  | none =>
    dsimp only
    split
    · rename_i hid
      rw [hid]
      exact hget
    · rfl
  | some e =>
    dsimp only
    split
    · exact Inflight.get_remove _ _ _
    · exact (Inflight.get_increaseSendQuota _ _).trans (Inflight.get_remove _ _ _)

theorem get_processPubcomp (id : UInt16) : (s.processPubcomp pk).2.client.inflight.get id =
    if id = pk.packetID then none else s.client.inflight.get id := by
  have hquota : ∀ id, s.client.inflight.increaseReceiveQuota.2.increaseSendQuota.2.get id = s.client.inflight.get id :=
    fun id => (Inflight.get_increaseSendQuota _ _).trans ((Inflight.sameSend_increaseReceiveQuota _).get id)
  unfold processPubcomp
  dsimp only [onInflight_client]
  rw [← hquota id]
  cases hget : s.client.inflight.increaseReceiveQuota.2.increaseSendQuota.2.get pk.packetID with
  | none =>
    dsimp only
    split
    · rename_i hid
      rw [hid]
      exact hget
    · rfl
  | some e => exact Inflight.get_remove _ _ _

section Entries
variable {id : UInt16} (hid : id ≠ pk.packetID)
include hid

theorem get_dropExchange (e : Packet) : (s.dropExchange pk e).client.inflight.get id = s.client.inflight.get id := by
  show (s.client.inflight.remove pk.packetID).get id = _
  rw [Inflight.get_remove, if_neg hid]

theorem get_processPubrec : (s.processPubrec env pk).2.client.inflight.get id = s.client.inflight.get id := by
  have hcases := processPubrec_cases env s pk
  generalize s.processPubrec env pk = result at hcases ⊢
  cases hcases with
  | unknown => rw [writePacket_client]
  | dropped => exact get_dropExchange hid _
  | @released e ack _ _ hack =>
    rw [writePacket_client, onInflight_client]
    dsimp only
    rw [Inflight.get_put, hack, if_neg hid, (Inflight.sameSend_decreaseReceiveQuota _).get]

theorem get_processPubrel : (s.processPubrel env pk).2.client.inflight.get id = s.client.inflight.get id := by
  have hput : ∀ {ack : Packet}, ack.packetID = pk.packetID → (s.client.inflight.put ack).get id =
      s.client.inflight.get id := by
    intro ack hack
    rw [Inflight.get_put, hack, if_neg hid]
  have hcases := processPubrel_cases env s pk
  generalize s.processPubrel env pk = result at hcases ⊢
  cases hcases with
  | unknown => rw [writePacket_client]
  | dropped => exact get_dropExchange hid _
  | @unwritten _ ack _ _ _ _ _ hack _ _ hw =>
    have hclient := writePacket_client (s.onInflight fun f => f.put ack) env ack
    rw [hw] at hclient
    rw [hclient]
    exact hput hack
  | @completed _ ack t _ _ hack _ _ hw =>
    have hclient := writePacket_client (s.onInflight fun f => f.put ack) env ack
    rw [hw] at hclient
    show (t.client.inflight.increaseReceiveQuota.2.increaseSendQuota.2.remove pk.packetID).get id = _
    rw [Inflight.get_remove, if_neg hid, Inflight.get_increaseSendQuota,
      (Inflight.sameSend_increaseReceiveQuota _).get, hclient]
    exact hput hack

end Entries

/-! ### Subscriptions -/

def Indexes (s t : Session) : Prop :=
  ∃ topics info subscriptions, topics.retained = s.server.topics.retained ∧
    t = { s with
      client := { s.client with subscriptions := subscriptions }
      server := { s.server with topics := topics, info := info } }

theorem Indexes.refl (s : Session) : Indexes s s := ⟨_, s.server.info, s.client.subscriptions, rfl, rfl⟩

theorem Indexes.trans (h : Indexes s t) (h' : Indexes t u) : Indexes s u := by
  obtain ⟨topics, _, _, hret, rfl⟩ := h
  obtain ⟨topics', info, subscriptions, hret', rfl⟩ := h'
  exact ⟨topics', info, subscriptions, hret'.trans hret, rfl⟩

theorem indexes_addSubscription (sub : Subscription) : Indexes s (s.addSubscription sub).2 :=
  ⟨_, _, _, ((IndexCall.subscribe s.client.id sub).retained_of_ne (fun _ h => by cases h) s.server.topics {}).1, rfl⟩

theorem indexes_addSubscriptions {α : Type} (f : α → Subscription) (as : List α) (s : Session) :
    Indexes s (as.foldl (fun s a => (s.addSubscription (f a)).2) s) :=
  List.foldlRecOn _ _ (.refl s) fun _ h a _ => h.trans (indexes_addSubscription (f a))

theorem indexes_subscribeFilter (code : Code) (sub : Subscription) :
    Indexes s (s.subscribeFilter env code sub).2.2 := by
  unfold subscribeFilter
  dsimp only
  split
  · exact .refl s
  · split
    · exact .refl s
    · split
      · exact .refl s
      · split
        · exact .refl s
        · exact indexes_addSubscription sub

theorem indexes_subscribeFilters (code : Code) (subs : List Subscription) :
    ∀ s, Indexes s (subscribeFilters env code s subs).2 := by
  induction subs with
  | nil => exact fun s => .refl s
  | cons sub subs ih => exact fun s => (indexes_subscribeFilter code sub).trans (ih _)

theorem indexes_unsubscribeFilters (code : Code) (subs : List Subscription) :
    ∀ s, Indexes s (unsubscribeFilters code s subs).2 := by
  induction subs with
  | nil => exact fun s => .refl s
  | cons sub subs ih =>
    intro s
    unfold unsubscribeFilters
    split
    · exact ih s
    · have hone : ∀ info subscriptions, Indexes s
          { s with
            server := { s.server with
              topics := (s.server.topics.unsubscribe sub.filter s.client.id).2, info := info }
            client := { s.client with subscriptions := subscriptions } } :=
        fun info subscriptions => ⟨_, info, subscriptions,
          ((IndexCall.unsubscribe sub.filter s.client.id).retained_of_ne (fun _ h => by cases h) s.server.topics {}).1,
          rfl⟩
      exact (hone _ _).trans (ih _)

theorem processSubscribe_steps {P : Session → Prop} (hindexed : ∀ {t}, Indexes s t → P t)
    (hnotified : ∀ {t} pk codes, P t → P (t.emit (.subscribed pk codes)))
    (hwritten : ∀ {t ack}, ack.fixedHeader.type ≠ .publish → P t → P (t.writePacket env ack).2)
    (hdelivered : ∀ {t} sub existed, P t → P (t.publishRetainedToClient env sub existed)) :
    P (s.processSubscribe env pk).2 := by
  unfold processSubscribe
  dsimp only
  generalize env.onSubscribe pk = pk
  have hsubs : P (subscribeFilters env (s.requestCode pk) s pk.filters).2 := hindexed (indexes_subscribeFilters _ _ s)
  generalize subscribeFilters env (s.requestCode pk) s pk.filters = subscribed at hsubs ⊢
  obtain ⟨results, u⟩ := subscribed
  dsimp only at hsubs ⊢
  have hack : (requestAck pk .suback (s.requestCode pk) (results.map fun r => r.2.1)).fixedHeader.type ≠ .publish :=
    nofun
  have hanswered := hwritten hack (hnotified pk (results.map fun r => r.2.1) hsubs)
  split
  · rename_i hw
    rwa [hw] at hanswered
  · rename_i hw
    rw [hw] at hanswered
    refine List.foldlRecOn _ _ hanswered fun t ht r _ => ?_
    split
    · exact ht
    · exact hdelivered _ _ ht

end Session
end Mqtt
