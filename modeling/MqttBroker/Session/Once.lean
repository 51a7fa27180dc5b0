import MqttBroker.Library.Runs
import MqttBroker.Session.Cases
import MqttBroker.Session.Connect
import MqttBroker.Session.Delivery
import MqttBroker.Topics.Retained

/-! QoS 2 messages of a client over whole runs. From the PUBLISH that stores an
entry until the PUBREL that releases it the message is passed on once, across
retransmissions, deliveries and new connections of the session, as long as the
PUBREC can be written. -/

namespace Mqtt
namespace Session
open Inflight

def isForward (p : UInt16) : Event → Bool
  | .forward pk => pk.packetID == p
  | _ => false

def forwards (s : Session) (p : UInt16) : Nat := s.log.countP (isForward p)

def pubrecAt (s : Session) (p : UInt16) : Bool := s.client.inflight.hasType p .pubrec

def RetainsPublish (s : Session) : Prop :=
  ∀ topic pk, s.server.topics.retained.lookup topic = some pk → pk.fixedHeader.type = .publish

/-- The exchange of the id is left alone. Messages without an id, such as wills, may be passed on. -/
structure Keeps (p : UInt16) (s t : Session) : Prop where
  entry : t.pubrecAt p = s.pubrecAt p
  inline : s.client.inline = false → t.client.inline = false
  forwards : p ≠ 0 → t.forwards p = s.forwards p
  stored : s.RetainsPublish → t.RetainsPublish

variable {p : UInt16} {env : Env} {s t u : Session} {pk : Packet} {sub : Subscription}

theorem Keeps.refl (s : Session) : Keeps p s s := ⟨rfl, id, fun _ => rfl, id⟩

theorem Keeps.trans (h : Keeps p s t) (h' : Keeps p t u) : Keeps p s u :=
  ⟨h'.entry.trans h.entry, h'.inline ∘ h.inline, fun hp => (h'.forwards hp).trans (h.forwards hp),
    h'.stored ∘ h.stored⟩

theorem forwards_append (es : List Event) (h : t.log = s.log ++ es) (hes : ∀ e ∈ es, isForward p e = false) :
    t.forwards p = s.forwards p := by
  have hnone : es.countP (isForward p) = 0 := by
    refine List.countP_eq_zero.mpr fun e he => ?_
    rw [hes e he]
    decide
  unfold forwards
  rw [h, List.countP_append, hnone, Nat.add_zero]

theorem keeps_emit {e : Event} (he : isForward p e = false) : Keeps p s (s.emit e) :=
  ⟨rfl, id, fun _ => forwards_append [e] rfl fun e' h => by rw [List.mem_singleton.mp h, he], id⟩

theorem Frame.forwards (h : Frame s t) : t.forwards p = s.forwards p := by
  obtain ⟨es, hlog, hes⟩ := h.log
  refine forwards_append es hlog fun e he => ?_
  have hinert := hes e he
  cases e with
  | forward pk => cases hinert
  | _ => rfl

theorem Frame.stored (h : Frame s t) (hr : s.RetainsPublish) : t.RetainsPublish := by
  unfold RetainsPublish
  rw [h.topics]
  exact hr

theorem Frame.keeps (h : Frame s t) (hentry : t.pubrecAt p = s.pubrecAt p) : Keeps p s t :=
  ⟨hentry, fun hi => h.inline.trans hi, fun _ => h.forwards, h.stored⟩

theorem Quiet.keeps (h : Quiet s t) : Keeps p s t := by
  refine h.toFrame.keeps ?_
  unfold pubrecAt
  rw [h.inflight]

theorem Delivers.keeps (h : Delivers s t) (hk : KeepsType .pubrec s.client.inflight t.client.inflight) :
    Keeps p s t := by
  have hentry : t.pubrecAt p = s.pubrecAt p := hk p
  obtain ⟨_, _, _, _, _, es, -, hes, rfl⟩ := h
  refine ⟨hentry, id, fun _ => forwards_append es rfl fun e he => ?_, id⟩
  have hpass := hes e he
  cases e with
  | forward pk => cases hpass
  | _ => rfl

theorem Indexes.keeps (h : Indexes s t) : Keeps p s t := by
  obtain ⟨topics, _, _, hret, rfl⟩ := h
  refine ⟨rfl, id, fun _ => rfl, fun hr => ?_⟩
  unfold RetainsPublish
  show ∀ topic pk, topics.retained.lookup topic = some pk → _
  rw [hret]
  exact hr

theorem pubrecAt_of_get (h : t.client.inflight.get p = s.client.inflight.get p) : t.pubrecAt p = s.pubrecAt p := by
  unfold pubrecAt hasType
  rw [h]

/-! ### Deliveries -/

theorem keeps_resume : Keeps p s (s.resumeDeferredPublishes env).2 := delivers_resume.keeps keepsType_resume

theorem keeps_publishToClient (hpk : pk.fixedHeader.type = .publish) : Keeps p s (s.publishToClient env sub pk).2 := by
  refine delivers_publishToClient.keeps (keepsType_publishToClient ?_ (by decide))
  rw [hpk]
  decide

theorem keeps_publishRetainedToClient (hr : s.RetainsPublish) (existed : Bool) :
    Keeps p s (s.publishRetainedToClient env sub existed) := by
  refine publishRetainedToClient_invariant (P := Keeps p s) (fun h hmem => ?_) (fun _ h => h.trans (keeps_emit rfl))
    (.refl s) existed
  obtain ⟨topic, htopic⟩ := TopicsIndex.exists_retained_of_mem_messages _ _ hmem
  exact h.trans (keeps_publishToClient (hr topic _ htopic))

theorem keeps_publishToSubscribers (hpk : pk.fixedHeader.type = .publish) :
    Keeps p (s.emit (.forward pk)) (s.publishToSubscribers env pk) := by
  refine publishToSubscribers_invariant (.refl _) fun hq => keeps_publishToClient ?_
  rw [hq]
  exact hpk

theorem keeps_retainMessage (hpk : pk.fixedHeader.type = .publish) : Keeps p s (s.retainMessage pk) := by
  unfold retainMessage
  split
  · exact .refl s
  · refine ⟨rfl, id, fun _ => forwards_append [.retain (pk.copy false)] rfl ?_, fun hr => ?_⟩
    · intro e he
      rw [List.mem_singleton.mp he]
      rfl
    · intro topic pk' hpk'
      rcases TopicsIndex.of_lookup_retainMessage hpk' with rfl | hold
      · exact hpk
      · exact hr topic pk' hold

theorem keeps_retained (hpk : pk.fixedHeader.type = .publish) : Keeps p s (s.retained pk) := by
  unfold retained
  split
  · exact keeps_retainMessage hpk
  · exact .refl s

theorem keeps_sendLWT : Keeps p s (s.sendLWT env) := by
  unfold sendLWT
  split
  · exact .refl s
  · dsimp only
    split
    · exact ⟨rfl, id, fun _ => rfl, id⟩
    · have htype : (s.willMessage env).fixedHeader.type = .publish := rfl
      have hretain : Keeps p s (s.retained (s.willMessage env)) := keeps_retained htype
      -- a will has no packet id, so it is not counted for an id of the client
      have hforward : ∀ u, Keeps p u (u.emit (.forward (s.willMessage env))) := by
        refine fun u => ⟨rfl, id, fun hp => ?_, id⟩
        refine forwards_append [.forward (s.willMessage env)] rfl fun e he => ?_
        rw [List.mem_singleton.mp he]
        exact beq_false_of_ne (Ne.symm hp)
      have hsent := (hretain.trans (hforward _)).trans (@keeps_publishToSubscribers p env _ _ htype)
      exact ⟨hsent.entry, hsent.inline, fun hp =>
        (forwards_append [.willSent (s.willMessage env)] rfl fun e he => by
          rw [List.mem_singleton.mp he]; rfl).trans (hsent.forwards hp), hsent.stored⟩

/-! ### Requests and the end of a connection -/

theorem keeps_processSubscribe (hr : s.RetainsPublish) : Keeps p s (s.processSubscribe env pk).2 := by
  apply processSubscribe_steps
  · exact fun h => h.keeps
  · exact fun _ _ h => h.trans (keeps_emit rfl)
  · exact fun hack h => h.trans (quiet_writePacket env _ hack).keeps
  · exact fun _ _ h => h.trans (keeps_publishRetainedToClient (h.stored hr) _)

theorem keeps_processUnsubscribe : Keeps p s (s.processUnsubscribe env pk).2 := by
  unfold processUnsubscribe
  dsimp only
  have hindexed : Keeps p s (unsubscribeFilters (s.requestCode pk) s (env.onUnsubscribe pk).filters).2 :=
    (indexes_unsubscribeFilters _ _ s).keeps
  have htype : ∀ reasonCodes, (requestAck (env.onUnsubscribe pk) .unsuback (s.requestCode pk)
      reasonCodes).fixedHeader.type ≠ .publish := fun _ => nofun
  exact (hindexed.trans (keeps_emit rfl)).trans (quiet_writePacket env _ (htype _)).keeps

theorem keeps_processDisconnect : Keeps p s (s.processDisconnect env pk).2 := by
  refine processDisconnect_invariant (P := Keeps p s) (.refl s) (fun _ => ⟨rfl, id, fun _ => rfl, id⟩) fun {t} h => ?_
  have herase : Keeps p t
      { t with server := { t.server with willDelayed := t.server.willDelayed.erase t.client.id } } :=
    ⟨rfl, id, fun _ => rfl, id⟩
  exact (h.trans herase).trans (quiet_stop env _ _).keeps

theorem keeps_endRead (err : Option Error) : Keeps p s (s.endRead env err) := by
  unfold endRead
  split
  · exact keeps_sendLWT.trans (quiet_stop env _ _).keeps
  · exact ⟨rfl, id, fun _ => rfl, id⟩

/-! ### PUBLISH -/

def Unchanged (env : Env) : Prop := ∀ q, env.onPublish q = .accept q

theorem keeps_aliased : Keeps p s (s.aliased env pk) := by
  rw [aliased_eq]
  exact ⟨rfl, id, fun _ => rfl, id⟩

variable {q : Packet}

theorem eq_subject_of_passes (hun : Unchanged env) (hq : Passes env s (s.subject env pk) q) :
    q = s.subject env pk := by
  unfold Passes at hq
  rw [hun] at hq
  exact hq

theorem subject_of_passes (hun : Unchanged env) (hq : Passes env s (s.subject env pk) q) :
    q.packetID = pk.packetID ∧ q.fixedHeader.type = pk.fixedHeader.type ∧
      q.fixedHeader.qos ≤ pk.fixedHeader.qos := by
  obtain ⟨qos, hqos, hsub⟩ := subject_cases env s pk
  rw [eq_subject_of_passes hun hq, hsub]
  exact ⟨rfl, rfl, hqos⟩

theorem keeps_passed (hq : q.fixedHeader.type = .publish) :
    Keeps p (s.emit (.forward q)) ((s.publishToSubscribers env q).emit (.published q)) :=
  (keeps_publishToSubscribers hq).trans (keeps_emit rfl)

theorem get_recorded (hid : p ≠ q.packetID) : (s.recorded env q).get p = s.client.inflight.get p := by
  unfold recorded
  split
  · rw [get_put, publishAck_packetID, if_neg hid]
  · rfl

theorem keeps_processPublish (hun : Unchanged env) (hpk : pk.fixedHeader.type = .publish) (hid : pk.packetID ≠ p) :
    Keeps p s (s.processPublish env pk).2 := by
  unfold processPublish
  obtain ⟨err, t, hret, hquiet | ⟨-, hquiet⟩⟩ | ⟨-, q, hpass, hacc⟩ := receivePublish_cases env s pk
  · rw [hret]
    exact hquiet.keeps
  · rw [hret]
    exact keeps_aliased.trans hquiet.keeps
  · obtain ⟨hqid, hqtype, -⟩ := subject_of_passes hun hpass
    rw [hpk] at hqtype
    have hne : p ≠ q.packetID := by
      rw [hqid]
      exact Ne.symm hid
    have hretained : Keeps p s ((s.aliased env pk).retained q) := keeps_aliased.trans (keeps_retained hqtype)
    have hpassed : ∀ t, Keeps p t ((t.publishToSubscribers env q).emit (.published q)) := by
      intro t
      refine Keeps.trans (keeps_emit ?_) (keeps_passed hqtype)
      exact beq_false_of_ne (Ne.symm hne)
    have hentry : ∀ {t : Session}, SameSend (((s.aliased env pk).retained q).recorded env q) t.client.inflight →
        t.pubrecAt p = ((s.aliased env pk).retained q).pubrecAt p := by
      intro t hsame
      exact pubrecAt_of_get ((hsame.get p).trans (get_recorded hne))
    rw [hacc]
    obtain ⟨-, err, t, hret, hframe, hsame⟩ | ⟨-, -, -, err, t, hret, hframe, hsame⟩ | ⟨-, hret⟩ |
      ⟨-, -, t, hret, hframe, hsame⟩ := acceptPublish_cases env (s.aliased env pk) q
    · rw [hret]
      exact hretained.trans (hframe.keeps (pubrecAt_of_get (hsame.get p)))
    · rw [hret]
      exact hretained.trans (hframe.keeps (hentry hsame))
    · rw [hret]
      exact hretained.trans (hpassed _)
    · rw [hret]
      exact (hretained.trans (hframe.keeps (hentry hsame))).trans (hpassed t)

theorem keeps_processPublish_again (hat : s.pubrecAt pk.packetID = true) (hinline : s.client.inline = false) :
    Keeps p s (s.processPublish env pk).2 := by
  have hnot : ¬ Admits env s pk := by
    intro hadmits
    obtain ⟨e, hget, htype⟩ := hasType_iff.mp hat
    rcases hadmits.fresh with h | h
    · rw [hinline] at h
      cases h
    · exact h e hget htype
  unfold processPublish
  obtain ⟨err, t, hret, hquiet | ⟨hadmits, -⟩⟩ | ⟨hadmits, -⟩ := receivePublish_cases env s pk
  · rw [hret]
    exact hquiet.keeps
  · exact absurd hadmits hnot
  · exact absurd hadmits hnot

structure Opens (p : UInt16) (s t : Session) : Prop where
  inline : t.client.inline = false
  forwards : t.forwards p = s.forwards p + 1

theorem opens_processPublish (hp : p ≠ 0) (hun : Unchanged env) (hpk : pk.fixedHeader.type = .publish)
    (hid : pk.packetID = p) (hfree : s.pubrecAt p = false)
    (hw : (s.subject env pk).fixedHeader.qos = 2 → ¬ Fails env s (s.publishAck env (s.subject env pk))) :
    ((s.processPublish env pk).2.pubrecAt p = true → Opens p s (s.processPublish env pk).2) ∧
      (s.RetainsPublish → (s.processPublish env pk).2.RetainsPublish) := by
  have hkept : ∀ {t : Session}, Keeps p s t →
      (t.pubrecAt p = true → Opens p s t) ∧ (s.RetainsPublish → t.RetainsPublish) := by
    intro t hk
    refine ⟨fun hat => ?_, hk.stored⟩
    rw [hk.entry, hfree] at hat
    cases hat
  unfold processPublish
  obtain ⟨err, t, hret, hquiet | ⟨-, hquiet⟩⟩ | ⟨-, q, hpass, hacc⟩ := receivePublish_cases env s pk
  · rw [hret]
    exact hkept hquiet.keeps
  · rw [hret]
    exact hkept (keeps_aliased.trans hquiet.keeps)
  · obtain ⟨hqid, hqtype, -⟩ := subject_of_passes hun hpass
    rw [hpk] at hqtype
    have hretained : Keeps p s ((s.aliased env pk).retained q) := keeps_aliased.trans (keeps_retained hqtype)
    rw [hacc]
    obtain ⟨-, err, t, hret, hframe, hsame⟩ | ⟨-, -, hfails, err, t, hret, hframe, hsame⟩ | ⟨-, hret⟩ |
      ⟨hinline, -, t, hret, hframe, hsame⟩ := acceptPublish_cases env (s.aliased env pk) q
    · rw [hret]
      exact hkept (hretained.trans (hframe.keeps (pubrecAt_of_get (hsame.get p))))
    · -- the acknowledgement of QoS 2 can be written, and QoS 1 leaves no entry
      have hqos : q.fixedHeader.qos ≠ 2 := by
        intro hqos
        rw [eq_subject_of_passes hun hpass] at hqos hfails
        exact hw hqos (fails_retained hfails)
      unfold recorded at hsame
      rw [if_neg hqos] at hsame
      rw [hret]
      exact hkept (hretained.trans (hframe.keeps (pubrecAt_of_get (hsame.get p))))
    · rw [hret]
      have hpassed : Keeps p (((s.aliased env pk).retained q).emit (.forward q))
          ((((s.aliased env pk).retained q).publishToSubscribers env q).emit (.published q)) := keeps_passed hqtype
      refine ⟨fun hat => ?_, fun hr => hpassed.stored (hretained.stored hr)⟩
      rw [hpassed.entry] at hat
      rw [show ((s.aliased env pk).retained q |>.emit (.forward q)).pubrecAt p =
        ((s.aliased env pk).retained q).pubrecAt p from rfl, hretained.entry, hfree] at hat
      cases hat
    · rw [hret]
      have hpassed : Keeps p (t.emit (.forward q)) ((t.publishToSubscribers env q).emit (.published q)) :=
        keeps_passed hqtype
      refine ⟨fun _ => ⟨?_, ?_⟩, fun hr => hpassed.stored (hframe.stored (hretained.stored hr))⟩
      · refine hpassed.inline (hframe.inline.trans (hretained.inline ?_))
        rw [aliased_eq] at hinline
        exact hinline
      · rw [hpassed.forwards hp]
        have hone : (t.emit (.forward q)).forwards p = t.forwards p + 1 := by
          unfold Session.forwards
          rw [emit_log, List.countP_append, List.countP_singleton]
          exact congrArg (t.log.countP (isForward p) + ·) (if_pos (beq_iff_eq.mpr (hqid.trans hid)))
        rw [hone, hframe.forwards, hretained.forwards hp]

/-! ### PUBREL and the other packets -/

theorem pubrecAt_processPubrel : (s.processPubrel env pk).2.pubrecAt pk.packetID = false := by
  have hcases := processPubrel_cases env s pk
  generalize s.processPubrel env pk = result at hcases ⊢
  cases hcases with
  | unknown hget =>
    unfold pubrecAt hasType
    rw [writePacket_client, hget]
    rfl
  | dropped =>
    show (s.client.inflight.remove pk.packetID).hasType pk.packetID .pubrec = false
    rw [hasType_remove, if_pos rfl]
  | @unwritten e ack err t _ _ _ hid hheader _ hw =>
    have hclient := writePacket_client (s.onInflight fun f => f.put ack) env ack
    rw [hw] at hclient
    unfold pubrecAt
    rw [hclient, onInflight_client]
    dsimp only
    rw [hasType_put, if_pos hid.symm, hheader]
    decide
  | @completed e ack t =>
    show (t.client.inflight.increaseReceiveQuota.2.increaseSendQuota.2.remove pk.packetID).hasType
      pk.packetID .pubrec = false
    rw [hasType_remove, if_pos rfl]

theorem keeps_handle (hun : Unchanged env) (hr : s.RetainsPublish) (hid : pk.packetID ≠ p) :
    Keeps p s (s.handle env pk).2 := by
  unfold handle
  cases htype : pk.fixedHeader.type with
  | connect => exact keeps_sendLWT
  | disconnect => exact keeps_processDisconnect
  | pingreq => exact (quiet_writePacket env s (by simp)).keeps
  | publish =>
    dsimp only [validated]
    split
    · exact .refl s
    · exact keeps_processPublish hun htype hid
  | puback => exact frame_processPuback.keeps (pubrecAt_of_get ((get_processPuback p).trans (if_neg hid.symm)))
  | pubrec => exact frame_processPubrec.keeps (pubrecAt_of_get (get_processPubrec hid.symm))
  | pubrel => exact frame_processPubrel.keeps (pubrecAt_of_get (get_processPubrel hid.symm))
  | pubcomp => exact frame_processPubcomp.keeps (pubrecAt_of_get ((get_processPubcomp p).trans (if_neg hid.symm)))
  | subscribe =>
    dsimp only [validated]
    split
    · exact .refl s
    · exact keeps_processSubscribe hr
  | unsubscribe =>
    dsimp only [validated]
    split
    · exact .refl s
    · exact keeps_processUnsubscribe
  | auth =>
    dsimp only [validated]
    split <;> exact .refl s
  | _ => exact .refl s

theorem keeps_receivePacket : Keeps p (s.handle env pk).2 (s.receivePacket env pk).2 :=
  receivePacket_invariant (P := Keeps p (s.handle env pk).2) (.refl _) (fun h => h.trans keeps_resume)
    fun code h => h.trans (quiet_disconnectClient env _ code).keeps

/-! ### New connections -/

theorem hasType_inheritInflight {type : PacketType} (caps : Capabilities) (f : Inflight) {cl : Client}
    (hcl : ∀ id, cl.inflight.get id = none) (id : UInt16) :
    (inheritInflight caps f cl).hasType id type = f.hasType id type := by
  unfold hasType
  rw [get_inheritInflight _ _ hcl]

theorem keeps_sendConnack (reason : Code) (present : Bool) : Keeps p s (s.sendConnack env reason present).2 := by
  have hcap : Keeps p s s.capSessionExpiry := by
    unfold capSessionExpiry
    dsimp only
    split
    · exact ⟨rfl, id, fun _ => rfl, id⟩
    · exact .refl s
  unfold sendConnack
  split
  · exact (quiet_writePacket env s (by simp)).keeps
  · exact hcap.trans (quiet_writePacket env _ (by simp)).keeps

theorem keeps_establish (present : Bool) : Keeps p s (s.establish env present).2 := by
  have hack : Keeps p s (s.sendConnack env .success present).2 := keeps_sendConnack _ _
  unfold establish
  split
  · rename_i h
    rwa [h] at hack
  · rename_i t h
    rw [h] at hack
    have herase : Keeps p t { t with server := { t.server with
        willDelayed := t.server.willDelayed.erase t.client.id } } := ⟨rfl, id, fun _ => rfl, id⟩
    dsimp only
    split
    · exact (hack.trans herase).trans
        (delivers_resendInflightMessages.keeps (keepsType_resendInflightMessages (by decide) (by decide)))
    · exact hack.trans herase

theorem keeps_reconnect {assigned : Bytes} (hc : continues s.client pk = true) :
    Keeps p s (s.reconnect env assigned pk) := by
  have hdisc := quiet_disconnectClient env s .sessionTakenOver
  have hcont : continues (s.disconnectClient env .sessionTakenOver).2.client pk = true := by
    obtain ⟨_, _, _, _, _, _, -, h⟩ := hdisc.toFrame
    rw [h]
    exact hc
  generalize hcl : (Client.new s.server.caps).parseConnect s.server.caps assigned pk = cl
  have hempty : ∀ id, cl.inflight.get id = none := by
    intro id
    rw [← hcl]
    rfl
  have hinline : cl.inline = false := by
    rw [← hcl]
    rfl
  have hinherit : Keeps p s (s.inheritClientSession env pk cl).2.2 := by
    rw [inheritClientSession_eq]
    dsimp only
    rw [hcont, if_neg (by decide)]
    dsimp only
    refine hdisc.keeps.trans (Keeps.trans ?_ (indexes_addSubscriptions _ _ _).keeps)
    exact ⟨hasType_inheritInflight _ _ hempty p, fun _ => hinline, fun _ => rfl, id⟩
  unfold reconnect
  dsimp only
  rw [hcl]
  generalize s.inheritClientSession env pk cl = inherited at hinherit ⊢
  obtain ⟨present, existing, u⟩ := inherited
  dsimp only at hinherit ⊢
  have hest : Keeps p s (u.establish env present).2 := hinherit.trans (keeps_establish present)
  split
  · rename_i h
    rw [h] at hest
    exact hest.trans (quiet_stop env _ none).keeps
  · rename_i h
    rwa [h] at hest

/-! ### Runs -/

/-- What can happen to a session: a packet is handled, a message is delivered, the write loop takes a
turn, the connection ends, or a new connection continues the session. -/
inductive SessionCall where
  | packet (pk : Packet)
  | deliver (sub : Subscription) (pk : Packet)
  | write
  | close (err : Option Error)
  | reconnect (assigned : Bytes) (pk : Packet)

def SessionCall.run (env : Env) (s : Session) : SessionCall → Session
  | .packet pk => (s.receivePacket env pk).2
  | .deliver sub pk => (s.publishToClient env sub pk).2
  | .write => s.writeNext env
  | .close err => s.endRead env err
  | .reconnect assigned pk => s.reconnect env assigned pk

/-- Packets with the id are PUBLISH of QoS 2 and PUBREL, what is delivered are PUBLISH packets, and
new connections continue the session. -/
def SessionCall.Allowed (p : UInt16) (s : Session) : SessionCall → Prop
  | .packet pk => pk.packetID = p →
      (pk.fixedHeader.type = .publish ∧ pk.fixedHeader.qos = 2) ∨ pk.fixedHeader.type = .pubrel
  | .deliver _ pk => pk.fixedHeader.type = .publish
  | .write => True
  | .close _ => True
  | .reconnect _ pk => continues s.client pk = true

def SessionCall.releases (p : UInt16) : SessionCall → Bool
  | .packet pk => pk.fixedHeader.type == .pubrel && pk.packetID == p
  | _ => false

theorem releases_packet : (SessionCall.packet pk).releases p =
    (pk.fixedHeader.type == .pubrel && pk.packetID == p) := rfl

/-- A session with the number of times that the message of an id was passed on since its entry was
stored, while it is not released. -/
structure Exchange where
  session : Session
  passed : Option Nat := none

def Exchange.count (p : UInt16) (x : Exchange) (call : SessionCall) (t : Session) : Option Nat :=
  if call.releases p then none
  else
    match x.passed with
    | some n => some (n + (t.forwards p - x.session.forwards p))
    | none => if t.pubrecAt p then some (t.forwards p - x.session.forwards p) else none

/-- One call in its environment, in which `OnPublish` returns the packet. -/
def Exchange.Step (p : UInt16) (x : Exchange) (call : Env × SessionCall) (y : Exchange) : Prop :=
  Unchanged call.1 ∧ call.2.Allowed p x.session ∧
    y = ⟨call.2.run call.1 x.session, x.count p call.2 (call.2.run call.1 x.session)⟩

/-- The PUBREC can be written with which a PUBLISH is answered that has the id and was not received before. -/
def Exchange.Acknowledges (p : UInt16) (x : Exchange) (call : Env × SessionCall) : Prop :=
  ∀ pk, call.2 = .packet pk → pk.fixedHeader.type = .publish → pk.packetID = p → x.session.pubrecAt p = false →
    (x.session.subject call.1 pk).fixedHeader.qos = 2 →
      ¬ Fails call.1 x.session (x.session.publishAck call.1 (x.session.subject call.1 pk))

/-- The message was passed on once if its entry is stored, and there is no open exchange otherwise. -/
structure Exchange.Once (p : UInt16) (x : Exchange) : Prop where
  stored : x.session.RetainsPublish
  closed : x.session.pubrecAt p = false → x.passed = none
  opened : x.session.pubrecAt p = true → x.passed = some 1 ∧ p ≠ 0 ∧ x.session.client.inline = false

variable {x y : Exchange} {call : SessionCall}

theorem Exchange.Once.of_keeps (h : x.Once p) (hk : Keeps p x.session t) (hcall : call.releases p = false) :
    Exchange.Once p ⟨t, x.count p call t⟩ := by
  refine ⟨hk.stored h.stored, fun hat => ?_, fun hat => ?_⟩
  · have hat : t.pubrecAt p = false := hat
    have hnone := h.closed (hk.entry.symm.trans hat)
    show x.count p call t = none
    unfold Exchange.count
    rw [hcall, hnone, hat]
    rfl
  · obtain ⟨hone, hp, hinline⟩ := h.opened (hk.entry.symm.trans hat)
    refine ⟨?_, hp, hk.inline hinline⟩
    show x.count p call t = some 1
    unfold Exchange.count
    rw [hcall, hone, hk.forwards hp, Nat.sub_self]
    rfl

theorem Exchange.Once.of_opens (hstored : t.RetainsPublish) (hp : p ≠ 0) (hnone : x.passed = none)
    (hopens : t.pubrecAt p = true → Opens p x.session t) (hcall : call.releases p = false) :
    Exchange.Once p ⟨t, x.count p call t⟩ := by
  have hcount : x.count p call t = if t.pubrecAt p then some (t.forwards p - x.session.forwards p) else none := by
    unfold Exchange.count
    rw [hcall, hnone]
    rfl
  refine ⟨hstored, fun hat => ?_, fun hat => ?_⟩
  · show x.count p call t = none
    rw [hcount, show t.pubrecAt p = false from hat]
    rfl
  · have hopen := hopens hat
    refine ⟨?_, hp, hopen.inline⟩
    show x.count p call t = some 1
    rw [hcount, hopen.forwards, if_pos hat, Nat.add_sub_cancel_left]

theorem ne_zero_of_publishValidate {m : UInt16} (hqos : pk.fixedHeader.qos = 2) (hid : pk.packetID = p)
    (hv : pk.publishValidate m = .success) : p ≠ 0 := by
  rintro rfl
  unfold Packet.publishValidate at hv
  rw [hqos, hid] at hv
  cases hv

theorem Exchange.Once.packet (h : x.Once p) (hun : Unchanged env)
    (hallowed : (SessionCall.packet pk).Allowed p x.session)
    (hack : x.Acknowledges p (env, .packet pk)) :
    Exchange.Once p ⟨(x.session.receivePacket env pk).2,
      x.count p (.packet pk) (x.session.receivePacket env pk).2⟩ := by
  have hrest : Keeps p (x.session.handle env pk).2 (x.session.receivePacket env pk).2 := keeps_receivePacket
  by_cases hid : pk.packetID = p
  · rcases hallowed hid with ⟨htype, hqos⟩ | htype
    · have hcall : (SessionCall.packet pk).releases p = false := by
        rw [releases_packet, htype]
        rfl
      by_cases hvalid : pk.publishValidate x.session.server.caps.topicAliasMaximum = .success
      · have hp := ne_zero_of_publishValidate hqos hid hvalid
        have hhandle : x.session.handle env pk = x.session.processPublish env pk := by
          unfold handle validated
          rw [htype]
          exact if_neg (not_not.mpr hvalid)
        rw [hhandle] at hrest
        cases hat : x.session.pubrecAt p with
        | true =>
          obtain ⟨-, -, hinline⟩ := h.opened hat
          rw [← hid] at hat
          exact h.of_keeps ((keeps_processPublish_again hat hinline).trans hrest) hcall
        | false =>
          have hw := hack pk rfl htype hid hat
          obtain ⟨hopens, hstored⟩ := opens_processPublish hp hun htype hid hat hw
          refine .of_opens (hrest.stored (hstored h.stored)) hp (h.closed hat) (fun hat' => ?_) hcall
          have hopen := hopens (hrest.entry.symm.trans hat')
          exact ⟨hrest.inline hopen.inline, (hrest.forwards hp).trans hopen.forwards⟩
      · have hhandle : (x.session.handle env pk).2 = x.session := by
          unfold handle validated
          rw [htype]
          dsimp only
          rw [if_pos hvalid]
        rw [hhandle] at hrest
        exact h.of_keeps hrest hcall
    · have hhandle : x.session.handle env pk = x.session.processPubrel env pk := by
        unfold handle
        rw [htype]
      rw [hhandle] at hrest
      have hat : (x.session.receivePacket env pk).2.pubrecAt p = false := by
        rw [hrest.entry, ← hid]
        exact pubrecAt_processPubrel
      refine ⟨hrest.stored (frame_processPubrel.stored h.stored), fun _ => ?_, fun hat' => ?_⟩
      · show x.count p (.packet pk) _ = none
        unfold Exchange.count
        rw [releases_packet, htype, hid]
        exact if_pos (beq_self_eq_true p)
      · rw [hat] at hat'
        cases hat'
  · have hcall : (SessionCall.packet pk).releases p = false := by
      rw [releases_packet, beq_false_of_ne hid, Bool.and_false]
    exact h.of_keeps ((keeps_handle hun h.stored hid).trans hrest) hcall

theorem keeps_writeNext : Keeps p s (s.writeNext env) := by
  refine delivers_writeNext.keeps (hasType_of_get fun id => ?_)
  unfold writeNext
  split
  · rfl
  · rw [writePacketOn_client]

theorem Exchange.Once.step {call : Env × SessionCall} (h : x.Once p) (hack : x.Acknowledges p call)
    (hstep : Exchange.Step p x call y) : y.Once p := by
  obtain ⟨hun, hallowed, rfl⟩ := hstep
  obtain ⟨env, call⟩ := call
  cases call with
  | packet pk => exact h.packet hun hallowed hack
  | deliver sub pk => exact h.of_keeps (keeps_publishToClient hallowed) rfl
  | write => exact h.of_keeps keeps_writeNext rfl
  | close err => exact h.of_keeps (keeps_endRead err) rfl
  | reconnect assigned pk => exact h.of_keeps (keeps_reconnect hallowed) rfl

/-- In every run in which the PUBREC of each PUBLISH with the id can be written, the message of a
stored entry was passed on once, and no message is passed on again before its PUBREL. -/
theorem forwarded_once_of_acknowledges (hr : s.RetainsPublish) (hstart : s.pubrecAt p = false)
    (hrun : Runs.Reach (Exchange.Step p) (Exchange.Acknowledges p) ⟨s, none⟩ x) :
    (x.session.pubrecAt p = true → x.passed = some 1) ∧ ∀ n, x.passed = some n → n = 1 := by
  have hinit : Exchange.Once p ⟨s, none⟩ := by
    refine ⟨hr, fun _ => rfl, fun hat => ?_⟩
    rw [show s.pubrecAt p = true from hat] at hstart
    cases hstart
  have honce : x.Once p := hrun.invariant hinit fun h hack hstep => h.step hack hstep
  refine ⟨fun hat => (honce.opened hat).1, fun n hn => ?_⟩
  cases hat : x.session.pubrecAt p with
  | true =>
    rw [(honce.opened hat).1] at hn
    exact (Option.some.inj hn).symm
  | false =>
    rw [honce.closed hat] at hn
    cases hn

def qos2Message : Packet :=
  { fixedHeader := { type := .publish, qos := 2 }, packetID := 1, topicName := [97], payload := [1] }

def openSession : Session := { client := { inflight := Inflight.new.resetReceiveQuota 1 } }

theorem retainsPublish_openSession : openSession.RetainsPublish := by
  intro topic pk h
  cases h

def publishedOnce : Session := (openSession.receivePacket (.encoding 100) qos2Message).2

def publishedAgain : Session := (publishedOnce.receivePacket (.encoding 101) qos2Message).2

theorem pubrecAt_publishedOnce : publishedOnce.pubrecAt 1 = true :=
  (keeps_receivePacket (p := 1)).entry.trans (by decide +kernel)

theorem pubrecAt_publishedAgain : publishedAgain.pubrecAt 1 = true := by decide +kernel

theorem forwarded_once_of_publish :
    ∃ passed, Runs.Reach (Exchange.Step 1) (Exchange.Acknowledges 1) ⟨openSession, none⟩ ⟨publishedAgain, passed⟩ ∧
      passed = some 1 := by
  have hfirst : Exchange.Acknowledges 1 ⟨openSession, none⟩ (.encoding 100, .packet qos2Message) := by
    rintro pk hpk - - - -
    cases hpk
    decide +kernel
  have hagain : ∀ passed, Exchange.Acknowledges 1 ⟨publishedOnce, passed⟩ (.encoding 101, .packet qos2Message) := by
    rintro passed pk - - - hfree -
    rw [pubrecAt_publishedOnce] at hfree
    cases hfree
  have hreach : Runs.Reach (Exchange.Step 1) (Exchange.Acknowledges 1) ⟨openSession, none⟩ ⟨publishedAgain, _⟩ :=
    (Runs.Reach.refl.next hfirst ⟨fun _ => rfl, fun _ => .inl ⟨rfl, rfl⟩, rfl⟩).next (hagain _)
      ⟨fun _ => rfl, fun _ => .inl ⟨rfl, rfl⟩, rfl⟩
  exact ⟨_, hreach, (forwarded_once_of_acknowledges retainsPublish_openSession rfl hreach).1 pubrecAt_publishedAgain⟩

def brokenEnv : Env := { Env.accepting 100 with send := fun _ _ => some .network }

/-- The PUBREC of a message of QoS 2 cannot be written: the message is stored as received and not
passed on, and its retransmission is answered as in use. -/
theorem recorded_not_forwarded :
    (openSession.receivePacket brokenEnv qos2Message).2.pubrecAt 1 = true ∧
      (openSession.receivePacket brokenEnv qos2Message).2.forwards 1 = 0 ∧
      ((openSession.receivePacket brokenEnv qos2Message).2.receivePacket (.accepting 101)
        qos2Message).2.pubrecAt 1 = true ∧
      ((openSession.receivePacket brokenEnv qos2Message).2.receivePacket (.accepting 101)
        qos2Message).2.forwards 1 = 0 :=
  ⟨by decide, by decide, keeps_receivePacket.entry.trans (by decide),
    (keeps_receivePacket.forwards (by decide)).trans (by decide)⟩

end Session
end Mqtt
