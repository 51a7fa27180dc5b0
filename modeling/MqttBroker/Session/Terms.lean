import MqttBroker.Session.Collisions
import MqttBroker.Session.Connect

/-! The terms of a session: the properties, the version and the clean flag of the
CONNECT, the capabilities of the server, and whether the session was taken over. Of
all packets that a client sends only a DISCONNECT changes them, and only the session
expiry interval. -/

namespace Mqtt
namespace Session

variable {env : Env} {s t : Session} {pk : Packet}

structure Terms where
  props : Properties
  protocolVersion : UInt8
  clean : Bool
  isTakenOver : Bool
  caps : Capabilities

def terms (s : Session) : Terms where
  props := s.client.props
  protocolVersion := s.client.protocolVersion
  clean := s.client.clean
  isTakenOver := s.client.isTakenOver
  caps := s.server.caps

theorem terms_of_eq (hclient : t.client = s.client) (hcaps : t.server.caps = s.server.caps) : t.terms = s.terms := by
  unfold terms
  rw [hclient, hcaps]

theorem Delivers.terms (h : Delivers s t) : t.terms = s.terms := by
  obtain ⟨_, _, _, _, _, _, -, -, rfl⟩ := h
  rfl

theorem Frame.terms (h : Frame s t) : t.terms = s.terms := by
  obtain ⟨_, _, _, _, _, _, -, rfl⟩ := h
  rfl

theorem Indexes.terms (h : Indexes s t) : t.terms = s.terms := by
  obtain ⟨_, _, _, -, rfl⟩ := h
  rfl

theorem terms_writePacket : (s.writePacket env pk).2.terms = s.terms := delivers_writePacket.terms

theorem terms_stop (err : Option Error) : (s.stop env err).terms = s.terms := (quiet_stop env s err).toFrame.terms

theorem terms_disconnectClient (code : Code) : (s.disconnectClient env code).2.terms = s.terms :=
  (quiet_disconnectClient env s code).toFrame.terms

/-! ### PUBLISH and wills -/

theorem terms_retainMessage : (s.retainMessage pk).terms = s.terms := by
  unfold retainMessage
  split <;> rfl

theorem terms_retained (q : Packet) : (s.retained q).terms = s.terms :=
  terms_of_eq (retained_cases s q).1 (retained_cases s q).2.1

theorem terms_publishToSubscribers : (s.publishToSubscribers env pk).terms = s.terms :=
  (@delivers_publishToSubscribers env s pk).terms

theorem terms_acceptPublish (q : Packet) : (s.acceptPublish env q).session.terms = s.terms :=
  acceptPublish_invariant (P := fun t => t.terms = s.terms) (fun hframe hv => hframe.terms.trans hv) (terms_retained q)

theorem terms_receivePublish : (s.receivePublish env pk).session.terms = s.terms := by
  have haliased : (s.aliased env pk).terms = s.terms := by
    rw [aliased_eq]
    rfl
  exact receivePublish_invariant (P := fun t => t.terms = s.terms) (fun hquiet hv => hquiet.toFrame.terms.trans hv) rfl
    haliased fun q _ => (terms_acceptPublish q).trans haliased

theorem terms_processPublish : (s.processPublish env pk).2.terms = s.terms :=
  processPublish_invariant (P := fun t => t.terms = s.terms) terms_receivePublish
    fun _ h => terms_publishToSubscribers.trans h

theorem terms_sendLWT : (s.sendLWT env).terms = s.terms := by
  unfold sendLWT
  dsimp only
  split
  · rfl
  · split
    · rfl
    · refine (terms_publishToSubscribers (s := if (s.willMessage env).fixedHeader.retain then
        s.retainMessage (s.willMessage env) else s)).trans ?_
      split
      · exact terms_retainMessage
      · rfl

theorem terms_endRead (err : Option Error) : (s.endRead env err).terms = s.terms := by
  unfold endRead
  split
  · exact (terms_stop _).trans terms_sendLWT
  · rfl

/-! ### Packets -/

theorem terms_processSubscribe : (s.processSubscribe env pk).2.terms = s.terms := by
  have hsubs := (@indexes_subscribeFilters env (s.requestCode (env.onSubscribe pk))
    (env.onSubscribe pk).filters s).terms
  exact (delivers_answerSubscribe.terms.trans terms_writePacket).trans hsubs

theorem terms_processUnsubscribe : (s.processUnsubscribe env pk).2.terms = s.terms := by
  have hsubs := (indexes_unsubscribeFilters (s.requestCode pk) (env.onUnsubscribe pk).filters s).terms
  exact terms_writePacket.trans hsubs

theorem terms_validated {code : Code} {r : Option Error × Session} (h : r.2.terms = s.terms) :
    (validated code s r).2.terms = s.terms := by
  unfold validated
  split
  · rfl
  · exact h

theorem terms_handle (hdisconnect : pk.fixedHeader.type ≠ .disconnect) : (s.handle env pk).2.terms = s.terms := by
  unfold handle
  split
  · exact terms_sendLWT
  · rename_i htype
    exact absurd htype hdisconnect
  · exact terms_writePacket
  · exact terms_validated terms_processPublish
  · exact frame_processPuback.terms
  · exact frame_processPubrec.terms
  · exact frame_processPubrel.terms
  · exact frame_processPubcomp.terms
  · exact terms_validated terms_processSubscribe
  · exact terms_validated terms_processUnsubscribe
  · exact terms_validated rfl
  · rfl

def acceptsDisconnect (env : Env) (s : Session) (pk : Packet) : Bool :=
  (s.processDisconnect env pk).1 != some (.code .protocolViolationZeroNonZeroExpiry)

def asks (env : Env) (s : Session) (pk : Packet) : Option UInt32 :=
  if pk.fixedHeader.type = .disconnect ∧ s.acceptsDisconnect env pk ∧ pk.properties.sessionExpiryIntervalFlag then
    some pk.properties.sessionExpiryInterval
  else none

def Terms.expiring (terms : Terms) : Option UInt32 → Terms
  | none => terms
  | some d => { terms with
      props := { terms.props with sessionExpiryInterval := d, sessionExpiryIntervalFlag := true } }

def settingExpiry (s : Session) (pk : Packet) : Session :=
  if pk.properties.sessionExpiryIntervalFlag then
    { s with client := { s.client with props := { s.client.props with
      sessionExpiryInterval := pk.properties.sessionExpiryInterval, sessionExpiryIntervalFlag := true } } }
  else s

theorem processDisconnect_outcomes (env : Env) (s : Session) (pk : Packet) :
    s.processDisconnect env pk = (some (.code .protocolViolationZeroNonZeroExpiry), s) ∨
      (s.processDisconnect env pk).1 ≠ some (.code .protocolViolationZeroNonZeroExpiry) ∧
        (s.processDisconnect env pk).2.terms = (s.settingExpiry pk).terms := by
  unfold processDisconnect
  dsimp only
  split
  · exact .inl rfl
  · refine .inr ?_
    split
    · have hne : some (Error.code .disconnectWillMessage) ≠
          some (.code .protocolViolationZeroNonZeroExpiry) := by decide
      exact ⟨hne, rfl⟩
    · exact ⟨nofun, terms_stop _⟩

theorem terms_settingExpiry (s : Session) (pk : Packet) :
    (s.settingExpiry pk).terms = s.terms.expiring
      (if pk.properties.sessionExpiryIntervalFlag then some pk.properties.sessionExpiryInterval else none) := by
  unfold settingExpiry
  split <;> rfl

theorem terms_processDisconnect (htype : pk.fixedHeader.type = .disconnect) :
    (s.processDisconnect env pk).2.terms = s.terms.expiring (s.asks env pk) := by
  unfold asks acceptsDisconnect
  obtain hrefused | ⟨haccepted, hset⟩ := processDisconnect_outcomes env s pk
  · rw [hrefused, if_neg fun h => absurd h.2.1 (by simp)]
    rfl
  · have hask : (if pk.fixedHeader.type = .disconnect ∧
        ((s.processDisconnect env pk).1 != some (.code .protocolViolationZeroNonZeroExpiry)) = true ∧
        pk.properties.sessionExpiryIntervalFlag = true then some pk.properties.sessionExpiryInterval else none) =
        if pk.properties.sessionExpiryIntervalFlag then some pk.properties.sessionExpiryInterval else none :=
      if_congr ⟨fun h => h.2.2, fun h => ⟨htype, bne_iff_ne.mpr haccepted, h⟩⟩ rfl rfl
    rw [hset, terms_settingExpiry, hask]

theorem terms_receivePacket : (s.receivePacket env pk).2.terms = s.terms.expiring (s.asks env pk) := by
  have hhandle : (s.handle env pk).2.terms = s.terms.expiring (s.asks env pk) := by
    by_cases htype : pk.fixedHeader.type = .disconnect
    · have hdisconnect : s.handle env pk = s.processDisconnect env pk := by
        unfold handle
        rw [htype]
      rw [hdisconnect]
      exact terms_processDisconnect htype
    · have hnone : s.asks env pk = none := if_neg fun h => htype h.1
      rw [hnone]
      exact terms_handle htype
  exact receivePacket_invariant (P := fun t => t.terms = s.terms.expiring (s.asks env pk)) hhandle
    (fun h => delivers_resume.terms.trans h) fun code h => (terms_disconnectClient code).trans h

/-! ### The CONNACK and the end of a session -/

theorem terms_sendConnack (present : Bool) :
    (s.sendConnack env .success present).2.terms = s.capSessionExpiry.terms := terms_writePacket

theorem terms_clearInflights : (s.clearInflights env).terms = s.terms := by
  refine clearInflights_invariant (P := fun t => t.terms = s.terms) (fun h _ => ?_) rfl
  split <;> exact h

theorem terms_unsubscribeClient : s.unsubscribeClient.terms = s.terms := by
  unfold unsubscribeClient
  dsimp only
  split
  · rfl
  · exact List.foldlRecOn (motive := fun t : Session => t.terms = s.terms) _ _ rfl fun t ht _ _ => ht

end Session
end Mqtt
