import MqttBroker.Session.Aliases

/-! Runs of one connection and the topic aliases in them: messages delivered, queued,
parked, resumed and resent, and the acknowledgements that free quota for them. -/

namespace Mqtt
open FiniteMap
namespace Session

variable {env : Env} {s t : Session} {pk : Packet} {limit : UInt16} {owed : Bytes → Prop}

/-! ### Resending -/

theorem Carries.asResent {o : OutboundTopicAliases} (h : Carries o pk) : Carries o (asResent pk) := by
  unfold Session.asResent
  split
  · exact h
  · exact h

theorem AliasSound.resend (h : AliasSound limit owed s) : AliasSound limit owed (s.resendInflightMessages env).2 := by
  refine resend_invariant (fun {u tk} hu hget => ?_) (fun {u tk} hu _ _ _ => ?_) h
  · have hemitted : AliasSound limit owed (u.emit (.qosPublish (Session.asResent tk))) := hu.emit rfl
    exact hemitted.writePacket env (hu.entries hget).asResent
  · have hremoved := hu.onInflight (f := fun f => f.remove tk.packetID) (hu.entries.remove _)
    exact (hremoved.emit rfl).onServer _

/-! ### Acknowledgements -/

theorem carries_of_ne (o : OutboundTopicAliases) (h : pk.fixedHeader.type ≠ .publish) : Carries o pk :=
  fun htype => absurd htype h

theorem AliasSound.remove (h : AliasSound limit owed s) (id : UInt16) :
    AliasSound limit owed (s.onInflight fun f => f.remove id) := h.onInflight (h.entries.remove id)

theorem AliasSound.processPuback (h : AliasSound limit owed s) : AliasSound limit owed (s.processPuback pk).2 := by
  unfold Session.processPuback
  split
  · exact h
  · split
    · exact h.remove _
    · have hentries := (h.entries.remove pk.packetID).of_get (Inflight.get_increaseSendQuota _)
      have hremoved := h.onInflight (f := fun f => (f.remove pk.packetID).increaseSendQuota.2) hentries
      exact (hremoved.onServer _).emit rfl

theorem AliasSound.dropExchange (h : AliasSound limit owed s) (e : Packet) :
    AliasSound limit owed (s.dropExchange pk e) := ((h.remove _).onServer _).emit rfl

theorem AliasSound.processPubrec (h : AliasSound limit owed s) : AliasSound limit owed (s.processPubrec env pk).2 := by
  apply processPubrec_invariant
  · exact fun htype hu => hu.writePacket env (carries_of_ne _ htype)
  · exact fun _ => h.dropExchange _
  · intro e ack _ _ htype _
    have hentries := (h.entries.of_get (Inflight.sameSend_decreaseReceiveQuota _).get).put (carries_of_ne _ htype)
    exact h.onInflight (f := fun f => f.decreaseReceiveQuota.2.put ack) hentries
  · exact h

theorem AliasSound.processPubrel (h : AliasSound limit owed s) : AliasSound limit owed (s.processPubrel env pk).2 := by
  apply processPubrel_invariant
  · exact fun htype hu => hu.writePacket env (carries_of_ne _ htype)
  · exact fun _ => h.dropExchange _
  · intro e ack _ _ htype _
    exact h.onInflight (f := fun f => f.put ack) (h.entries.put (carries_of_ne _ htype))
  · intro e ack t ht _ _ _
    have hreceive := ht.entries.of_get (Inflight.sameSend_increaseReceiveQuota _).get
    have hsend := hreceive.of_get (Inflight.get_increaseSendQuota _)
    exact ((ht.onInflight (hsend.remove pk.packetID)).onServer _).emit rfl
  · exact h

theorem AliasSound.processPubcomp (h : AliasSound limit owed s) : AliasSound limit owed (s.processPubcomp pk).2 := by
  have hreceive := h.entries.of_get (Inflight.sameSend_increaseReceiveQuota _).get
  have hquota := h.onInflight (f := fun f => f.increaseReceiveQuota.2.increaseSendQuota.2)
    (hreceive.of_get (Inflight.get_increaseSendQuota _))
  unfold Session.processPubcomp
  dsimp only
  split
  · exact hquota
  · exact ((hquota.remove _).onServer _).emit rfl

theorem AliasSound.clearExpiredInflights (h : AliasSound limit owed s) (now maximumExpiry : Int) :
    AliasSound limit owed (s.clearExpiredInflights env now maximumExpiry).2 := by
  refine clearExpiredInflights_invariant (fun {u tk} hu _ _ _ _ => ?_) h
  have hremoved : (u.swept tk).client.inflight.All (Carries u.client.outbound) :=
    (hu.entries.remove tk.packetID).of_get fun id => (get_swept u tk id).trans (Inflight.get_remove _ _ _).symm
  have hcleared := hu.onInflight (f := fun f => if tk.fixedHeader.qos > 0 then
    (f.remove tk.packetID).increaseSendQuota.2 else f.remove tk.packetID) hremoved
  exact (hcleared.emit rfl).onServer _

/-! ### Runs -/

structure Fresh (s : Session) : Prop where
  version : s.client.protocolVersion = 5
  outbound : s.client.outbound = { maximum := s.client.props.topicAliasMaximum }
  queue : s.client.queue = []
  log : s.log = []

def Unaliased (s : Session) : Prop :=
  s.client.inflight.All fun e => e.fixedHeader.type = .publish → e.topicName ≠ [] ∧ e.carriedAlias = none

abbrev Message := { pk : Packet // pk.fixedHeader.type = .publish }

/-- What happens on a connection: deliveries, turns of the write loop, resumption of parked messages
and resending of inherited ones, acknowledgements and expiry. -/
inductive ConnectionCall where
  | publishToClient (sub : Subscription) (message : Message)
  | writeNext
  | resume
  | resend
  | puback (pk : Packet)
  | pubrec (pk : Packet)
  | pubrel (pk : Packet)
  | pubcomp (pk : Packet)
  | clearExpired (now maximumExpiry : Int)

def ConnectionCall.run (env : Env) (s : Session) : ConnectionCall → Session
  | .publishToClient sub message => (s.publishToClient env sub message).2
  | .writeNext => s.writeNext env
  | .resume => (s.resumeDeferredPublishes env).2
  | .resend => (s.resendInflightMessages env).2
  | .puback pk => (s.processPuback pk).2
  | .pubrec pk => (s.processPubrec env pk).2
  | .pubrel pk => (s.processPubrel env pk).2
  | .pubcomp pk => (s.processPubcomp pk).2
  | .clearExpired now maximumExpiry => (s.clearExpiredInflights env now maximumExpiry).2

def ConnectionCall.Teaches (env : Env) (s : Session) : ConnectionCall → Prop
  | .publishToClient sub message => message.1.topicName ≠ [] ∧ Announces env s sub message
  | .writeNext => TeachesNext env s
  | _ => True

def ConnectionCall.Step (s : Session) (call : Env × ConnectionCall) (t : Session) : Prop := t = call.2.run call.1 s

theorem AliasSound.run {call : ConnectionCall} (h : AliasSound limit (fun _ => False) s) (hcall : call.Teaches env s) :
    AliasSound limit (fun _ => False) (call.run env s) := by
  cases call with
  | publishToClient sub message => exact h.publishToClient hcall.1 message.2 hcall.2
  | writeNext => exact h.writeNext hcall
  | resume => exact h.resume
  | resend => exact h.resend
  | puback pk => exact h.processPuback
  | pubrec pk => exact h.processPubrec
  | pubrel pk => exact h.processPubrel
  | pubcomp pk => exact h.processPubcomp
  | clearExpired now maximumExpiry => exact h.clearExpiredInflights now maximumExpiry

theorem Fresh.aliasSound (h : Fresh s) (hinherited : Unaliased s) :
    AliasSound s.client.props.topicAliasMaximum (fun _ => False) s := by
  have hnone : ∀ {topic a}, s.client.outbound.names topic ≠ some a := by
    intro topic a ha
    rw [h.outbound] at ha
    cases ha
  have hlog : written s.log = [] := by
    rw [h.log]
    rfl
  refine ⟨rfl, by rw [h.outbound], ?_, ?_, ?_, ?_, ?_, ?_⟩
  · rw [h.outbound]
    exact OutboundTopicAliases.valid_empty _
  · intro id e he htype
    obtain ⟨hspelled, hplain⟩ := hinherited he htype
    refine ⟨hspelled, fun a ha => ?_⟩
    rw [show (frameOf e e.topicName).name = none from hplain] at ha
    cases ha
  · rw [hlog]
    trivial
  · rw [hlog]
    exact fun f hf => absurd hf List.not_mem_nil
  · rw [h.queue]
    exact fun q hq => absurd hq List.not_mem_nil
  · intro _
    unfold aliasTable
    rw [hlog, h.queue]
    exact ⟨fun a k hk => absurd hk nofun, fun f hf => absurd hf List.not_mem_nil,
      fun _ _ ha => absurd ha hnone, trivial⟩

/-- In every run of a connection in which no message that teaches an alias is lost or parked, the
client knows the alias of every message without a topic, and all aliases are within its limit. -/
theorem aliases_resolve_of_teaches (hs : Fresh s) (hinherited : Unaliased s)
    (hr : Runs.Reach ConnectionCall.Step (fun u call => call.2.Teaches call.1 u) s t) {past future : List Event}
    {topic : Bytes} (hlog : t.log = past ++ .wrote pk topic :: future) (hpk : pk.fixedHeader.type = .publish) :
    (pk.topicName = [] → ∃ a, pk.carriedAlias = some a ∧ aliasTable past a = some topic) ∧
      ∀ a, pk.carriedAlias = some a → 1 ≤ a ∧ a ≤ s.client.props.topicAliasMaximum := by
  have ht : AliasSound s.client.props.topicAliasMaximum (fun _ => False) t := by
    refine hr.invariant (hs.aliasSound hinherited) ?_
    intro u call v hu hcall hstep
    rw [hstep]
    exact hu.run hcall
  have hseen : seen (.wrote pk topic) = some (frameOf pk topic) := if_pos hpk
  have hwritten : written t.log = written past ++ frameOf pk topic :: written future := by
    unfold written
    rw [hlog, List.filterMap_append, List.filterMap_cons, hseen]
  constructor
  · intro hempty
    have hreads := ht.reads
    rw [hwritten, Aliasing.reads_append] at hreads
    rcases hreads.2.1 with hspelled | ⟨a, ha, hknown⟩
    · exact absurd hempty (frameOf_spelled.mp hspelled)
    · refine ⟨a, ha, hknown.trans ?_⟩
      exact congrArg some (if_pos hempty)
  · intro a ha
    refine ht.bounded (frameOf pk topic) ?_ a ha
    rw [hwritten]
    exact List.mem_append_right _ List.mem_cons_self

def twoAliases : Session where
  client :=
    { protocolVersion := 5, props := { topicAliasMaximum := 2 }, outbound := { maximum := 2 } }
  server := { caps := { maximumClientWritesPending := 2 } }

def plainMessage (topic : Bytes) : Message := ⟨{ fixedHeader := { type := .publish }, topicName := topic }, rfl⟩

def deliveredTwice : Session :=
  (((twoAliases.publishToClient (.accepting 100) {} (plainMessage [97])).2.publishToClient (.accepting 100) {}
    (plainMessage [97])).2.writeNext (.accepting 100)).writeNext (.accepting 100)

theorem teachesNext_accepting (now : Int) (s : Session) : TeachesNext (.accepting now) s :=
  fun _ _ _ _ _ _ => writeError_accepting _ _ _

theorem reach_deliveredTwice :
    Runs.Reach ConnectionCall.Step (fun u call => call.2.Teaches call.1 u) twoAliases deliveredTwice := by
  have hqueued : ∀ u : Session, HasRoom u → u.deliveredQos {} (plainMessage [97]) = 0 →
      Announces (.accepting 100) u {} (plainMessage [97]) := by
    intro u hroom hqos _ _ _ _
    refine ⟨hroom, fun hpos => ?_⟩
    rw [hqos] at hpos
    exact absurd hpos (by decide)
  have hfirst := hqueued twoAliases (by unfold HasRoom; decide) rfl
  have hsecond := hqueued (twoAliases.publishToClient (.accepting 100) {} (plainMessage [97])).2
    (by unfold HasRoom; decide) rfl
  exact Runs.Reach.replay ConnectionCall.run (.accepting 100)
    [.publishToClient {} (plainMessage [97]), .publishToClient {} (plainMessage [97]), .writeNext, .writeNext]
    ⟨⟨⟨by decide, hfirst⟩, rfl⟩, ⟨⟨by decide, hsecond⟩, rfl⟩, ⟨teachesNext_accepting _ _, rfl⟩,
      ⟨teachesNext_accepting _ _, rfl⟩, trivial⟩

theorem aliases_resolve_of_two_deliveries :
    ∃ first second topic, deliveredTwice.log = [first, .wrote second topic] ∧ second.topicName = [] ∧
      ∃ a, second.carriedAlias = some a ∧ aliasTable [first] a = some topic := by
  have hfresh : Fresh twoAliases := ⟨rfl, rfl, rfl, rfl⟩
  have hnone : Unaliased twoAliases := fun _ _ he => absurd he nofun
  obtain ⟨first, second, topic, hlog, htype, hempty⟩ : ∃ first second topic,
      deliveredTwice.log = [first, .wrote second topic] ∧ second.fixedHeader.type = .publish ∧
        second.topicName = [] := ⟨_, _, _, rfl, rfl, rfl⟩
  have hsplit : deliveredTwice.log = [first] ++ .wrote second topic :: [] := hlog
  exact ⟨first, second, topic, hlog, hempty,
    (aliases_resolve_of_teaches hfresh hnone reach_deliveredTwice hsplit htype).1 hempty⟩

def oneQueued : Session :=
  { twoAliases with server := { caps := { maximumClientWritesPending := 1 } } }

def droppedOnce : Session :=
  let env := Env.accepting 100
  let s := (oneQueued.publishToClient env {} (plainMessage [98])).2
  let s := ((s.publishToClient env {} (plainMessage [97])).2.writeNext env)
  (s.publishToClient env {} (plainMessage [97])).2.writeNext env

/-- The next message on that topic has an alias only, which the client has never seen. -/
theorem alias_unknown_after_drop :
    Fresh oneQueued ∧ Unaliased oneQueued ∧ ∃ first second topic,
      droppedOnce.log = [.publishDropped (plainMessage [97]), first, .wrote second topic] ∧
      second.fixedHeader.type = .publish ∧ second.topicName = [] ∧ second.carriedAlias = some 2 ∧
      aliasTable [.publishDropped (plainMessage [97]), first] 2 = none :=
  ⟨⟨rfl, rfl, rfl, rfl⟩, fun _ _ he => absurd he nofun, _, _, _, rfl, rfl, rfl, rfl, rfl⟩

end Session
end Mqtt
