import MqttBroker.Session.Once
import MqttBroker.Session.Subscribing

/-! The receive quota of a client and the entries that stand for unfinished QoS 2
exchanges. What is delivered to the client, its requests and the end of its
connection leave both alone. -/

namespace Mqtt
open FiniteMap

namespace Inflight
variable (f : Inflight)

def receive : Int × Int := (f.receiveQuota, f.maximumReceiveQuota)

@[simp] theorem receive_increaseSendQuota : f.increaseSendQuota.2.receive = f.receive := by
  unfold increaseSendQuota
  split <;> rfl

@[simp] theorem receive_recoverStarvedSendQuota : f.recoverStarvedSendQuota.2.receive = f.receive := by
  unfold recoverStarvedSendQuota
  split
  · rfl
  · split
    · rfl
    · split <;> rfl

@[simp] theorem receive_resetSendQuotaIfEmpty : f.resetSendQuotaIfEmpty.2.receive = f.receive := by
  unfold resetSendQuotaIfEmpty
  split
  · rfl
  · split
    · rfl
    · split <;> rfl

end Inflight

namespace Session
open Inflight
variable {env : Env} {s t u : Session} {pk out : Packet} {sub : Subscription}

def receive (s : Session) : Int × Int := s.client.inflight.receive

/-! ### Deliveries -/

theorem receive_resume : (s.resumeDeferredPublishes env).2.receive = s.receive := by
  apply resume_invariant (P := fun v => v.receive = s.receive)
  · exact fun hv _ _ _ _ _ _ => hv
  · intro v pk hv _ _ _
    have hparked : ((v.takeDeferred pk).deferAgain { pk with expiry := 0 }).receive = s.receive :=
      (receive_increaseSendQuota _).trans hv
    exact ⟨hparked, fun _ _ => hparked⟩
  · exact fun hv => (receive_resetSendQuotaIfEmpty _).trans hv
  · exact receive_recoverStarvedSendQuota _

theorem receive_dropStored (id : UInt16) : (s.dropStored id).receive = s.receive := by
  unfold dropStored
  split
  · exact receive_increaseSendQuota _
  · rfl

theorem receive_enqueue : (s.enqueue pk out).2.receive = s.receive :=
  enqueue_invariant (P := fun t => t.receive = s.receive) rfl rfl rfl fun _ _ _ hu => (receive_dropStored _).trans hu

theorem receive_sendQos {r : Packet} (hget : s.client.inflight.get out.packetID = some r)
    (hr : r.expiry = inflightExpiryReserved) : (s.sendQos env pk out).2.receive = s.receive := by
  obtain ⟨-, heq⟩ | ⟨-, quota, maximum, -, heq⟩ := sendQos_cases env pk hget hr
  · rw [heq]
    exact receive_resume.trans rfl
  · rw [heq]
    exact receive_enqueue.trans rfl

theorem receive_publishToClient : (s.publishToClient env sub pk).2.receive = s.receive := by
  have hcases := publishToClient_cases env s sub pk
  generalize s.publishToClient env sub pk = result at hcases ⊢
  cases hcases with
  | own | unauthorized | exhausted => rfl
  | sent _ _ _ _ _ _ hreserved => exact (receive_sendQos hreserved rfl).trans rfl
  | queued => exact receive_enqueue.trans rfl

/-! ### What leaves the exchanges alone -/

structure Steady (s t : Session) : Prop where
  receive : t.receive = s.receive
  received : KeepsType .pubrec s.client.inflight t.client.inflight
  released : KeepsType .pubrel s.client.inflight t.client.inflight
  inline : t.client.inline = s.client.inline
  stored : s.RetainsPublish → t.RetainsPublish

theorem Steady.refl (s : Session) : Steady s s := ⟨rfl, .refl _, .refl _, rfl, id⟩

theorem Steady.trans (h : Steady s t) (h' : Steady t u) : Steady s u :=
  ⟨h'.receive.trans h.receive, h.received.trans h'.received, h.released.trans h'.released,
    h'.inline.trans h.inline, h'.stored ∘ h.stored⟩

theorem steady_of_eq (hinflight : t.client.inflight = s.client.inflight) (hinline : t.client.inline = s.client.inline)
    (hretained : t.server.topics.retained = s.server.topics.retained) : Steady s t := by
  refine ⟨?_, ?_, ?_, hinline, fun hr => ?_⟩
  · unfold Session.receive
    rw [hinflight]
  · rw [hinflight]
    exact .refl _
  · rw [hinflight]
    exact .refl _
  · unfold RetainsPublish
    rw [hretained]
    exact hr

theorem Quiet.steady (h : Quiet s t) : Steady s t :=
  steady_of_eq h.inflight h.toFrame.inline (by rw [h.server])

theorem Indexes.steady (h : Indexes s t) : Steady s t := by
  obtain ⟨topics, _, _, hret, rfl⟩ := h
  exact steady_of_eq rfl rfl hret

theorem steady_emit (e : Event) : Steady s (s.emit e) := steady_of_eq rfl rfl rfl

theorem Delivers.steady (h : Delivers s t) (hreceive : t.receive = s.receive)
    (hkeeps : ∀ type : PacketType, type ≠ .publish → type ≠ .reserved →
      KeepsType type s.client.inflight t.client.inflight) : Steady s t := by
  refine ⟨hreceive, hkeeps _ (by decide) (by decide), hkeeps _ (by decide) (by decide), ?_, ?_⟩
  · obtain ⟨_, _, _, _, _, es, -, -, rfl⟩ := h
    rfl
  · obtain ⟨_, _, _, _, _, es, -, -, rfl⟩ := h
    exact id

theorem steady_writePacketOn (topic : Bytes) : Steady s (s.writePacketOn env topic pk).2 := by
  obtain ⟨-, -, h⟩ | ⟨-, -, h⟩ | ⟨-, out, err, h⟩ := writePacketOn_cases env s topic pk
  · rw [h]
    exact steady_emit _
  · rw [h]
    exact .refl s
  · rw [h]
    exact steady_emit _

theorem steady_writeNext : Steady s (s.writeNext env) := by
  unfold writeNext
  split
  · exact .refl s
  · rename_i q rest _
    have hpop : Steady s { s with client := { s.client with queue := rest } } := steady_of_eq rfl rfl rfl
    exact hpop.trans (steady_writePacketOn _)

theorem steady_resume : Steady s (s.resumeDeferredPublishes env).2 :=
  delivers_resume.steady receive_resume fun _ _ _ => keepsType_resume

theorem steady_publishToClient (hpk : pk.fixedHeader.type = .publish) : Steady s (s.publishToClient env sub pk).2 := by
  refine delivers_publishToClient.steady receive_publishToClient fun type htype hres => ?_
  refine keepsType_publishToClient ?_ hres.symm
  rw [hpk]
  exact htype.symm

theorem steady_publishRetainedToClient (hr : s.RetainsPublish) (existed : Bool) :
    Steady s (s.publishRetainedToClient env sub existed) := by
  refine publishRetainedToClient_invariant (P := Steady s) (fun h hmem => ?_) (fun _ h => h.trans (steady_emit _))
    (.refl s) existed
  obtain ⟨topic, htopic⟩ := TopicsIndex.exists_retained_of_mem_messages _ _ hmem
  exact h.trans (steady_publishToClient (hr topic _ htopic))

theorem steady_publishToSubscribers (hpk : pk.fixedHeader.type = .publish) :
    Steady s (s.publishToSubscribers env pk) := by
  refine publishToSubscribers_invariant (steady_emit _) fun hq => (steady_emit _).trans (steady_publishToClient ?_)
  rw [hq]
  exact hpk

theorem steady_retainMessage (hpk : pk.fixedHeader.type = .publish) : Steady s (s.retainMessage pk) := by
  unfold retainMessage
  split
  · exact .refl s
  · refine ⟨rfl, .refl _, .refl _, rfl, fun hr topic pk' hpk' => ?_⟩
    rcases TopicsIndex.of_lookup_retainMessage hpk' with rfl | hold
    · exact hpk
    · exact hr topic pk' hold

theorem steady_retained (hpk : pk.fixedHeader.type = .publish) : Steady s (s.retained pk) := by
  unfold retained
  split
  · exact steady_retainMessage hpk
  · exact .refl s

/-! ### Requests and the end of a connection -/

theorem steady_sendLWT : Steady s (s.sendLWT env) := by
  unfold sendLWT
  split
  · exact .refl s
  · dsimp only
    split
    · exact steady_of_eq rfl rfl rfl
    · have htype : (s.willMessage env).fixedHeader.type = .publish := rfl
      have hretain : Steady s (s.retained (s.willMessage env)) := steady_retained htype
      have hsent : Steady (s.retained (s.willMessage env))
          ((s.retained (s.willMessage env)).publishToSubscribers env (s.willMessage env)) :=
        steady_publishToSubscribers htype
      exact (hretain.trans hsent).trans (steady_of_eq rfl rfl rfl)

theorem steady_processSubscribe (hr : s.RetainsPublish) : Steady s (s.processSubscribe env pk).2 := by
  apply processSubscribe_steps
  · exact fun h => h.steady
  · exact fun _ _ h => h.trans (steady_emit _)
  · exact fun _ h => h.trans (steady_writePacketOn _)
  · exact fun _ _ h => h.trans (steady_publishRetainedToClient (h.stored hr) _)

theorem steady_processUnsubscribe : Steady s (s.processUnsubscribe env pk).2 := by
  unfold processUnsubscribe
  dsimp only
  have hindexed : Steady s (unsubscribeFilters (s.requestCode pk) s (env.onUnsubscribe pk).filters).2 :=
    (indexes_unsubscribeFilters _ _ s).steady
  exact (hindexed.trans (steady_emit _)).trans (steady_writePacketOn _)

theorem steady_processDisconnect : Steady s (s.processDisconnect env pk).2 := by
  refine processDisconnect_invariant (P := Steady s) (.refl s) (fun _ => steady_of_eq rfl rfl rfl) fun {t} h => ?_
  have herase : Steady t
      { t with server := { t.server with willDelayed := t.server.willDelayed.erase t.client.id } } :=
    steady_of_eq rfl rfl rfl
  exact (h.trans herase).trans (quiet_stop env _ _).steady

theorem steady_receivePacket : Steady (s.handle env pk).2 (s.receivePacket env pk).2 :=
  receivePacket_invariant (P := Steady (s.handle env pk).2) (.refl _) (fun h => h.trans steady_resume)
    fun code h => h.trans (quiet_disconnectClient env _ code).steady

end Session
end Mqtt
