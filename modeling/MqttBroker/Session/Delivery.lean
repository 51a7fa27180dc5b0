import MqttBroker.Session.Requests

/-! What delivering messages to a client can change: its outbound aliases, its
inflight messages, its queue and the counters of the server. No message is
passed on or retained by it. -/

namespace Mqtt
namespace Session
open Inflight

def passesOn : Event → Bool
  | .forward _ => true
  | .retain _ => true
  | _ => false

def ofDelivery : Event → Bool
  | .forward _ => false
  | .retain _ => false
  | .published _ => false
  | .willSent _ => false
  | .subscribed _ _ => false
  | .unsubscribed _ => false
  | _ => true

theorem passesOn_of_ofDelivery {e : Event} (h : ofDelivery e = true) : passesOn e = false := by
  cases e <;> first | rfl | cases h

def Delivers (s t : Session) : Prop :=
  ∃ outbound inflight queue packetID info es, info.subscriptions = s.server.info.subscriptions ∧
    (∀ e ∈ es, ofDelivery e = true) ∧
    t = { client := { s.client with outbound := outbound, inflight := inflight, queue := queue, packetID := packetID }
          server := { s.server with info := info }
          log := s.log ++ es }

variable {env : Env} {s t u : Session} {pk out : Packet} {sub : Subscription}

theorem delivers_of_log (outbound : OutboundTopicAliases) (inflight : Inflight) (queue : List Queued) (packetID : Nat)
    {info : Info} (hinfo : info.subscriptions = s.server.info.subscriptions) : Delivers s
      { s with
        client := { s.client with outbound := outbound, inflight := inflight, queue := queue, packetID := packetID }
        server := { s.server with info := info } } :=
  ⟨outbound, inflight, queue, packetID, info, [], hinfo, fun _ h => absurd h List.not_mem_nil, by rw [List.append_nil]⟩

theorem Delivers.refl (s : Session) : Delivers s s :=
  delivers_of_log s.client.outbound s.client.inflight s.client.queue s.client.packetID rfl

theorem Delivers.trans (h : Delivers s t) (h' : Delivers t u) : Delivers s u := by
  obtain ⟨_, _, _, _, _, es, hinfo, hes, rfl⟩ := h
  obtain ⟨outbound, inflight, queue, packetID, info, es', hinfo', hes', rfl⟩ := h'
  refine ⟨outbound, inflight, queue, packetID, info, es ++ es', hinfo'.trans hinfo, ?_, by rw [List.append_assoc]⟩
  intro e he
  exact (List.mem_append.mp he).elim (hes e) (hes' e)

theorem delivers_emit {e : Event} (he : ofDelivery e = true) : Delivers s (s.emit e) :=
  ⟨_, _, _, _, s.server.info, [e], rfl, fun e' h => by rw [List.mem_singleton.mp h, he], rfl⟩

theorem delivers_onInflight (f : Inflight → Inflight) : Delivers s (s.onInflight f) := delivers_of_log _ _ _ _ rfl

theorem delivers_countInflight (n : Int) : Delivers s (s.countInflight n) := delivers_of_log _ _ _ _ rfl

theorem delivers_dropInflight : Delivers s s.dropInflight := delivers_of_log _ _ _ _ rfl

theorem delivers_writePacketOn (topic : Bytes) : Delivers s (s.writePacketOn env topic pk).2 := by
  obtain ⟨-, -, h⟩ | ⟨-, -, h⟩ | ⟨-, out, err, h⟩ := writePacketOn_cases env s topic pk
  · rw [h]
    exact delivers_emit rfl
  · rw [h]
    exact .refl s
  · rw [h]
    exact delivers_emit rfl

theorem delivers_writePacket : Delivers s (s.writePacket env pk).2 := delivers_writePacketOn pk.topicName

theorem delivers_writeNext : Delivers s (s.writeNext env) := by
  unfold writeNext
  split
  · exact .refl s
  · have hpop : ∀ rest, Delivers s { s with client := { s.client with queue := rest } } :=
      fun rest => delivers_of_log _ _ rest _ rfl
    exact (hpop _).trans (delivers_writePacketOn _)

theorem delivers_resume : Delivers s (s.resumeDeferredPublishes env).2 := by
  apply resume_invariant
  · intro v pk hv _ _ _ _ _ _
    exact (hv.trans (delivers_onInflight _)).trans (delivers_emit rfl)
  · intro v pk hv _ _ _
    have htaken : Delivers s (v.takeDeferred pk) := hv.trans (delivers_onInflight _)
    exact ⟨htaken.trans (delivers_onInflight _),
      fun out err => (htaken.trans (delivers_emit rfl)).trans (delivers_onInflight _)⟩
  · exact fun hv => hv.trans (delivers_onInflight _)
  · exact delivers_onInflight _

theorem delivers_dropStored (id : UInt16) : Delivers s (s.dropStored id) := by
  unfold dropStored
  split
  · exact (delivers_onInflight _).trans (delivers_countInflight _)
  · exact .refl s

theorem delivers_enqueue : Delivers s (s.enqueue pk out).2 := by
  have hcount : Delivers s { s with
      server := { s.server with
        info := { s.server.info with messagesDropped := s.server.info.messagesDropped + 1 } } } :=
    delivers_of_log _ _ _ _ rfl
  refine enqueue_invariant (delivers_of_log _ _ _ _ rfl) (.refl s) (hcount.trans (delivers_emit rfl)) ?_
  exact fun _ _ _ hu => hu.trans (delivers_dropStored _)

theorem delivers_sendQos {r : Packet} (hget : s.client.inflight.get out.packetID = some r)
    (hr : r.expiry = inflightExpiryReserved) : Delivers s (s.sendQos env pk out).2 := by
  have hstored : ∀ (f : Inflight → Inflight) (m : Packet),
      Delivers s (((s.onInflight f).countInflight 1).emit (.qosPublish m)) :=
    fun f m => ((delivers_onInflight f).trans (delivers_countInflight 1)).trans (delivers_emit rfl)
  obtain ⟨-, heq⟩ | ⟨-, quota, maximum, -, heq⟩ := sendQos_cases env pk hget hr
  · rw [heq]
    exact (hstored _ _).trans delivers_resume
  · rw [heq]
    exact (hstored _ _).trans delivers_enqueue

theorem delivers_publishToClient : Delivers s (s.publishToClient env sub pk).2 := by
  have haliased : ∀ outbound, Delivers s (s.withOutbound outbound) := fun outbound => delivers_of_log outbound _ _ _ rfl
  have hcases := publishToClient_cases env s sub pk
  generalize s.publishToClient env sub pk = result at hcases ⊢
  cases hcases with
  | own | unauthorized => exact .refl s
  | exhausted => exact ((haliased _).trans (delivers_emit rfl)).trans delivers_dropInflight
  | @sent outbound j _ _ _ _ _ _ _ hreserved =>
    have hput : Delivers s (s.reserve env outbound j) := delivers_of_log outbound _ _ j rfl
    exact hput.trans (delivers_sendQos hreserved rfl)
  | queued => exact (haliased _).trans delivers_enqueue

theorem delivers_publishToSubscribers : Delivers (s.emit (.forward pk)) (s.publishToSubscribers env pk) :=
  publishToSubscribers_invariant (.refl _) fun _ => delivers_publishToClient

theorem delivers_publishRetainedToClient (existed : Bool) : Delivers s (s.publishRetainedToClient env sub existed) :=
  publishRetainedToClient_invariant (P := Delivers s) (fun h _ => h.trans delivers_publishToClient)
    (fun _ h => h.trans (delivers_emit rfl)) (.refl s) existed

theorem delivers_completeResent (tk : Packet) : Delivers s (s.completeResent tk) := by
  unfold completeResent
  split
  · split
    · exact ((delivers_onInflight _).trans (delivers_emit rfl)).trans (delivers_countInflight _)
    · exact .refl s
  · exact .refl s

theorem delivers_resendInflightMessages : Delivers s (s.resendInflightMessages env).2 := by
  apply resend_invariant
  · exact fun h _ => (h.trans (delivers_emit rfl)).trans delivers_writePacket
  · exact fun h _ _ _ => ((h.trans (delivers_onInflight _)).trans (delivers_emit rfl)).trans (delivers_countInflight _)
  · exact .refl s

theorem delivers_clearExpiredInflights (now maximumExpiry : Int) :
    Delivers s (s.clearExpiredInflights env now maximumExpiry).2 := by
  refine clearExpiredInflights_invariant (fun h _ _ _ _ => ?_) (.refl s)
  exact ((h.trans (delivers_onInflight _)).trans (delivers_emit rfl)).trans (delivers_countInflight _)

/-! ### Entries of other types -/

variable {type : PacketType}

theorem keepsType_resume : KeepsType type s.client.inflight (s.resumeDeferredPublishes env).2.client.inflight := by
  -- the mark of a stored message is cleared or set again, its type stays
  have hput : ∀ {f : Inflight} (pk : Packet) (expiry : Int), f.get pk.packetID = some pk →
      KeepsType type f (f.put { pk with expiry := expiry }) := by
    intro f pk expiry hget
    refine keepsType_put ?_
    unfold hasType
    rw [hget]
    rfl
  apply resume_invariant (P := fun v => KeepsType type s.client.inflight v.client.inflight)
  · exact fun hv _ hget _ _ _ _ => hv.trans (hput _ 0 hget)
  · intro v pk hv _ hget _
    have hstored : (v.takeDeferred pk).client.inflight.get pk.packetID = some { pk with expiry := 0 } := by
      show (v.client.inflight.put { pk with expiry := 0 }).get pk.packetID = _
      rw [get_put]
      exact if_pos rfl
    have hmarked := hput { pk with expiry := 0 } inflightExpiryDeferred hstored
    have hparked := ((hv.trans (hput _ 0 hget)).trans hmarked).trans keepsType_increaseSendQuota
    exact ⟨hparked, fun out err => hparked⟩
  · exact fun hv => hv.trans keepsType_resetSendQuotaIfEmpty
  · exact keepsType_recoverStarvedSendQuota

theorem keepsType_dropStored {id : UInt16} (hid : s.client.inflight.hasType id type = false) :
    KeepsType type s.client.inflight (s.dropStored id).client.inflight := by
  unfold dropStored
  split
  · exact (keepsType_remove hid).trans keepsType_increaseSendQuota
  · exact .refl _

theorem keepsType_enqueue (hid : 0 < out.fixedHeader.qos → s.client.inflight.hasType out.packetID type = false) :
    KeepsType type s.client.inflight (s.enqueue pk out).2.client.inflight := by
  refine enqueue_invariant (P := fun t => KeepsType type s.client.inflight t.client.inflight) (.refl _) (.refl _)
    (.refl _) fun hqos u hclient hu => hu.trans (keepsType_dropStored ?_)
  rw [hclient]
  exact hid hqos

theorem keepsType_sendQos {r : Packet} (hget : s.client.inflight.get out.packetID = some r)
    (hr : r.expiry = inflightExpiryReserved) (hid : s.client.inflight.hasType out.packetID type = false)
    (hout : out.fixedHeader.type ≠ type) :
    KeepsType type s.client.inflight (s.sendQos env pk out).2.client.inflight := by
  have hput : KeepsType type s.client.inflight (s.client.inflight.put out) :=
    keepsType_put ((beq_false_of_ne hout).trans hid.symm)
  obtain ⟨-, heq⟩ | ⟨-, quota, maximum, -, heq⟩ := sendQos_cases env pk hget hr
  · rw [heq]
    have hpark : KeepsType type s.client.inflight (s.park out).client.inflight :=
      keepsType_put (m := { out with expiry := inflightExpiryDeferred }) ((beq_false_of_ne hout).trans hid.symm)
    exact hpark.trans keepsType_resume
  · rw [heq]
    have hstored : KeepsType type s.client.inflight (s.storeQos out quota maximum).client.inflight := hput
    exact hstored.trans (keepsType_enqueue fun _ => (hstored _).trans hid)

theorem keepsType_publishToClient (htype : pk.fixedHeader.type ≠ type) (hres : PacketType.reserved ≠ type) :
    KeepsType type s.client.inflight (s.publishToClient env sub pk).2.client.inflight := by
  have hcases := publishToClient_cases env s sub pk
  generalize s.publishToClient env sub pk = result at hcases ⊢
  cases hcases with
  | own | unauthorized | exhausted => exact .refl _
  | @sent outbound j out _ _ _ hfree _ hid hreserved hheader _ =>
    have hput : KeepsType type s.client.inflight (s.reserve env outbound j).client.inflight := by
      refine keepsType_put ((beq_false_of_ne hres).trans ?_)
      unfold hasType
      rw [show (reservation env.now (UInt16.ofNat j)).packetID = UInt16.ofNat j from rfl, hfree]
      rfl
    refine hput.trans (keepsType_sendQos hreserved rfl ?_ ?_)
    · unfold hasType
      rw [hreserved]
      exact beq_false_of_ne hres
    · rw [hheader, prepare_type]
      exact htype
  | queued _ hqos => exact keepsType_enqueue (s := s.withOutbound _) fun hpos => absurd hpos hqos

theorem keepsType_resendInflightMessages (hack : type ≠ .puback) (hcomp : type ≠ .pubcomp) :
    KeepsType type s.client.inflight (s.resendInflightMessages env).2.client.inflight := by
  apply resend_invariant (P := fun t => KeepsType type s.client.inflight t.client.inflight)
  · intro t tk h _
    rw [writePacket_client]
    exact h
  · intro t tk h hget _ hdone
    have hnot : t.client.inflight.hasType tk.packetID type = false := by
      unfold hasType
      rw [hget]
      show (tk.fixedHeader.type == type) = false
      refine beq_false_of_ne fun htype => ?_
      rw [htype] at hdone
      exact hdone.elim hack hcomp
    exact h.trans (keepsType_remove hnot)
  · exact .refl _

end Session
end Mqtt
