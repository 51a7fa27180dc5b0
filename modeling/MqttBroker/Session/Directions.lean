import MqttBroker.Session.Cases

/-! The two directions of the QoS protocol in one map. A packet of the one
direction disturbs an entry of the other when their ids coincide, except where
`processPublish` takes the id as in use. -/

namespace Mqtt

def Packet.isOutbound (e : Packet) : Bool :=
  e.fixedHeader.type == .publish || e.fixedHeader.type == .pubrel ||
    e.expiry == inflightExpiryDeferred || e.expiry == inflightExpiryReserved

def Packet.isInbound (e : Packet) : Bool := e.fixedHeader.type == .pubrec || e.fixedHeader.type == .pubcomp

namespace Session
open Inflight

/-- The session after the handler of a packet of the QoS protocol, up to the delivery of a PUBLISH to
its subscribers, and what the entries of the other direction are. -/
def handled (env : Env) (s : Session) (pk : Packet) : Session × (Packet → Bool) :=
  match pk.fixedHeader.type with
  | .publish => ((s.receivePublish env pk).session, Packet.isOutbound)
  | .pubrel => ((s.processPubrel env pk).2, Packet.isOutbound)
  | .puback => ((s.processPuback pk).2, Packet.isInbound)
  | .pubrec => ((s.processPubrec env pk).2, Packet.isInbound)
  | .pubcomp => ((s.processPubcomp pk).2, Packet.isInbound)
  | _ => (s, fun _ => false)

def Undisturbed (env : Env) (s : Session) (pk : Packet) : Prop :=
  ∀ id e, s.client.inflight.get id = some e → (s.handled env pk).2 e = true →
    (s.handled env pk).1.client.inflight.get id = some e

/-- A PUBREL leaves an entry in place only if that is the PUBCOMP with which it answers, and the
PUBCOMP cannot be written. -/
def Stands (env : Env) (s : Session) (pk e : Packet) : Prop :=
  pk.endsFlow = false ∧ e = s.completion env pk e ∧
    (s.client.closed = true ∨ s.client.conn = true ∧ writeError env s.log (s.outgoing env e) ≠ none)

structure Recording (env : Env) (s : Session) (pk q : Packet) : Prop where
  admits : Admits env s pk
  passes : Passes env s (s.subject env pk) q
  inline : s.client.inline = false
  qos : q.fixedHeader.qos = 2
  free : s.isBlocked q = false

/-- The packet meets an entry of the other direction. A PUBLISH of QoS 2 takes an id as in use that has
a PUBLISH or a parked or reserved entry, but not one that has a PUBREL. -/
def Clash (env : Env) (s : Session) (pk : Packet) : Prop :=
  match pk.fixedHeader.type with
  | .publish => ∃ q e, Recording env s pk q ∧ s.client.inflight.get q.packetID = some e ∧ e.isOutbound = true
  | .pubrel => ∃ e, s.client.inflight.get pk.packetID = some e ∧ e.isOutbound = true ∧ ¬ Stands env s pk e
  | .puback | .pubrec | .pubcomp => ∃ e, s.client.inflight.get pk.packetID = some e ∧ e.isInbound = true
  | _ => False

variable {env : Env} {s : Session} {pk : Packet}

theorem undisturbed_iff_of_get {t : Session} {other : Packet → Bool} {id : UInt16}
    (hother : ∀ id', id' ≠ id → t.client.inflight.get id' = s.client.inflight.get id') :
    (∀ id' e, s.client.inflight.get id' = some e → other e = true → t.client.inflight.get id' = some e) ↔
      ¬ ∃ e, s.client.inflight.get id = some e ∧ other e = true ∧ t.client.inflight.get id ≠ some e := by
  constructor
  · rintro h ⟨e, hget, he, hne⟩
    exact hne (h id e hget he)
  · intro h id' e hget he
    by_cases hid : id' = id
    · by_contra hne
      rw [hid] at hget hne
      exact h ⟨e, hget, he, hne⟩
    · rw [hother id' hid]
      exact hget

/-! ### Acknowledgements of outbound messages -/

variable {e q : Packet}

theorem get_processPubrec_self (he : e.isInbound = true) :
    (s.processPubrec env pk).2.client.inflight.get pk.packetID ≠ some e := by
  have hcases := processPubrec_cases env s pk
  generalize s.processPubrec env pk = result at hcases ⊢
  cases hcases with
  | unknown hget =>
    rw [writePacket_client, hget]
    exact nofun
  | dropped =>
    show (s.client.inflight.remove pk.packetID).get pk.packetID ≠ some e
    rw [get_remove, if_pos rfl]
    exact nofun
  | released _ _ hid hheader =>
    rw [writePacket_client, onInflight_client]
    dsimp only
    rw [get_put, if_pos hid.symm]
    intro heq
    unfold Packet.isInbound at he
    rw [← Option.some.inj heq, hheader] at he
    cases he

/-! ### PUBREL -/

theorem get_processPubrel_self (hget : s.client.inflight.get pk.packetID = some e) :
    (s.processPubrel env pk).2.client.inflight.get pk.packetID = some e ↔ Stands env s pk e := by
  unfold processPubrel Stands
  rw [hget]
  cases hends : pk.endsFlow with
  | true =>
    refine iff_of_false ?_ fun h => by cases h.1
    show (s.client.inflight.remove pk.packetID).get pk.packetID ≠ some e
    rw [get_remove, if_pos rfl]
    exact nofun
  | false =>
    dsimp only
    rw [if_neg (by decide)]
    generalize hack : s.completion env pk e = ack
    have hid : ack.packetID = pk.packetID := by
      rw [← hack]
      unfold completion
      rw [Packet.fillFrom_packetID, buildAck_packetID]
    have hclient := writePacket_client (s.onInflight fun f => f.put ack) env ack
    have hnone : ((s.onInflight fun f => f.put ack).writePacket env ack).1 = none ↔ ¬ (s.client.closed = true ∨
        s.client.conn = true ∧ writeError env s.log (s.outgoing env ack) ≠ none) :=
      writePacketOn_eq_none_iff env (s.onInflight fun f => f.put ack) ack.topicName ack
    unfold completion at hack
    rw [hack]
    rcases hw : (s.onInflight fun f => f.put ack).writePacket env ack with ⟨_ | err, t⟩
    · -- written: the entry goes
      rw [hw] at hnone
      refine iff_of_false ?_ ?_
      · show (t.client.inflight.increaseReceiveQuota.2.increaseSendQuota.2.remove pk.packetID).get pk.packetID ≠ some e
        rw [get_remove, if_pos rfl]
        exact nofun
      · rintro ⟨-, heq, hfail⟩
        rw [heq] at hfail
        exact hnone.mp rfl hfail
    · rw [hw] at hclient hnone
      have hfail := not_not.mp (mt hnone.mpr nofun)
      dsimp only at hclient ⊢
      rw [hclient, onInflight_client]
      dsimp only
      rw [get_put, if_pos hid.symm]
      constructor
      · intro heq
        cases heq
        exact ⟨rfl, rfl, hfail⟩
      · rintro ⟨-, heq, -⟩
        rw [heq]

/-! ### PUBLISH -/

theorem isBlocked_retained : ((s.aliased env pk).retained q).isBlocked q = s.isBlocked q := by
  obtain ⟨hclient, -⟩ := retained_cases (s.aliased env pk) q
  unfold isBlocked
  rw [hclient, aliased_eq]

theorem inflight_retained : ((s.aliased env pk).retained q).client.inflight = s.client.inflight := by
  rw [(retained_cases (s.aliased env pk) q).1, aliased_eq]

theorem inline_aliased : (s.aliased env pk).client.inline = s.client.inline := by
  rw [aliased_eq]

theorem receivePublish_of_passes (hadmits : Admits env s pk)
    (hpass : Passes env s (s.subject env pk) q) :
    s.receivePublish env pk = (s.aliased env pk).acceptPublish env q :=
  (receivePublish_of_admits hadmits).trans (judgePublish_of_passes (passes_aliased.mpr hpass))

theorem get_receivePublish_recording (h : Recording env s pk q) :
    ∃ ack : Packet, ack.fixedHeader.type = .pubrec ∧
      ∀ id, (s.receivePublish env pk).session.client.inflight.get id =
        if id = q.packetID then some ack else s.client.inflight.get id := by
  refine ⟨_, publishAck_type env ((s.aliased env pk).retained q) h.qos, fun id => ?_⟩
  have hrecorded : ∀ {t : Session}, SameSend (((s.aliased env pk).retained q).recorded env q) t.client.inflight →
      t.client.inflight.get id = if id = q.packetID then
        some (((s.aliased env pk).retained q).publishAck env q) else s.client.inflight.get id := by
    intro t hsame
    rw [hsame.get]
    unfold recorded
    rw [if_pos h.qos, get_put, publishAck_packetID, inflight_retained]
  rw [receivePublish_of_passes h.admits h.passes]
  obtain ⟨htaken, -⟩ | ⟨-, -, -, err, t, hret, -, hsame⟩ | ⟨hnone, -⟩ | ⟨-, -, t, hret, -, hsame⟩ :=
    acceptPublish_cases env (s.aliased env pk) q
  · rw [isBlocked_retained, h.free] at htaken
    cases htaken
  · rw [hret]
    exact hrecorded hsame
  · rw [h.qos, inline_aliased, h.inline] at hnone
    rcases hnone with hnone | hnone <;> cases hnone
  · rw [hret]
    exact hrecorded hsame

theorem get_receivePublish_other (h : ∀ q, ¬ Recording env s pk q) (id : UInt16) :
    (s.receivePublish env pk).session.client.inflight.get id = s.client.inflight.get id := by
  obtain ⟨err, t, hret, hquiet | ⟨-, hquiet⟩⟩ | ⟨hadmits, q, hpass, hacc⟩ := receivePublish_cases env s pk
  · rw [hret]
    show t.client.inflight.get id = _
    rw [hquiet.inflight]
  · rw [hret]
    show t.client.inflight.get id = _
    rw [hquiet.inflight, aliased_eq]
  · have hsame : ∀ {t : Session}, SameSend ((s.aliased env pk).retained q).client.inflight t.client.inflight →
        t.client.inflight.get id = s.client.inflight.get id := by
      intro t hsame
      rw [hsame.get, inflight_retained]
    have hrecorded : ∀ {t : Session}, (s.aliased env pk).client.inline = false →
        ((s.aliased env pk).retained q).isBlocked q = false →
        SameSend (((s.aliased env pk).retained q).recorded env q) t.client.inflight →
        t.client.inflight.get id = s.client.inflight.get id := by
      intro t hinline hfree hrec
      rw [inline_aliased] at hinline
      rw [isBlocked_retained] at hfree
      unfold recorded at hrec
      rw [if_neg fun hqos => h q ⟨hadmits, hpass, hinline, hqos, hfree⟩] at hrec
      exact hsame hrec
    rw [hacc]
    obtain ⟨-, err, t, hret, -, hs⟩ | ⟨hinline, hfree, -, err, t, hret, -, hs⟩ | ⟨-, hret⟩ |
      ⟨hinline, hfree, t, hret, -, hs⟩ := acceptPublish_cases env (s.aliased env pk) q
    · rw [hret]
      exact hsame hs
    · rw [hret]
      exact hrecorded hinline hfree hs
    · rw [hret]
      exact hsame (.refl _)
    · rw [hret]
      exact hrecorded hinline hfree hs

theorem type_ne_pubrec_of_free (hqos : q.fixedHeader.qos = 2) (hfree : s.isBlocked q = false)
    (hget : s.client.inflight.get q.packetID = some e) : e.fixedHeader.type ≠ .pubrec := by
  intro htype
  unfold isBlocked blocksPublish at hfree
  rw [hqos, hget, Option.any_some, htype] at hfree
  simp at hfree

theorem publish_undisturbed_iff :
    (∀ id e, s.client.inflight.get id = some e → e.isOutbound = true →
        (s.receivePublish env pk).session.client.inflight.get id = some e) ↔
      ¬ ∃ q e, Recording env s pk q ∧ s.client.inflight.get q.packetID = some e ∧ e.isOutbound = true := by
  by_cases hrec : ∃ q, Recording env s pk q
  · obtain ⟨q, hq⟩ := hrec
    obtain ⟨ack, hack, hget⟩ := get_receivePublish_recording hq
    rw [undisturbed_iff_of_get fun id' hne => (hget id').trans (if_neg hne), hget, if_pos rfl]
    refine not_congr ⟨?_, ?_⟩
    · rintro ⟨e, he, hout, -⟩
      exact ⟨q, e, hq, he, hout⟩
    · rintro ⟨q', e, hq', he, hout⟩
      rw [passes_unique hq.passes hq'.passes] at he
      refine ⟨e, he, hout, fun heq => ?_⟩
      cases heq
      exact type_ne_pubrec_of_free hq.qos hq.free he hack
  · have hnot : ∀ q, ¬ Recording env s pk q := fun q hq => hrec ⟨q, hq⟩
    refine iff_of_true (fun id e he _ => (get_receivePublish_other hnot id).trans he) ?_
    rintro ⟨q, -, hq, -⟩
    exact hnot q hq

/-! ### All packets -/

/-- A packet leaves every entry of the other direction as it is exactly when it does not meet one under
its id. -/
theorem undisturbed_iff_not_clash (env : Env) (s : Session) (pk : Packet) :
    Undisturbed env s pk ↔ ¬ Clash env s pk := by
  unfold Undisturbed handled Clash
  cases htype : pk.fixedHeader.type with
  | publish => exact publish_undisturbed_iff
  | pubrel =>
    refine (undisturbed_iff_of_get fun id' hne => get_processPubrel hne).trans (not_congr ?_)
    refine exists_congr fun e => and_congr_right fun hget => and_congr_right fun _ => not_congr ?_
    exact get_processPubrel_self hget
  | puback =>
    refine (undisturbed_iff_of_get fun id' hne => (get_processPuback id').trans (if_neg hne)).trans (not_congr ?_)
    refine exists_congr fun e => and_congr_right fun _ => and_iff_left ?_
    rw [get_processPuback, if_pos rfl]
    exact nofun
  | pubrec =>
    refine (undisturbed_iff_of_get fun id' hne => get_processPubrec hne).trans (not_congr ?_)
    refine exists_congr fun e => and_congr_right fun _ => and_iff_left_of_imp fun he => ?_
    exact get_processPubrec_self he
  | pubcomp =>
    refine (undisturbed_iff_of_get fun id' hne => (get_processPubcomp id').trans (if_neg hne)).trans (not_congr ?_)
    refine exists_congr fun e => and_congr_right fun _ => and_iff_left ?_
    rw [get_processPubcomp, if_pos rfl]
    exact nofun
  | _ => exact iff_of_true (fun _ _ _ h => by cases h) id

def sentMessage : Packet :=
  { fixedHeader := { type := .publish, qos := 1 }, packetID := 1, topicName := [97], payload := [1] }

def receivedMessage : Packet := { fixedHeader := { type := .pubrec }, packetID := 1, expiry := 200 }

def holdingOne (e : Packet) : Session := { client := { inflight := Inflight.new.put e } }

/-- A PUBREL of the client for its own id 1 takes a message away that was sent to it under id 1, and a
PUBACK takes away the record of a message received under id 1. -/
theorem clash_of_same_id :
    ¬ Undisturbed (.accepting 100) (holdingOne sentMessage)
        { fixedHeader := { type := .pubrel, qos := 1 }, packetID := 1 } ∧
      ¬ Undisturbed (.accepting 100) (holdingOne receivedMessage)
        { fixedHeader := { type := .puback }, packetID := 1 } := by
  refine ⟨fun h => ?_, fun h => ?_⟩
  · have hkept := h 1 sentMessage rfl rfl
    cases hkept
  · have hkept := h 1 receivedMessage rfl rfl
    cases hkept

end Session
end Mqtt
