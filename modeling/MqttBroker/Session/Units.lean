import MqttBroker.Session.Receive

/-! Units of the receive quota. A unit that is taken stands for an exchange of QoS 2
that has an entry: for a message of the client that it has not released, or for
one that was sent to it and that it has not completed. Each handler keeps the
units and the entries in step, if such an entry goes only with its unit. -/

namespace Mqtt
open FiniteMap
namespace Session
open Inflight

variable {env : Env} {s t : Session} {pk : Packet}

def exceedsReceiveMaximum (s : Session) (pk : Packet) : Bool :=
  (s.client.inline || isValidFilter pk.topicName true) && s.client.inflight.receiveQuota == 0

def isUnfinished (s : Session) (id : UInt16) : Bool :=
  s.client.inflight.hasType id .pubrec || s.client.inflight.hasType id .pubrel

def released (s : Session) : Nat := count (fun e => e.fixedHeader.type == .pubrel) s.client.inflight.internal

def answers (pk : Packet) : Event → Bool
  | .wrote ack _ => ack.packetID == pk.packetID &&
      if pk.fixedHeader.qos = 1 then ack.fixedHeader.type == .puback
      else ack.fixedHeader.type == .pubcomp ||
        (ack.fixedHeader.type == .pubrec && decide (Code.unspecifiedError.code ≤ ack.reasonCode))
  | _ => false

def answered (env : Env) (s : Session) (pk : Packet) : Bool :=
  ((s.receivePublish env pk).session.log.drop s.log.length).any (answers pk)

/-- `OnPublish` leaves the kind and the id of a message alone and does not make it one of QoS 2. -/
def Respects (env : Env) (s : Session) (pk : Packet) : Prop :=
  ∀ q, Passes env s (s.subject env pk) q → q.fixedHeader.type = .publish ∧ q.packetID = pk.packetID ∧
    q.fixedHeader.qos ≤ 2 ∧ (q.fixedHeader.qos = 2 → pk.fixedHeader.qos = 2)

/-! ### Units and entries -/

/-- Each unit of the receive quota that is taken stands for an entry under one of the ids: of a message
that is outstanding, or of one that is released. -/
structure Covers (maximum : Nat) (A : Finset UInt16) (s : Session) (flows : List (UInt16 × UInt8)) : Prop where
  limit : s.receive.2 = maximum
  quota : (maximum : Int) ≤ s.receive.1 + A.card
  held : ∀ p ∈ A, s.client.inflight.hasType p .pubrec = true ∧ (p, 2) ∈ flows ∨
    s.client.inflight.hasType p .pubrel = true
  inline : s.client.inline = false
  stored : s.RetainsPublish

variable {maximum : Nat} {A B : Finset UInt16} {flows flows' : List (UInt16 × UInt8)} {id : UInt16}

theorem Covers.steady (h : Covers maximum A s flows) (hst : Steady s t) (hflows : flows ⊆ flows') :
    Covers maximum A t flows' := by
  refine ⟨?_, ?_, fun p hp => ?_, hst.inline.trans h.inline, hst.stored h.stored⟩
  · rw [hst.receive]
    exact h.limit
  · rw [hst.receive]
    exact h.quota
  · rw [hst.received p, hst.released p]
    exact (h.held p hp).imp_left fun ⟨hentry, hflow⟩ => ⟨hentry, hflows hflow⟩

theorem Covers.not_mem (h : Covers maximum A s flows) (hid : s.isUnfinished id = false) : id ∉ A := by
  unfold isUnfinished at hid
  rw [Bool.or_eq_false_iff] at hid
  intro hmem
  obtain ⟨hrec, -⟩ | hrel := h.held id hmem
  · rw [hid.1] at hrec
    cases hrec
  · rw [hid.2] at hrel
    cases hrel

theorem Covers.held_others (h : Covers maximum A s flows)
    (hget : ∀ p, p ≠ id → t.client.inflight.get p = s.client.inflight.get p) {p : UInt16} (hp : p ∈ A) (hne : p ≠ id) :
    t.client.inflight.hasType p .pubrec = true ∧ (p, 2) ∈ flows ∨ t.client.inflight.hasType p .pubrel = true := by
  unfold hasType
  rw [hget p hne]
  exact h.held p hp

theorem Covers.change (h : Covers maximum A s flows) (hframe : Frame s t) (hlimit : t.receive.2 = s.receive.2)
    (hquota : (maximum : Int) ≤ t.receive.1 + B.card)
    (hheld : ∀ p ∈ B, t.client.inflight.hasType p .pubrec = true ∧ (p, 2) ∈ flows' ∨
      t.client.inflight.hasType p .pubrel = true) : Covers maximum B t flows' :=
  ⟨hlimit.trans h.limit, hquota, hheld, hframe.inline.trans h.inline, hframe.stored h.stored⟩

variable {f : Inflight} {q q' : Packet}

theorem increaseReceiveQuota_covers {n : Nat} (hlimit : f.receive.2 = maximum)
    (h : (maximum : Int) ≤ f.receive.1 + (n + 1 : Nat)) :
    f.increaseReceiveQuota.2.receive.2 = maximum ∧ (maximum : Int) ≤ f.increaseReceiveQuota.2.receive.1 + n := by
  unfold increaseReceiveQuota
  unfold Inflight.receive at hlimit h ⊢
  dsimp only at hlimit h
  split
  · exact ⟨hlimit, by dsimp only; omega⟩
  · exact ⟨hlimit, by dsimp only; omega⟩

theorem decreaseReceiveQuota_covers {n : Nat} (h : (maximum : Int) ≤ f.receive.1 + n) :
    f.decreaseReceiveQuota.2.receive.2 = f.receive.2 ∧
      (maximum : Int) ≤ f.decreaseReceiveQuota.2.receive.1 + (n + 1 : Nat) := by
  unfold decreaseReceiveQuota
  unfold Inflight.receive at h ⊢
  dsimp only at h
  split
  · exact ⟨rfl, by dsimp only; omega⟩
  · exact ⟨rfl, by dsimp only; omega⟩

/-! ### Acknowledgements -/

section Handlers
variable (h : Covers maximum A s flows)
include h

theorem Covers.processPuback (hfree : s.isUnfinished pk.packetID = false) :
    Covers maximum A (s.processPuback pk).2 flows := by
  have hreceive : (s.processPuback pk).2.receive = s.receive := by
    unfold Session.processPuback
    split
    · rfl
    · split
      · rfl
      · exact receive_increaseSendQuota _
  refine h.change frame_processPuback (by rw [hreceive]) (by rw [hreceive]; exact h.quota) fun p hp => ?_
  refine h.held_others (fun p hne => (get_processPuback p).trans (if_neg hne)) hp fun heq => ?_
  exact h.not_mem hfree (heq ▸ hp)

theorem Covers.dropExchange (e : Packet) (hfree : s.isUnfinished pk.packetID = false) :
    Covers maximum A (s.dropExchange pk e) flows := by
  refine h.change (frame_dropExchange e) rfl h.quota fun p hp => ?_
  refine h.held_others (fun p hne => get_dropExchange hne e) hp fun heq => ?_
  exact h.not_mem hfree (heq ▸ hp)

theorem Covers.processPubrec (hfree : s.isUnfinished pk.packetID = false) :
    ∃ B, Covers maximum B (s.processPubrec env pk).2 flows := by
  have hcases := processPubrec_cases env s pk
  generalize s.processPubrec env pk = result at hcases ⊢
  cases hcases with
  | unknown => exact ⟨A, h.steady (steady_writePacketOn _) (List.Subset.refl _)⟩
  | dropped => exact ⟨A, h.dropExchange _ hfree⟩
  | @released e ack _ _ hid hheader _ =>
    have hquota := decreaseReceiveQuota_covers (f := s.client.inflight) h.quota
    have hget : ∀ p, (s.client.inflight.decreaseReceiveQuota.2.put ack).get p =
        if p = pk.packetID then some ack else s.client.inflight.get p := by
      intro p
      rw [get_put, hid, (sameSend_decreaseReceiveQuota _).get]
    have hstored : Covers maximum (insert pk.packetID A) (s.onInflight fun f => f.decreaseReceiveQuota.2.put ack)
        flows := by
      refine h.change (frame_onInflight _) hquota.1 ?_ fun p hp => ?_
      · rw [Finset.card_insert_of_notMem (h.not_mem hfree)]
        exact hquota.2
      · by_cases hne : p = pk.packetID
        · exact .inr (hasType_iff.mpr ⟨ack, (hget p).trans (if_pos hne), by rw [hheader]⟩)
        · exact h.held_others (fun p hne => (hget p).trans (if_neg hne))
            ((Finset.mem_insert.mp hp).resolve_left hne) hne
    exact ⟨_, hstored.steady (steady_writePacketOn _) (List.Subset.refl _)⟩

variable {f : Inflight} {q : Packet}

theorem Covers.giveBack (hframe : Frame s t)
    (ht : t.receive = f.increaseReceiveQuota.2.receive) (hf : f.receive = s.receive)
    (hget : ∀ p, p ≠ id → t.client.inflight.get p = s.client.inflight.get p) :
    Covers maximum (A.erase id) t (flows.erase (id, 2)) := by
  have hcard : A.card - 1 ≤ (A.erase id).card := Finset.pred_card_le_card_erase
  have hquota : (maximum : Int) ≤ f.receive.1 + ((A.erase id).card + 1 : Nat) := by
    have hbefore := h.quota
    rw [hf]
    omega
  obtain ⟨hlimit, hquota⟩ := increaseReceiveQuota_covers ((congrArg Prod.snd hf).trans h.limit) hquota
  refine h.change hframe ?_ ?_ fun p hp => ?_
  · rw [ht, hlimit, h.limit]
  · rw [ht]
    exact hquota
  · obtain ⟨hne, hmem⟩ := Finset.mem_erase.mp hp
    refine (h.held_others hget hmem hne).imp_left fun ⟨hentry, hflow⟩ => ⟨hentry, ?_⟩
    refine (List.mem_erase_of_ne ?_).mpr hflow
    intro heq
    exact hne (congrArg Prod.fst heq)

theorem Covers.processPubrel (hfree : pk.endsFlow = true → s.isUnfinished pk.packetID = false)
    (herr : (s.processPubrel env pk).1 = none) :
    ∃ B, Covers maximum B (s.processPubrel env pk).2 (flows.erase (pk.packetID, 2)) := by
  -- the flow that is erased has no entry that stands for a unit
  have herase : ∀ {u : Session}, Covers maximum A u flows → pk.packetID ∉ A →
      Covers maximum A u (flows.erase (pk.packetID, 2)) := by
    intro u hu hnot
    refine ⟨hu.limit, hu.quota, fun p hp => ?_, hu.inline, hu.stored⟩
    refine (hu.held p hp).imp_left fun ⟨hentry, hflow⟩ => ⟨hentry, (List.mem_erase_of_ne ?_).mpr hflow⟩
    intro heq
    have hp' : p = pk.packetID := congrArg Prod.fst heq
    exact hnot (hp' ▸ hp)
  have hframe : Frame s (s.processPubrel env pk).2 := frame_processPubrel
  have hget : ∀ p, p ≠ pk.packetID → (s.processPubrel env pk).2.client.inflight.get p = s.client.inflight.get p :=
    fun p hne => get_processPubrel hne
  have hcases := processPubrel_cases env s pk
  generalize s.processPubrel env pk = result at hcases herr hframe hget ⊢
  cases hcases with
  | unknown he =>
    refine ⟨A, herase (h.steady (steady_writePacketOn _) (List.Subset.refl _)) (h.not_mem ?_)⟩
    unfold isUnfinished hasType
    rw [he]
    rfl
  | dropped _ hends => exact ⟨A, herase (h.dropExchange _ (hfree hends)) (h.not_mem (hfree hends))⟩
  | unwritten => cases herr
  | @completed e ack t _ _ _ _ _ hw =>
    have hclient := writePacket_client (s.onInflight fun f => f.put ack) env ack
    rw [hw] at hclient
    refine ⟨_, h.giveBack (f := t.client.inflight) hframe ?_ ?_ hget⟩
    · exact receive_increaseSendQuota _
    · rw [hclient]
      rfl

theorem Covers.processPubcomp : ∃ B, Covers maximum B (s.processPubcomp pk).2 flows := by
  have hreceive : (s.processPubcomp pk).2.receive = s.client.inflight.increaseReceiveQuota.2.receive := by
    unfold Session.processPubcomp
    dsimp only
    split
    · exact receive_increaseSendQuota _
    · exact receive_increaseSendQuota _
  have hback := h.giveBack frame_processPubcomp hreceive rfl fun p hne => (get_processPubcomp p).trans (if_neg hne)
  exact ⟨_, hback.steady (.refl _) List.erase_subset⟩

/-! ### PUBLISH -/

theorem Covers.takeAndGive (hframe : Frame s t)
    (hf : f.receive = s.client.inflight.decreaseReceiveQuota.2.receive)
    (ht : t.receive = f.increaseReceiveQuota.2.receive)
    (hget : ∀ p, t.client.inflight.get p = s.client.inflight.get p) : Covers maximum A t flows := by
  obtain ⟨hlimit, hquota⟩ := decreaseReceiveQuota_covers (f := s.client.inflight) h.quota
  rw [← hf] at hlimit hquota
  obtain ⟨hlimit, hquota⟩ := increaseReceiveQuota_covers (hlimit.trans h.limit) hquota
  rw [← ht] at hlimit hquota
  refine h.change hframe (hlimit.trans h.limit.symm) hquota fun p hp => ?_
  unfold hasType
  rw [hget p]
  exact h.held p hp

theorem Covers.storePubrec {ack : Packet} (htype : ack.fixedHeader.type = .pubrec)
    (hfree : s.isUnfinished ack.packetID = false) :
    Covers maximum (insert ack.packetID A) ((s.onInflight fun f => f.decreaseReceiveQuota.2).storePubrec ack)
      ((ack.packetID, 2) :: flows) := by
  have hinflight : ((s.onInflight fun f => f.decreaseReceiveQuota.2).storePubrec ack).client.inflight =
      s.client.inflight.decreaseReceiveQuota.2.put ack := storePubrec_inflight ack
  have hget : ∀ p, (s.client.inflight.decreaseReceiveQuota.2.put ack).get p =
      if p = ack.packetID then some ack else s.client.inflight.get p := by
    intro p
    rw [get_put, (sameSend_decreaseReceiveQuota _).get]
  obtain ⟨hlimit, hquota⟩ := decreaseReceiveQuota_covers (f := s.client.inflight) h.quota
  refine h.change ((frame_onInflight _).trans (frame_storePubrec ack)) ?_ ?_ fun p hp => ?_
  · unfold Session.receive
    rw [hinflight]
    exact hlimit
  · unfold Session.receive
    rw [hinflight, Finset.card_insert_of_notMem (h.not_mem hfree)]
    exact hquota
  · by_cases hne : p = ack.packetID
    · refine .inl ⟨hasType_iff.mpr ⟨ack, ?_, htype⟩, hne ▸ List.mem_cons_self⟩
      rw [hinflight]
      exact (hget p).trans (if_pos hne)
    · refine (h.held_others (fun p hne => ?_) ((Finset.mem_insert.mp hp).resolve_left hne) hne).imp_left
        fun ⟨hentry, hflow⟩ => ⟨hentry, List.mem_cons_of_mem _ hflow⟩
      rw [hinflight]
      exact (hget p).trans (if_neg hne)

theorem Covers.recordPublish {q' : Packet} (hqos : q.fixedHeader.qos = 1 ∨ q.fixedHeader.qos = 2)
    (hfree : q.fixedHeader.qos = 2 → s.isUnfinished q.packetID = false)
    (hacc : (s.onInflight fun f => f.decreaseReceiveQuota.2).recordPublish env q (s.publishAck env q) =
      .accepted q' t) :
    q' = q ∧ ∃ B, Covers maximum B t (if q.fixedHeader.qos = 2 then (q.packetID, 2) :: flows else flows) := by
  unfold Session.recordPublish at hacc
  dsimp only at hacc
  generalize hack : s.publishAck env q = ack at hacc
  have hid : ack.packetID = q.packetID := by rw [← hack, publishAck_packetID]
  rcases hqos with hone | htwo
  · have hnot : ¬ q.fixedHeader.qos = 2 := by
      rw [hone]
      decide
    rw [if_neg hnot] at hacc ⊢
    have hclient := writePacket_client (s.onInflight fun f => f.decreaseReceiveQuota.2) env ack
    have hframe : Frame s ((s.onInflight fun f => f.decreaseReceiveQuota.2).writePacket env ack).2 := by
      refine (frame_onInflight _).trans (quiet_writePacket env _ ?_).toFrame
      rw [← hack]
      exact publishAck_type_ne env s q
    rcases hw : (s.onInflight fun f => f.decreaseReceiveQuota.2).writePacket env ack with ⟨_ | err, u⟩
    · rw [hw] at hacc hclient hframe
      dsimp only at hacc hclient hframe
      rw [if_pos hone] at hacc
      cases hacc
      have hinflight : u.client.inflight = s.client.inflight.decreaseReceiveQuota.2 := by
        rw [hclient]
        rfl
      refine ⟨rfl, A, h.takeAndGive (f := u.client.inflight) (hframe.trans (frame_completePuback ack q)) ?_ rfl ?_⟩
      · rw [hinflight]
      · intro p
        rw [(completePuback_inflight ack q).get, hinflight]
        exact (sameSend_decreaseReceiveQuota _).get p
    · rw [hw] at hacc
      cases hacc
  · have hnot : ¬ q.fixedHeader.qos = 1 := by
      rw [htwo]
      decide
    rw [if_pos htwo] at hacc ⊢
    have htype : ack.fixedHeader.type = .pubrec := by
      rw [← hack]
      exact publishAck_type env s htwo
    have hstored := h.storePubrec htype (by rw [hid]; exact hfree htwo)
    rw [hid] at hstored
    have hwritten : Steady ((s.onInflight fun f => f.decreaseReceiveQuota.2).storePubrec ack)
        (((s.onInflight fun f => f.decreaseReceiveQuota.2).storePubrec ack).writePacket env ack).2 :=
      steady_writePacketOn _
    rcases hw : ((s.onInflight fun f => f.decreaseReceiveQuota.2).storePubrec ack).writePacket env ack with ⟨_ | err, u⟩
    · rw [hw] at hacc hwritten
      dsimp only at hacc
      rw [if_neg hnot] at hacc
      cases hacc
      exact ⟨rfl, _, hstored.steady hwritten (List.Subset.refl _)⟩
    · rw [hw] at hacc
      cases hacc

theorem Covers.acknowledgePublish (hqos : q.fixedHeader.qos = 1 ∨ q.fixedHeader.qos = 2)
    (hfree : q.fixedHeader.qos = 2 → s.isUnfinished q.packetID = false) :
    (∀ t, s.acknowledgePublish env q = .returned none t → Covers maximum A t flows) ∧
      ∀ q' t, s.acknowledgePublish env q = .accepted q' t →
        q' = q ∧ ∃ B, Covers maximum B t (if q.fixedHeader.qos = 2 then (q.packetID, 2) :: flows else flows) := by
  unfold Session.acknowledgePublish
  dsimp only
  split
  · refine ⟨fun t ht => ?_, fun q' t ht => (nomatch ht)⟩
    have hgiven : Covers maximum A
        ((s.onInflight fun f => f.decreaseReceiveQuota.2).onInflight fun f => f.increaseReceiveQuota.2) flows := by
      refine h.takeAndGive ((frame_onInflight _).trans (frame_onInflight _)) rfl rfl fun p => ?_
      exact ((sameSend_increaseReceiveQuota _).get p).trans ((sameSend_decreaseReceiveQuota _).get p)
    have hwritten := (PublishResult.returned.inj ht).2
    rw [← hwritten]
    exact hgiven.steady (steady_writePacketOn _) (List.Subset.refl _)
  · refine ⟨fun t ht => ?_, fun q' t ht => h.recordPublish hqos hfree ht⟩
    -- a message that is not blocked is passed on, or an error is returned
    unfold Session.recordPublish at ht
    dsimp only at ht
    split at ht
    · cases ht
    · cases ht

theorem Covers.acceptPublish (env : Env) (htype : q.fixedHeader.type = .publish)
    (hqos : q.fixedHeader.qos ≤ 2) (hfree : q.fixedHeader.qos = 2 → s.isUnfinished q.packetID = false) :
    (∀ t, s.acceptPublish env q = .returned none t → Covers maximum A t flows) ∧
      ∀ q' t, s.acceptPublish env q = .accepted q' t →
        q' = q ∧ ∃ B, Covers maximum B t (if q.fixedHeader.qos = 2 then (q.packetID, 2) :: flows else flows) := by
  have hretained := h.steady (steady_retained htype) (List.Subset.refl _)
  rw [acceptPublish_eq]
  by_cases hnone : (q.fixedHeader.qos = 0 || s.client.inline) = true
  · rw [if_pos hnone]
    have hzero : q.fixedHeader.qos = 0 := by
      rw [h.inline, Bool.or_false, decide_eq_true_eq] at hnone
      exact hnone
    refine ⟨fun t ht => (nomatch ht), fun q' t ht => ?_⟩
    cases ht
    rw [hzero, if_neg (by decide)]
    exact ⟨rfl, A, hretained⟩
  · rw [if_neg hnone]
    have hpos : q.fixedHeader.qos ≠ 0 := by
      rw [h.inline, Bool.or_false, decide_eq_true_eq] at hnone
      exact hnone
    have hcases : q.fixedHeader.qos = 1 ∨ q.fixedHeader.qos = 2 := by
      have hle : q.fixedHeader.qos.toNat ≤ 2 := hqos
      have hne : q.fixedHeader.qos.toNat ≠ 0 := fun hz => hpos (UInt8.toNat_inj.mp hz)
      have hnat : q.fixedHeader.qos.toNat = 1 ∨ q.fixedHeader.qos.toNat = 2 := by omega
      exact hnat.imp (fun hn => UInt8.toNat_inj.mp hn) fun hn => UInt8.toNat_inj.mp hn
    refine hretained.acknowledgePublish hcases fun htwo => ?_
    unfold isUnfinished
    rw [(retained_cases s q).1]
    exact hfree htwo

end Handlers

theorem isUnfinished_of_admits (hadmits : Admits env s pk) (hinline : s.client.inline = false)
    (hfree : s.client.inflight.hasType pk.packetID .pubrel = false) : s.isUnfinished pk.packetID = false := by
  unfold isUnfinished
  rw [hfree, Bool.or_false, Bool.eq_false_iff]
  intro hrec
  obtain ⟨e, he, htype⟩ := hasType_iff.mp hrec
  rcases hadmits.fresh with hin | hfresh
  · rw [hinline] at hin
    cases hin
  · exact hfresh e he htype

theorem Covers.processPublish (h : Covers maximum A s flows) (hrespects : Respects env s pk)
    (hfree : pk.fixedHeader.qos = 2 → s.client.inflight.hasType pk.packetID .pubrel = false)
    (herr : (s.processPublish env pk).1 = none) (hflows : flows ⊆ flows')
    (hnew : ∀ q t, s.receivePublish env pk = .accepted q t → q.fixedHeader.qos = 2 → (pk.packetID, 2) ∈ flows') :
    ∃ B, Covers maximum B (s.processPublish env pk).2 flows' := by
  have hsteady : Steady s (s.aliased env pk) := by
    rw [aliased_eq]
    exact steady_of_eq rfl rfl rfl
  unfold Session.processPublish at herr ⊢
  obtain ⟨err, t, hret, hquiet⟩ | ⟨hadmits, q, hpass, hacc⟩ := receivePublish_cases env s pk
  · rw [hret]
    rcases hquiet with hquiet | ⟨-, hquiet⟩
    · exact ⟨A, h.steady hquiet.steady hflows⟩
    · exact ⟨A, h.steady (hsteady.trans hquiet.steady) hflows⟩
  · obtain ⟨htype, hid, hle, htwo⟩ := hrespects q hpass
    have hunfinished : q.fixedHeader.qos = 2 → (s.aliased env pk).isUnfinished q.packetID = false := by
      intro hq
      have hbefore := isUnfinished_of_admits hadmits h.inline (hfree (htwo hq))
      unfold isUnfinished at hbefore ⊢
      rw [aliased_eq, hid]
      exact hbefore
    obtain ⟨hreturned, haccepted⟩ :=
      (h.steady hsteady (List.Subset.refl _)).acceptPublish env htype hle hunfinished
    rw [hacc] at herr ⊢ hnew
    cases hresult : (s.aliased env pk).acceptPublish env q with
    | returned err t =>
      rw [hresult] at herr
      have hnone : err = none := herr
      rw [hnone] at hresult
      exact ⟨A, (hreturned t hresult).steady (.refl _) hflows⟩
    | accepted q' t =>
      obtain ⟨rfl, B, hB⟩ := haccepted q' t hresult
      refine ⟨B, hB.steady ((steady_publishToSubscribers htype).trans (steady_emit _)) ?_⟩
      split
      · rename_i hq
        refine List.cons_subset.mpr ⟨?_, hflows⟩
        rw [hid]
        exact hnew q' t hresult hq
      · exact hflows

def Unanswered (pk : Packet) (s t : Session) : Prop := ∃ es, t.log = s.log ++ es ∧ es.any (answers pk) = false

theorem unanswered_of_log (h : t.log = s.log) : Unanswered pk s t := ⟨[], h.trans (List.append_nil _).symm, rfl⟩

theorem Unanswered.trans {u : Session} (h : Unanswered pk s t) (h' : Unanswered pk t u) : Unanswered pk s u := by
  obtain ⟨es, hlog, hes⟩ := h
  obtain ⟨es', hlog', hes'⟩ := h'
  refine ⟨es ++ es', ?_, ?_⟩
  · rw [hlog', hlog, List.append_assoc]
  · rw [List.any_append, hes, hes']
    rfl

theorem unanswered_emit {e : Event} (he : answers pk e = false) : Unanswered pk s (s.emit e) := by
  refine ⟨[e], rfl, ?_⟩
  rw [List.any_cons, he]
  rfl

theorem unanswered_retained : Unanswered pk s (s.retained q) := by
  obtain ⟨-, -, hlog | hlog⟩ := retained_cases s q
  · exact unanswered_of_log hlog
  · exact ⟨_, hlog, rfl⟩

theorem unanswered_storePubrec {ack : Packet} : Unanswered pk s (s.storePubrec ack) := by
  unfold Session.storePubrec
  split
  · exact (unanswered_of_log (t := (s.onInflight fun f => f.put ack).countInflight 1) rfl).trans (unanswered_emit rfl)
  · exact unanswered_of_log rfl

theorem unanswered_recordPublish (hpk : pk.fixedHeader.qos = 2) (hqos : q.fixedHeader.qos = 2)
    (ht : s.recordPublish env q (s.publishAck env q) = .accepted q' t) : Unanswered pk s t := by
  have hreason : (s.publishAck env q).reasonCode = Code.success.code := by
    unfold publishAck
    rw [Packet.fillFrom_reasonCode]
    rfl
  have htype : (s.publishAck env q).fixedHeader.type = .pubrec := publishAck_type env s hqos
  unfold Session.recordPublish at ht
  dsimp only at ht
  rw [if_pos hqos] at ht
  generalize s.publishAck env q = ack at ht hreason htype
  have hstored : Unanswered pk s (s.storePubrec ack) := unanswered_storePubrec
  obtain ⟨-, -, hw⟩ | ⟨-, -, hw⟩ | ⟨-, out, err, hw⟩ :=
    writePacketOn_cases env (s.storePubrec ack) ack.topicName ack
  · rw [writePacket, hw] at ht
    dsimp only at ht
    rw [hqos, if_neg (by decide)] at ht
    cases ht
    refine hstored.trans (unanswered_emit ?_)
    have hreason' : ((s.storePubrec ack).outgoing env ack).reasonCode = Code.success.code := hreason
    have htype' : ((s.storePubrec ack).outgoing env ack).fixedHeader.type = .pubrec := htype
    unfold answers
    dsimp only
    rw [hpk, if_neg (by decide), hreason', htype', Bool.and_eq_false_iff]
    exact .inr rfl
  · rw [writePacket, hw] at ht
    dsimp only at ht
    rw [hqos, if_neg (by decide)] at ht
    cases ht
    exact hstored
  · rw [writePacket, hw] at ht
    cases ht

theorem answered_of_accepted (hpk : pk.fixedHeader.qos = 2) (hqos : q.fixedHeader.qos = 2)
    (hinline : s.client.inline = false) (hacc : s.receivePublish env pk = (s.aliased env pk).acceptPublish env q)
    (ht : (s.aliased env pk).acceptPublish env q = .accepted q' t) : s.answered env pk = false := by
  have hsame : Unanswered pk s (s.aliased env pk) := by
    rw [aliased_eq]
    exact unanswered_of_log rfl
  have hretained : Unanswered pk s ((s.aliased env pk).retained q) := hsame.trans unanswered_retained
  have hnone : ¬ ((q.fixedHeader.qos = 0 || (s.aliased env pk).client.inline) = true) := by
    rw [aliased_eq, hqos]
    show ¬ ((decide ((2 : UInt8) = 0) || s.client.inline) = true)
    rw [hinline]
    decide
  have hresult : s.receivePublish env pk = .accepted q' t := hacc.trans ht
  rw [acceptPublish_eq, if_neg hnone] at ht
  unfold Session.acknowledgePublish at ht
  dsimp only at ht
  split at ht
  · cases ht
  · have htaken : Unanswered pk s (((s.aliased env pk).retained q).onInflight fun f => f.decreaseReceiveQuota.2) :=
      hretained.trans (unanswered_of_log rfl)
    obtain ⟨es, hes, hans⟩ := htaken.trans (unanswered_recordPublish hpk hqos ht)
    unfold answered
    rw [hresult]
    show (t.log.drop s.log.length).any (answers pk) = false
    rw [hes, List.drop_left]
    exact hans

/-! ### Sweeps and room -/

theorem steady_swept {tk : Packet} (hrec : s.client.inflight.hasType tk.packetID .pubrec = false)
    (hrel : s.client.inflight.hasType tk.packetID .pubrel = false) : Steady s (s.swept tk) := by
  have hkeeps : ∀ type : PacketType, s.client.inflight.hasType tk.packetID type = false →
      KeepsType type s.client.inflight (s.swept tk).client.inflight := by
    intro type hnone id
    refine Eq.trans ?_ (keepsType_remove hnone id)
    unfold hasType
    rw [get_swept, get_remove]
  refine ⟨?_, hkeeps _ hrec, hkeeps _ hrel, rfl, id⟩
  show (if tk.fixedHeader.qos > 0 then (s.client.inflight.remove tk.packetID).increaseSendQuota.2
    else s.client.inflight.remove tk.packetID).receive = s.client.inflight.receive
  split
  · exact receive_increaseSendQuota _
  · rfl

theorem steady_clearExpiredInflights {now maximumExpiry : Int}
    (hspared : ∀ id e, s.client.inflight.get id = some e → s.isUnfinished id = true →
      isExpired now maximumExpiry e = false) :
    Steady s (s.clearExpiredInflights env now maximumExpiry).2 := by
  refine (clearExpiredInflights_invariant (P := fun t => Steady s t ∧
    ∀ id e, t.client.inflight.get id = some e → s.client.inflight.get id = some e) ?_ ⟨.refl s, fun _ _ h => h⟩).1
  rintro t tk ⟨ht, hsub⟩ hget - - hexpired
  have hfree : s.isUnfinished tk.packetID = false := by
    rw [Bool.eq_false_iff]
    intro hun
    rw [hspared _ tk (hsub _ tk hget) hun] at hexpired
    cases hexpired
  unfold isUnfinished at hfree
  rw [Bool.or_eq_false_iff] at hfree
  refine ⟨ht.trans (steady_swept ((ht.received _).trans hfree.1) ((ht.released _).trans hfree.2)), fun id e he => ?_⟩
  rw [get_swept] at he
  split at he
  · cases he
  · exact hsub id e he

theorem Covers.card_le (h : Covers maximum A s flows) : A.card ≤ flows.length + s.released := by
  have hrec : (A.filter fun p => s.client.inflight.hasType p .pubrel = false).card ≤ flows.length := by
    have hsub : (A.filter fun p => s.client.inflight.hasType p .pubrel = false).image (fun p => (p, (2 : UInt8))) ⊆
        flows.toFinset := by
      intro flow hflow
      obtain ⟨p, hp, rfl⟩ := Finset.mem_image.mp hflow
      obtain ⟨hmem, hnot⟩ := Finset.mem_filter.mp hp
      obtain ⟨-, hflow⟩ | hrel := h.held p hmem
      · exact List.mem_toFinset.mpr hflow
      · rw [hnot] at hrel
        cases hrel
    have hinj : Function.Injective fun p : UInt16 => (p, (2 : UInt8)) := fun p q hpq => congrArg Prod.fst hpq
    have hcard := Finset.card_le_card hsub
    rw [Finset.card_image_of_injective _ hinj] at hcard
    exact hcard.trans (List.toFinset_card_le _)
  have hrel : (A.filter fun p => ¬ s.client.inflight.hasType p .pubrel = false).card ≤ s.released := by
    refine card_le_count fun p hp => ?_
    have hnot := (Finset.mem_filter.mp hp).2
    rw [Bool.not_eq_false] at hnot
    obtain ⟨e, he, htype⟩ := hasType_iff.mp hnot
    exact ⟨e, he, beq_iff_eq.mpr htype⟩
  have hsplit := Finset.card_filter_add_card_filter_not (s := A) fun p => s.client.inflight.hasType p .pubrel = false
  omega

theorem Covers.exceeds_eq_false (h : Covers maximum A s flows) (hroom : flows.length + s.released < maximum) :
    s.exceedsReceiveMaximum pk = false := by
  have hcard := h.card_le
  have hquota := h.quota
  have hpos : s.client.inflight.receiveQuota ≠ 0 := by
    intro hzero
    have hreceive : s.receive.1 = 0 := hzero
    omega
  unfold exceedsReceiveMaximum
  rw [beq_false_of_ne hpos, Bool.and_false]

end Session
end Mqtt
