import MqttBroker.Session.Connect
import MqttBroker.Session.Quota

/-! The gauge of inflight messages. `Info.Inflight` is kept by hand beside the maps
of the clients; reserved ids are not counted. What a handler does to the gauge is
compared with what it does to the map: their difference stays. -/

namespace Mqtt
open FiniteMap

def Packet.isCounted (pk : Packet) : Bool := pk.expiry != inflightExpiryReserved

theorem Packet.isCounted_iff {pk : Packet} : pk.isCounted = true ↔ pk.expiry ≠ inflightExpiryReserved := by
  unfold Packet.isCounted
  rw [bne_iff_ne]

theorem Packet.isCounted_of_reserved {pk : Packet} (h : pk.expiry = inflightExpiryReserved) : pk.isCounted = false := by
  unfold Packet.isCounted
  rw [h]
  rfl

theorem Packet.isCounted_deferred (pk : Packet) :
    ({ pk with expiry := inflightExpiryDeferred } : Packet).isCounted = true :=
  rfl

namespace Inflight
variable {f g : Inflight} {m : Packet} {id : UInt16}

def counted (f : Inflight) : Nat := count Packet.isCounted f.internal

theorem counted_put (f : Inflight) (m : Packet) :
    (f.put m).counted + ((f.get m.packetID).any Packet.isCounted).toNat = f.counted + m.isCounted.toNat :=
  count_insert _ _ _ _

theorem counted_remove (f : Inflight) (id : UInt16) :
    (f.remove id).counted + ((f.get id).any Packet.isCounted).toNat = f.counted :=
  count_erase _ _ _

theorem counted_put_over {old : Packet} (hget : f.get m.packetID = some old) (hold : old.isCounted = m.isCounted) :
    (f.put m).counted = f.counted := by
  have h := f.counted_put m
  rw [hget, Option.any_some, hold] at h
  omega

theorem counted_put_new (hget : (f.get m.packetID).any Packet.isCounted = false) (hm : m.isCounted = true) :
    (f.put m).counted = f.counted + 1 := by
  have h := f.counted_put m
  rw [hget, hm] at h
  exact h

theorem counted_reserve {now : Int} (hget : f.get id = none) : (f.put (reservation now id)).counted = f.counted := by
  have h := f.counted_put (reservation now id)
  rw [show (reservation now id).packetID = id from rfl, hget] at h
  exact h

theorem counted_remove_counted {old : Packet} (hget : f.get id = some old) (hold : old.isCounted = true) :
    (f.remove id).counted + 1 = f.counted := by
  have h := f.counted_remove id
  rw [hget, Option.any_some, hold] at h
  exact h

theorem counted_remove_reserved {old : Packet} (hget : f.get id = some old) (hold : old.isCounted = false) :
    (f.remove id).counted = f.counted := by
  have h := f.counted_remove id
  rw [hget, Option.any_some, hold] at h
  exact h

theorem counted_eq_zero (h : ∀ id, f.get id = none) : f.counted = 0 :=
  count_eq_zero_iff.mpr fun id pk hpk => by
    rw [show f.internal.lookup id = none from h id] at hpk
    cases hpk

section Quota
variable (f : Inflight)

@[simp] theorem counted_increaseSendQuota : f.increaseSendQuota.2.counted = f.counted := by
  unfold increaseSendQuota
  split <;> rfl

@[simp] theorem counted_decreaseSendQuota : f.decreaseSendQuota.2.counted = f.counted := by
  unfold decreaseSendQuota
  split <;> rfl

@[simp] theorem counted_increaseReceiveQuota : f.increaseReceiveQuota.2.counted = f.counted := by
  unfold increaseReceiveQuota
  split <;> rfl

@[simp] theorem counted_decreaseReceiveQuota : f.decreaseReceiveQuota.2.counted = f.counted := by
  unfold decreaseReceiveQuota
  split <;> rfl

@[simp] theorem counted_recoverStarvedSendQuota : f.recoverStarvedSendQuota.2.counted = f.counted := by
  unfold recoverStarvedSendQuota
  split
  · rfl
  · split
    · rfl
    · split <;> rfl

@[simp] theorem counted_resetSendQuotaIfEmpty : f.resetSendQuotaIfEmpty.2.counted = f.counted := by
  unfold resetSendQuotaIfEmpty
  split
  · rfl
  · split
    · rfl
    · split <;> rfl

end Quota

end Inflight

namespace Session
open Inflight

def gap (s : Session) : Int := s.server.info.inflight - s.client.inflight.counted

variable {env : Env} {s t : Session} {pk out : Packet} {id : UInt16}

@[simp] theorem gap_emit (s : Session) (e : Event) : (s.emit e).gap = s.gap := rfl

theorem gap_onInflight {f : Inflight → Inflight} (h : (f s.client.inflight).counted = s.client.inflight.counted) :
    (s.onInflight f).gap = s.gap := by
  show s.server.info.inflight - ((f s.client.inflight).counted : Int) = _
  rw [h]
  rfl

theorem gap_countInflight {f : Inflight → Inflight} {n : Int}
    (h : ((f s.client.inflight).counted : Int) = s.client.inflight.counted + n) :
    ((s.onInflight f).countInflight n).gap = s.gap := by
  show s.server.info.inflight + n - ((f s.client.inflight).counted : Int) =
    s.server.info.inflight - (s.client.inflight.counted : Int)
  omega

theorem gap_emit_countInflight {f : Inflight → Inflight} {n : Int} (e : Event)
    (h : ((f s.client.inflight).counted : Int) = s.client.inflight.counted + n) :
    (((s.onInflight f).emit e).countInflight n).gap = s.gap := by
  have hcount : (((s.emit e).onInflight f).countInflight n).gap = (s.emit e).gap := gap_countInflight h
  exact hcount.trans (gap_emit s e)

theorem gap_of_quiet (h : Quiet s t) : t.gap = s.gap := by
  unfold gap
  rw [h.server, h.inflight]

@[simp] theorem gap_writePacket (env : Env) (s : Session) (pk : Packet) : (s.writePacket env pk).2.gap = s.gap := by
  unfold gap
  rw [writePacket_client, writePacket_server]

/-! ### Outbound messages -/

theorem gap_dropStored {old : Packet} (hget : s.client.inflight.get id = some old) (hold : old.isCounted = true) :
    (s.dropStored id).gap = s.gap := by
  rw [dropStored_of_get hget]
  refine gap_countInflight ?_
  have hremove := counted_remove_counted hget hold
  rw [counted_increaseSendQuota]
  omega

theorem gap_takeDeferred (hpk : s.client.inflight.get pk.packetID = some pk)
    (hdef : pk.expiry = inflightExpiryDeferred) : (s.takeDeferred pk).gap = s.gap := by
  refine gap_onInflight ?_
  have hcounted : pk.isCounted = ({ pk with expiry := 0 } : Packet).isCounted := by
    unfold Packet.isCounted
    rw [hdef]
    rfl
  exact counted_put_over (m := { pk with expiry := 0 }) hpk hcounted

theorem gap_deferAgain {old : Packet} (hget : s.client.inflight.get pk.packetID = some old)
    (hold : old.isCounted = true) : (s.deferAgain pk).gap = s.gap := by
  refine gap_onInflight ?_
  rw [counted_increaseSendQuota]
  exact counted_put_over (m := { pk with expiry := inflightExpiryDeferred }) hget hold

theorem gap_resumeDeferredPublishes (env : Env) (s : Session) : (s.resumeDeferredPublishes env).2.gap = s.gap := by
  apply resume_invariant (P := fun v => v.gap = s.gap)
  · intro v pk hv _ hpk hdef _ _ _
    exact (gap_takeDeferred hpk hdef).trans hv
  · intro v pk hv _ hpk hdef
    have htaken := (gap_takeDeferred hpk hdef).trans hv
    have hget : (v.takeDeferred pk).client.inflight.get pk.packetID = some { pk with expiry := 0 } := by
      show (v.client.inflight.put { pk with expiry := 0 }).get pk.packetID = _
      rw [get_put, if_pos rfl]
    exact ⟨(gap_deferAgain hget rfl).trans htaken, fun _ _ => (gap_deferAgain hget rfl).trans htaken⟩
  · exact fun hv => (gap_onInflight (counted_resetSendQuotaIfEmpty _)).trans hv
  · exact gap_onInflight (counted_recoverStarvedSendQuota _)

theorem gap_enqueue (hstored : 0 < out.fixedHeader.qos →
    ∃ old, s.client.inflight.get out.packetID = some old ∧ old.isCounted = true) :
    (s.enqueue pk out).2.gap = s.gap := by
  refine enqueue_invariant (P := fun t => t.gap = s.gap) rfl rfl rfl fun hqos u hclient hu => ?_
  obtain ⟨old, hget, hold⟩ := hstored hqos
  rw [← hclient] at hget
  exact (gap_dropStored hget hold).trans hu

theorem gap_stored {r : Packet} (hget : s.client.inflight.get out.packetID = some r)
    (hr : r.expiry = inflightExpiryReserved) (hout : out.isCounted = true) (quota maximum : Int) :
    (s.storeQos out quota maximum).gap = s.gap := by
  have hreserved : r.isCounted = false := Packet.isCounted_of_reserved hr
  have hnew : (s.client.inflight.put out).counted = s.client.inflight.counted + 1 := by
    refine counted_put_new ?_ hout
    rw [hget, Option.any_some, hreserved]
  unfold storeQos
  rw [gap_emit]
  exact gap_countInflight (congrArg Nat.cast hnew)

theorem gap_sendQos {r : Packet} (hget : s.client.inflight.get out.packetID = some r)
    (hr : r.expiry = inflightExpiryReserved) (hout : out.isCounted = true) :
    (s.sendQos env pk out).2.gap = s.gap := by
  obtain ⟨-, heq⟩ | ⟨-, quota, maximum, -, heq⟩ := sendQos_cases env pk hget hr
  · have hget' : s.client.inflight.get ({ out with expiry := inflightExpiryDeferred } : Packet).packetID = some r :=
      hget
    rw [heq]
    dsimp only
    rw [gap_resumeDeferredPublishes]
    exact gap_stored hget' hr out.isCounted_deferred s.client.inflight.sendQuota s.client.inflight.maximumSendQuota
  · have hgetv : (s.storeQos out quota maximum).client.inflight.get out.packetID = some out :=
      (get_put _ _ _).trans (if_pos rfl)
    rw [heq]
    exact (gap_enqueue fun _ => ⟨out, hgetv, hout⟩).trans (gap_stored hget hr hout quota maximum)

theorem gap_publishToClient {sub : Subscription} (hpk : pk.expiry ≠ inflightExpiryReserved) :
    (s.publishToClient env sub pk).2.gap = s.gap := by
  have hcases := publishToClient_cases env s sub pk
  generalize s.publishToClient env sub pk = result at hcases ⊢
  cases hcases with
  | own | unauthorized | exhausted => rfl
  | @sent outbound j out _ _ _ hfree _ _ hreserved _ hexpiry =>
    have hcounted : out.isCounted = true := by
      rw [Packet.isCounted_iff, hexpiry]
      exact hpk
    have hput : (s.client.inflight.put (reservation env.now (UInt16.ofNat j))).counted = s.client.inflight.counted :=
      counted_reserve hfree
    refine (gap_sendQos hreserved rfl hcounted).trans ?_
    exact congrArg (fun n : Nat => s.server.info.inflight - (n : Int)) hput
  | queued _ hqos => exact (gap_enqueue fun hpos => absurd hpos hqos).trans rfl

/-! ### PUBLISH -/

theorem gap_storePubrec {ack : Packet} (hack : ack.isCounted = true)
    (hold : ∀ e, s.client.inflight.get ack.packetID = some e → e.isCounted = true) :
    (s.storePubrec ack).gap = s.gap := by
  unfold storePubrec Inflight.set
  cases hget : s.client.inflight.get ack.packetID with
  | none =>
    have hnew : (s.client.inflight.put ack).counted = s.client.inflight.counted + 1 := by
      refine counted_put_new ?_ hack
      rw [hget]
      rfl
    show (((s.onInflight fun f => f.put ack).countInflight 1).emit (.qosPublish ack)).gap = _
    rw [gap_emit]
    refine gap_countInflight ?_
    rw [hnew]
    rfl
  | some e =>
    show (s.onInflight fun f => f.put ack).gap = _
    refine gap_onInflight (counted_put_over hget ?_)
    rw [hold e hget, hack]

theorem isCounted_of_not_blocked (hfree : s.isBlocked pk = false) (hqos : pk.fixedHeader.qos = 2) {e : Packet}
    (he : s.client.inflight.get pk.packetID = some e) : e.isCounted = true := by
  unfold isBlocked blocksPublish at hfree
  rw [hqos, he] at hfree
  simp only [beq_self_eq_true, Option.any_some, Bool.true_and, Bool.or_eq_false_iff] at hfree
  unfold Packet.isCounted bne
  rw [hfree.2]
  rfl

theorem gap_recordPublish {ack : Packet} (hack : ack.isCounted = true)
    (hold : pk.fixedHeader.qos = 2 → ∀ e, s.client.inflight.get ack.packetID = some e → e.isCounted = true) :
    (s.recordPublish env pk ack).session.gap = s.gap := by
  have hstored : (if pk.fixedHeader.qos = 2 then s.storePubrec ack else s).gap = s.gap := by
    split
    · rename_i hqos
      exact gap_storePubrec hack (hold hqos)
    · rfl
  unfold recordPublish
  dsimp only
  generalize (if pk.fixedHeader.qos = 2 then s.storePubrec ack else s) = u at hstored
  have hwritten := (gap_writePacket env u ack).trans hstored
  rcases hw : u.writePacket env ack with ⟨_ | err, t⟩
  · rw [hw] at hwritten
    dsimp only at hwritten ⊢
    show (if pk.fixedHeader.qos = 1 then t.completePuback ack pk else t).gap = s.gap
    split
    · unfold completePuback
      dsimp only
      rw [gap_emit, gap_onInflight (counted_increaseReceiveQuota _)]
      exact hwritten
    · exact hwritten
  · rw [hw] at hwritten
    exact hwritten

theorem gap_acknowledgePublish (hack : env.now + s.server.caps.maximumMessageExpiryInterval ≠ inflightExpiryReserved) :
    (s.acknowledgePublish env pk).session.gap = s.gap := by
  have hquota : (s.onInflight fun f => f.decreaseReceiveQuota.2).gap = s.gap :=
    gap_onInflight (counted_decreaseReceiveQuota _)
  have hcaps : (s.onInflight fun f => f.decreaseReceiveQuota.2).server.caps = s.server.caps := rfl
  unfold acknowledgePublish
  dsimp only
  generalize (s.onInflight fun f => f.decreaseReceiveQuota.2) = u at hquota hcaps
  split
  · show ((u.onInflight fun f => f.increaseReceiveQuota.2).writePacket env _).2.gap = s.gap
    rw [gap_writePacket, gap_onInflight (counted_increaseReceiveQuota _)]
    exact hquota
  · rename_i hfree
    rw [Bool.not_eq_true] at hfree
    refine (gap_recordPublish ?_ ?_).trans hquota
    · rw [Packet.isCounted_iff, publishAck_expiry, hcaps]
      exact hack
    · intro hqos e he
      rw [publishAck_packetID] at he
      exact isCounted_of_not_blocked hfree hqos he

theorem gap_retained (s : Session) (q : Packet) : (s.retained q).gap = s.gap := by
  unfold retained retainMessage
  split
  · split <;> rfl
  · rfl

theorem gap_receivePublish (hack : env.now + s.server.caps.maximumMessageExpiryInterval ≠ inflightExpiryReserved) :
    (s.receivePublish env pk).session.gap = s.gap := by
  have hu : (s.aliased env pk).gap = s.gap := by
    rw [aliased_eq]
    rfl
  refine receivePublish_invariant (P := fun t => t.gap = s.gap) (fun hquiet hv => (gap_of_quiet hquiet).trans hv) rfl hu
    fun q _ => ?_
  have hcaps := (retained_cases (s.aliased env pk) q).2.1
  have hretained : ((s.aliased env pk).retained q).gap = s.gap := (gap_retained _ q).trans hu
  rw [acceptPublish_eq]
  split
  · exact hretained
  · refine (gap_acknowledgePublish ?_).trans hretained
    rw [hcaps, aliased_eq]
    exact hack

structure Unmarked (env : Env) (s : Session) (pk : Packet) : Prop where
  now : 0 ≤ env.now
  ack : env.now + s.server.caps.maximumMessageExpiryInterval ≠ inflightExpiryReserved
  publish : pk.expiry ≠ inflightExpiryReserved
  hook : ∀ q, env.onPublish (s.subject env pk) = .accept q → q.expiry ≠ inflightExpiryReserved ∧ 0 ≤ q.created

theorem ne_reserved_of_nonneg {n : Int} (h : 0 ≤ n) : n ≠ inflightExpiryReserved := by
  unfold inflightExpiryReserved
  omega

theorem gap_processPublish (h : Unmarked env s pk) : (s.processPublish env pk).2.gap = s.gap := by
  refine processPublish_invariant (P := fun t => t.gap = s.gap) (gap_receivePublish h.ack)
    fun {q t} hret hreceived => ?_
  have hnonneg : ∀ n : Int, 0 ≤ n → n ≠ inflightExpiryReserved := fun _ => ne_reserved_of_nonneg
  obtain ⟨hexpiry, hcreated⟩ := expiry_of_passes hnonneg h.now h.publish h.hook (passes_of_accepted hret)
  have hforwarded : (t.publishToSubscribers env q).gap = t.gap :=
    @publishToSubscribers_cases env t q (fun u => u.gap = t.gap) _ hnonneg h.now hexpiry hcreated rfl
      fun _ _ _ hp => gap_publishToClient hp
  exact hforwarded.trans hreceived

/-! ### Acknowledgements -/

def Unreserved (s : Session) (id : UInt16) : Prop :=
  ∀ e, s.client.inflight.get id = some e → e.expiry ≠ inflightExpiryReserved

theorem gap_processPuback (s : Session) (pk : Packet) : (s.processPuback pk).2.gap = s.gap := by
  unfold processPuback
  cases hget : s.client.inflight.get pk.packetID with
  | none => rfl
  | some e =>
    dsimp only
    split
    · rename_i hreserved
      exact gap_onInflight (counted_remove_reserved hget (Packet.isCounted_of_reserved hreserved))
    · rename_i hcounted
      dsimp only
      rw [gap_emit]
      refine gap_countInflight ?_
      have hremove := counted_remove_counted hget (Packet.isCounted_iff.mpr hcounted)
      rw [counted_increaseSendQuota]
      omega

theorem gap_dropExchange {e : Packet} (hget : s.client.inflight.get pk.packetID = some e)
    (he : e.isCounted = true) : (s.dropExchange pk e).gap = s.gap := by
  unfold dropExchange
  rw [gap_emit]
  refine gap_countInflight ?_
  have hremove := counted_remove_counted hget he
  omega

section
variable (hid : Unreserved s pk.packetID)
  (hack : env.now + s.server.caps.maximumMessageExpiryInterval ≠ inflightExpiryReserved)
include hid hack

theorem counted_putAck {e ack : Packet} {f : Inflight} (hf : ∀ i, f.get i = s.client.inflight.get i)
    (hget : s.client.inflight.get pk.packetID = some e) (hsame : ack.packetID = pk.packetID)
    (hexpiry : ack.expiry = env.now + s.server.caps.maximumMessageExpiryInterval) :
    (f.put ack).counted = f.counted := by
  have hold : e.isCounted = true := Packet.isCounted_iff.mpr (hid e hget)
  have hnew : ack.isCounted = true := Packet.isCounted_iff.mpr (hexpiry ▸ hack)
  refine counted_put_over ?_ (hold.trans hnew.symm)
  rw [hf, hsame]
  exact hget

theorem gap_processPubrec : (s.processPubrec env pk).2.gap = s.gap := by
  apply processPubrec_invariant (P := fun u => u.gap = s.gap)
  · exact fun _ hu => (gap_writePacket env _ _).trans hu
  · exact fun hget => gap_dropExchange hget (Packet.isCounted_iff.mpr (hid _ hget))
  · intro e ack hget hsame _ hexpiry
    have hput := counted_putAck hid hack (sameSend_decreaseReceiveQuota s.client.inflight).get hget hsame hexpiry
    exact gap_onInflight (hput.trans (counted_decreaseReceiveQuota _))
  · rfl

theorem gap_processPubrel : (s.processPubrel env pk).2.gap = s.gap := by
  apply processPubrel_invariant (P := fun u => u.gap = s.gap)
  · exact fun _ hu => (gap_writePacket env _ _).trans hu
  · exact fun hget => gap_dropExchange hget (Packet.isCounted_iff.mpr (hid _ hget))
  · exact fun hget hsame _ hexpiry => gap_onInflight (counted_putAck hid hack (fun _ => rfl) hget hsame hexpiry)
  · intro e ack t ht hinflight hsame hexpiry
    have hget' : (t.client.inflight.increaseReceiveQuota.2.increaseSendQuota.2).get pk.packetID = some ack := by
      rw [get_increaseSendQuota, (sameSend_increaseReceiveQuota _).get, hinflight]
      exact (get_put _ _ _).trans (if_pos hsame.symm)
    have hremove := counted_remove_counted hget' (Packet.isCounted_iff.mpr (hexpiry ▸ hack))
    rw [counted_increaseSendQuota, counted_increaseReceiveQuota] at hremove
    rw [gap_emit, gap_countInflight, ht]
    omega
  · rfl

end

theorem gap_processPubcomp (hid : Unreserved s pk.packetID) : (s.processPubcomp pk).2.gap = s.gap := by
  have hquota : (s.onInflight fun f => f.increaseReceiveQuota.2.increaseSendQuota.2).gap = s.gap := by
    refine gap_onInflight ?_
    rw [counted_increaseSendQuota, counted_increaseReceiveQuota]
  have hsame : ∀ id, (s.onInflight fun f => f.increaseReceiveQuota.2.increaseSendQuota.2).client.inflight.get id =
      s.client.inflight.get id := by
    intro id
    rw [onInflight_client]
    dsimp only
    rw [get_increaseSendQuota, (sameSend_increaseReceiveQuota _).get]
  unfold processPubcomp
  dsimp only
  generalize (s.onInflight fun f => f.increaseReceiveQuota.2.increaseSendQuota.2) = u at hquota hsame
  cases hget : u.client.inflight.get pk.packetID with
  | none => exact hquota
  | some e =>
    have he := Packet.isCounted_iff.mpr (hid e ((hsame _).symm.trans hget))
    dsimp only
    rw [gap_emit, gap_countInflight, hquota]
    have hremove := counted_remove_counted hget he
    omega

/-! ### Loops over the entries -/

theorem gap_clearExpiredInflights (env : Env) (s : Session) (now maximumExpiry : Int) :
    (s.clearExpiredInflights env now maximumExpiry).2.gap = s.gap := by
  refine clearExpiredInflights_invariant (P := fun t => t.gap = s.gap) (fun hgap hget _ hmark _ => ?_) rfl
  have hremove := counted_remove_counted hget (Packet.isCounted_iff.mpr hmark)
  refine Eq.trans (gap_emit_countInflight _ ?_) hgap
  split
  · rw [counted_increaseSendQuota]
    omega
  · omega

theorem gap_clearInflights (env : Env) (s : Session) : (s.clearInflights env).gap = s.gap := by
  refine clearInflights_invariant (P := fun u => u.gap = s.gap) (fun hgap hget => ?_) rfl
  split
  · rename_i hcounted
    have hremove := counted_remove_counted hget (Packet.isCounted_iff.mpr hcounted)
    refine Eq.trans (gap_emit_countInflight _ ?_) hgap
    omega
  · rename_i hreserved
    have hremove := counted_remove_reserved hget (Packet.isCounted_of_reserved (not_not.mp hreserved))
    rw [gap_emit, gap_onInflight hremove]
    exact hgap

theorem gap_resendInflightMessages (env : Env) (s : Session) : (s.resendInflightMessages env).2.gap = s.gap := by
  refine resend_invariant (P := fun t => t.gap = s.gap) (fun h _ => (gap_writePacket env _ _).trans h) ?_ rfl
  intro t tk h hget hmark _
  have hremove := counted_remove_counted hget (Packet.isCounted_iff.mpr hmark)
  refine Eq.trans (gap_emit_countInflight _ ?_) h
  omega

theorem get_resetInflights (env : Env) (f : Inflight) (id : UInt16) : (resetInflights env f).get id = none := by
  have hkeeps : ∀ (tks : List Packet) (g : Inflight), g.get id = none →
      (tks.foldl (fun f tk => f.remove tk.packetID) g).get id = none := by
    intro tks g hg
    refine List.foldlRecOn (motive := fun g : Inflight => g.get id = none) _ _ hg fun g hg tk _ => ?_
    rw [get_remove]
    split
    · rfl
    · exact hg
  have hmeets : ∀ (tks : List Packet) (g : Inflight), (∀ e, g.get id = some e → e ∈ tks) →
      (tks.foldl (fun f tk => f.remove tk.packetID) g).get id = none := by
    intro tks
    induction tks with
    | nil =>
      intro g hg
      cases hget : g.get id with
      | none => exact hget
      | some e => exact absurd (hg e hget) List.not_mem_nil
    | cons tk tks ih =>
      intro g hg
      rw [List.foldl_cons]
      by_cases hid : id = tk.packetID
      · refine hkeeps tks _ ?_
        rw [get_remove, if_pos hid]
      · refine ih _ fun e he => ?_
        rw [get_remove, if_neg hid] at he
        rcases List.mem_cons.mp (hg e he) with rfl | hmem
        · exact absurd (g.packetID_of_get he).symm hid
        · exact hmem
  refine hmeets _ f fun e he => ?_
  rw [mem_getAll_iff, f.packetID_of_get he]
  exact he

/-! ### Taking a session over -/

theorem gap_stop (env : Env) (s : Session) (err : Option Error) : (s.stop env err).gap = s.gap := by
  unfold stop
  split <;> rfl

theorem gap_disconnectClient (env : Env) (s : Session) (code : Code) : (s.disconnectClient env code).2.gap = s.gap :=
  disconnectClient_invariant (P := fun t => t.gap = s.gap) (gap_writePacket env s _)
    fun h => (gap_stop env _ _).trans h

theorem gap_unsubscribeClient (s : Session) : s.unsubscribeClient.gap = s.gap := by
  unfold unsubscribeClient
  dsimp only
  split
  · rfl
  · rw [gap_emit]
    exact List.foldlRecOn (motive := fun u : Session => u.gap = s.gap) _ _ rfl fun _ hu _ _ => hu

theorem gap_foldl_addSubscription (subs : List (Σ _ : Bytes, Subscription)) (s : Session) :
    (subs.foldl (fun s e => (s.addSubscription e.2).2) s).gap = s.gap :=
  List.foldlRecOn (motive := fun u : Session => u.gap = s.gap) _ _ rfl fun _ hu _ _ => hu

theorem counted_reconcileSendQuotaCap (f : Inflight) (max : Int) :
    (f.reconcileSendQuotaCap max).counted = f.counted := by
  unfold reconcileSendQuotaCap
  split <;> rfl

theorem counted_inheritInflight (caps : Capabilities) (existing : Inflight) {cl : Client}
    (hcl : cl.inflight.counted = 0) : (inheritInflight caps existing cl).counted = existing.counted := by
  unfold inheritInflight
  split
  · dsimp only
    generalize (if cl.props.receiveMaximum = 0 then caps.receiveMaximum else cl.props.receiveMaximum) = newMax
    have hentries := counted_reconcileSendQuotaCap existing.clone newMax.toNat
    split
    · exact hentries
    · exact hentries
  · rename_i hempty
    have hsize : size existing.internal = 0 := Nat.le_zero.mp (Nat.not_lt.mp hempty)
    rw [hcl, counted_eq_zero fun id => size_eq_zero_iff.mp hsize id]

theorem gap_inheritClientSession (env : Env) (s : Session) (pk : Packet) {cl : Client}
    (hcl : cl.inflight.counted = 0) :
    (s.inheritClientSession env pk cl).2.2.gap - ((s.inheritClientSession env pk cl).2.1.inflight.counted : Int) =
      s.gap := by
  have hdisconnected := gap_disconnectClient env s .sessionTakenOver
  rw [inheritClientSession_eq]
  dsimp only
  generalize (s.disconnectClient env .sessionTakenOver).2 = t at hdisconnected
  split
  · have hcleared := ((gap_clearInflights env t.unsubscribeClient).trans (gap_unsubscribeClient t)).trans hdisconnected
    generalize t.unsubscribeClient.clearInflights env = u at hcleared
    show u.server.info.inflight - (cl.inflight.counted : Int) - (u.client.inflight.counted : Int) = s.gap
    rw [hcl, ← hcleared]
    show _ = u.server.info.inflight - (u.client.inflight.counted : Int)
    omega
  · dsimp only
    rw [gap_foldl_addSubscription]
    show t.server.info.inflight - ((inheritInflight t.server.caps t.client.inflight cl).counted : Int) -
      ((resetInflights env t.client.inflight).counted : Int) = s.gap
    rw [counted_inheritInflight _ _ hcl, counted_eq_zero (get_resetInflights env t.client.inflight), ← hdisconnected]
    show _ = t.server.info.inflight - (t.client.inflight.counted : Int)
    omega

end Session
end Mqtt
