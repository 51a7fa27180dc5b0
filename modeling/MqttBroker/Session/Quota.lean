import MqttBroker.Library.Runs
import MqttBroker.Session.Exact
import MqttBroker.Session.Cases

/-! Send quota over whole runs. The handlers keep the quota of an MQTT 5 client
exact as long as each acknowledgement meets the entry it is for: the handlers
find entries by packet id alone, and several give quota back, or fail to,
whatever the entry is. -/

namespace Mqtt
namespace Session
open Inflight

structure QuotaExact (s : Session) : Prop where
  version : 5 ≤ s.client.protocolVersion
  exact : s.client.inflight.Exact

variable {env : Env} {s t : Session} {pk out : Packet} {id : UInt16}

theorem QuotaExact.of_inflight (h : s.QuotaExact) (hv : t.client.protocolVersion = s.client.protocolVersion)
    (hi : t.client.inflight.Exact) : t.QuotaExact := ⟨hv ▸ h.version, hi⟩

theorem QuotaExact.of_client (h : s.QuotaExact) (hc : t.client = s.client) : t.QuotaExact :=
  ⟨hc ▸ h.version, hc ▸ h.exact⟩

/-! ### Deferred messages -/

theorem QuotaExact.takeDeferred (h : s.QuotaExact) (hquota : 0 < s.client.inflight.sendQuota)
    (hpk : s.client.inflight.get pk.packetID = some pk) (hdef : pk.expiry = inflightExpiryDeferred) :
    (s.takeDeferred pk).QuotaExact := by
  have hidle : ¬ s.client.inflight.HeldAt pk.packetID := by
    rintro ⟨e, he, hholds⟩
    rw [hpk] at he
    cases he
    rw [holdsQuota_deferred hdef] at hholds
    cases hholds
  have hqos := h.exact.parked hpk hdef
  have hholds : ({ pk with expiry := 0 } : Packet).holdsQuota = true := by
    simp [Packet.holdsQuota, inflightExpiryDeferred, inflightExpiryReserved, hqos]
  exact h.of_inflight rfl (h.exact.take hquota hidle hholds)

theorem QuotaExact.deferAgain (h : s.QuotaExact) (hheld : s.client.inflight.HeldAt pk.packetID)
    (hqos : 0 < pk.fixedHeader.qos) : (s.deferAgain pk).QuotaExact :=
  h.of_inflight rfl (h.exact.giveBack hheld (holdsQuota_deferred rfl) fun _ => hqos)

theorem heldAt_takeDeferred (h : s.QuotaExact) (hpk : s.client.inflight.get pk.packetID = some pk)
    (hdef : pk.expiry = inflightExpiryDeferred) : (s.takeDeferred pk).client.inflight.HeldAt pk.packetID := by
  refine ⟨{ pk with expiry := 0 }, ?_, ?_⟩
  · show (s.client.inflight.put { pk with expiry := 0 }).get pk.packetID = _
    rw [get_put, if_pos rfl]
  · have hqos := h.exact.parked hpk hdef
    simp [Packet.holdsQuota, inflightExpiryDeferred, inflightExpiryReserved, hqos]

theorem QuotaExact.resumeLoop (h : s.QuotaExact) : (resumeLoop env s).2.QuotaExact := by
  refine resumeLoop_invariant ?_ ?_ h
  · intro s pk h hquota hpk hdef _ _ _
    exact h.takeDeferred hquota hpk hdef |>.of_client rfl
  · intro s pk h hquota hpk hdef
    have htaken := h.takeDeferred hquota hpk hdef
    have hheld := heldAt_takeDeferred h hpk hdef
    have hqos := h.exact.parked hpk hdef
    refine ⟨htaken.deferAgain hheld hqos, fun out err => ?_⟩
    have hfailed : ((s.takeDeferred pk).emit (.writeFailed out err)).QuotaExact := htaken.of_client rfl
    exact hfailed.deferAgain hheld hqos

theorem QuotaExact.resume_eq (h : s.QuotaExact) (env : Env) :
    s.resumeDeferredPublishes env = Session.resumeLoop env s := by
  have hrecover : (s.onInflight fun f => f.recoverStarvedSendQuota.2) = s := onInflight_of_eq h.exact.recover
  have hreset : ((Session.resumeLoop env s).2.onInflight fun f => f.resetSendQuotaIfEmpty.2) =
      (Session.resumeLoop env s).2 := onInflight_of_eq h.resumeLoop.exact.resetIfEmpty
  unfold resumeDeferredPublishes
  dsimp only
  rw [hrecover, hreset]

theorem QuotaExact.resume (h : s.QuotaExact) : (s.resumeDeferredPublishes env).2.QuotaExact := by
  rw [h.resume_eq]
  exact h.resumeLoop

/-! ### Outbound messages -/

def Plain (expiry : Int) : Prop := expiry ≠ inflightExpiryDeferred ∧ expiry ≠ inflightExpiryReserved

theorem holdsQuota_of_plain (hp : Plain pk.expiry) (hqos : 0 < pk.fixedHeader.qos) : pk.holdsQuota = true := by
  simp [Packet.holdsQuota, hp.1, hp.2, hqos]

theorem QuotaExact.dropStored (h : s.QuotaExact) (hheld : s.client.inflight.HeldAt id) :
    (s.dropStored id).QuotaExact := by
  obtain ⟨e, he, hholds⟩ := hheld
  rw [dropStored_of_get he]
  exact h.of_inflight rfl (h.exact.release ⟨e, he, hholds⟩)

theorem QuotaExact.enqueue (h : s.QuotaExact)
    (hheld : 0 < out.fixedHeader.qos → s.client.inflight.HeldAt out.packetID) :
    (s.enqueue pk out).2.QuotaExact := by
  refine enqueue_invariant (h.of_inflight rfl h.exact) h (h.of_client rfl) fun hqos u hclient hu => hu.dropStored ?_
  rw [hclient]
  exact hheld hqos

theorem QuotaExact.sendQos {r : Packet} (h : s.QuotaExact) (hget : s.client.inflight.get out.packetID = some r)
    (hr : r.expiry = inflightExpiryReserved) (hplain : Plain out.expiry) (hqos : 0 < out.fixedHeader.qos) :
    (s.sendQos env pk out).2.QuotaExact := by
  have hidle : ¬ s.client.inflight.HeldAt out.packetID := not_heldAt_of_reserved hget hr
  have hheld : out.holdsQuota = true := holdsQuota_of_plain hplain hqos
  obtain ⟨-, heq⟩ | ⟨hopen, quota, maximum, htaken, heq⟩ := sendQos_cases env pk hget hr
  · rw [heq]
    refine QuotaExact.resume (h.of_inflight rfl (h.exact.put ?_ fun _ => hqos))
    rw [holdsQuota_deferred rfl]
    exact any_holdsQuota_of_not_heldAt hidle
  · rw [heq]
    have hquota : 0 < s.client.inflight.sendQuota :=
      Int.not_le.mp fun hle => hopen ⟨h.version, h.exact.limited, hle⟩
    obtain ⟨rfl, rfl⟩ := htaken h.version
    rw [if_pos h.exact.limited]
    refine QuotaExact.enqueue (h.of_inflight rfl (h.exact.take hquota hidle hheld)) fun _ => ?_
    exact ⟨out, (get_put _ _ _).trans (if_pos rfl), hheld⟩

theorem QuotaExact.publishToClient {sub : Subscription} (h : s.QuotaExact) (hplain : Plain pk.expiry) :
    (s.publishToClient env sub pk).2.QuotaExact := by
  have hcases := publishToClient_cases env s sub pk
  generalize s.publishToClient env sub pk = result at hcases ⊢
  cases hcases with
  | own | unauthorized => exact h
  | exhausted => exact h.of_inflight rfl h.exact
  | @sent outbound j out _ hqos _ hfree _ _ hreserved hheader hexpiry =>
    have h' : (s.reserve env outbound j).QuotaExact := by
      refine h.of_inflight rfl (h.exact.put ?_ nofun)
      rw [show (reservation env.now (UInt16.ofNat j)).packetID = UInt16.ofNat j from rfl, hfree]
      exact (holdsQuota_reserved rfl).symm
    refine h'.sendQos hreserved rfl ?_ ?_
    · rw [hexpiry]
      exact hplain
    · rw [hheader]
      exact hqos
  | @queued outbound _ hqos =>
    have h' : (s.withOutbound outbound).QuotaExact := h.of_inflight rfl h.exact
    exact h'.enqueue fun hpos => absurd hpos hqos

/-! ### PUBLISH -/

theorem QuotaExact.frame (h : s.QuotaExact) (hf : Frame s t)
    (hs : SameSend s.client.inflight t.client.inflight) : t.QuotaExact :=
  h.of_inflight hf.version (h.exact.same hs)

theorem QuotaExact.quiet (h : s.QuotaExact) (hq : Quiet s t) : t.QuotaExact := by
  refine h.frame hq.toFrame ?_
  rw [hq.inflight]
  exact .refl _

/-- The clock is not before the epoch, and the expiry of an acknowledgement is none of the marks. -/
structure ClockSafe (env : Env) (s : Session) : Prop where
  now : 0 ≤ env.now
  ack : Plain (env.now + s.server.caps.maximumMessageExpiryInterval)

/-- No expiry is one of the marks, and a message of QoS 2 does not replace an entry with quota. -/
structure PublishSafe (env : Env) (s : Session) (pk : Packet) : Prop where
  plain : Plain pk.expiry
  hook : ∀ q, env.onPublish (s.subject env pk) = .accept q → Plain q.expiry ∧ 0 ≤ q.created
  entry : ∀ q, Passes env s (s.subject env pk) q → q.fixedHeader.qos = 2 →
    s.client.inflight.HeldAt q.packetID → s.isBlocked q = true

theorem plain_of_nonneg {n : Int} (h : 0 ≤ n) : Plain n :=
  ⟨by unfold inflightExpiryDeferred; omega, by unfold inflightExpiryReserved; omega⟩

variable {q : Packet}

theorem expiry_of_passes {P : Int → Prop} (hnonneg : ∀ n, 0 ≤ n → P n) (hnow : 0 ≤ env.now) (hpk : P pk.expiry)
    (hhook : ∀ q, env.onPublish (s.subject env pk) = .accept q → P q.expiry ∧ 0 ≤ q.created)
    (hq : Passes env s (s.subject env pk) q) : P q.expiry ∧ 0 ≤ q.created := by
  have hsubject : P (s.subject env pk).expiry ∧ 0 ≤ (s.subject env pk).created := by
    obtain ⟨qos, -, hsub⟩ := subject_cases env s pk
    rw [hsub]
    refine ⟨?_, hnow⟩
    unfold stamp
    dsimp only
    split
    · exact hnonneg _ (by omega)
    · exact hpk
  unfold Passes at hq
  cases hv : env.onPublish (s.subject env pk) with
  | accept pkx =>
    rw [hv] at hq
    rw [hq]
    exact hhook _ hv
  | reject =>
    rw [hv] at hq
    exact hq.elim
  | ignore =>
    rw [hv] at hq
    rw [hq]
    exact hsubject
  | code c =>
    rw [hv] at hq
    rw [hq.2]
    exact hsubject
  | other =>
    rw [hv] at hq
    rw [hq]
    exact hsubject

theorem publishToSubscribers_cases {Inv : Session → Prop} {P : Int → Prop} (hnonneg : ∀ n, 0 ≤ n → P n)
    (hnow : 0 ≤ env.now) (hpk : P pk.expiry) (hcreated : 0 ≤ pk.created) (hforward : Inv (s.emit (.forward pk)))
    (hdeliver : ∀ (sub : Subscription) (p : Packet), env.subscription pk.topicName = some sub → P p.expiry →
      Inv ((s.emit (.forward pk)).publishToClient env sub p).2) :
    Inv (s.publishToSubscribers env pk) := by
  unfold Session.publishToSubscribers
  dsimp only
  split
  · exact hforward
  · split
    · rename_i sub hsub
      refine hdeliver sub _ ?_ ?_
      · rw [← hsub]
        refine congrArg env.subscription ?_
        split <;> split <;> rfl
      -- the creation time is filled in first, and the expiry counts from it
      split
      · split
        · rename_i hset
          refine hnonneg _ ?_
          dsimp only at hset ⊢
          omega
        · exact hpk
      · split
        · rename_i hset
          refine hnonneg _ ?_
          dsimp only at hset ⊢
          omega
        · exact hpk
    · exact hforward

theorem plain_of_passes (hclock : ClockSafe env s) (hsafe : PublishSafe env s pk)
    (hq : Passes env s (s.subject env pk) q) : Plain q.expiry ∧ 0 ≤ q.created :=
  expiry_of_passes (fun _ => plain_of_nonneg) hclock.now hsafe.plain hsafe.hook hq

theorem QuotaExact.publishToSubscribers (h : s.QuotaExact) (hnow : 0 ≤ env.now) (hplain : Plain pk.expiry)
    (hcreated : 0 ≤ pk.created) : (s.publishToSubscribers env pk).QuotaExact := by
  have hemit : (s.emit (.forward pk)).QuotaExact := h.of_client rfl
  exact publishToSubscribers_cases (fun _ => plain_of_nonneg) hnow hplain hcreated hemit
    fun _ _ _ hp => hemit.publishToClient hp

theorem QuotaExact.acknowledgePublish (h : s.QuotaExact) (hclock : ClockSafe env s)
    (hentry : pk.fixedHeader.qos = 2 → s.client.inflight.HeldAt pk.packetID → s.isBlocked pk = true) :
    (s.acknowledgePublish env pk).session.QuotaExact := by
  have hrecorded : s.isBlocked pk = false → (s.recorded env pk).Exact := by
    intro hfree
    unfold recorded
    split
    · rename_i hqos
      have hidle : ¬ s.client.inflight.HeldAt pk.packetID := by
        intro hheld
        rw [hentry hqos hheld] at hfree
        cases hfree
      refine h.exact.put ?_ ?_
      · rw [holdsQuota_qos_zero (publishAck_qos env s pk), publishAck_packetID]
        exact any_holdsQuota_of_not_heldAt hidle
      · rw [publishAck_expiry]
        exact fun hdef => absurd hdef hclock.ack.1
    · exact h.exact
  obtain ⟨-, err, t, hret, hframe, hsame⟩ | ⟨hfree, -, err, t, hret, hframe, hsame⟩ |
    ⟨hfree, t, hret, hframe, hsame⟩ := acknowledgePublish_cases env s pk
  · rw [hret]
    exact h.frame hframe hsame
  · rw [hret]
    exact h.of_inflight hframe.version ((hrecorded hfree).same hsame)
  · rw [hret]
    exact h.of_inflight hframe.version ((hrecorded hfree).same hsame)

theorem QuotaExact.retained (h : s.QuotaExact) : (s.retained pk).QuotaExact :=
  h.of_client (retained_cases s pk).1

theorem QuotaExact.receivePublish (h : s.QuotaExact) (hclock : ClockSafe env s) (hsafe : PublishSafe env s pk) :
    (s.receivePublish env pk).session.QuotaExact := by
  have hu : (s.aliased env pk).QuotaExact := by
    rw [aliased_eq]
    exact h.of_inflight rfl h.exact
  refine receivePublish_invariant (fun hquiet hv => hv.quiet hquiet) h hu fun q hpass => ?_
  obtain ⟨hclient, hcaps, -⟩ := retained_cases (s.aliased env pk) q
  rw [acceptPublish_eq]
  split
  · exact hu.retained
  · refine hu.retained.acknowledgePublish ⟨hclock.now, ?_⟩ fun hqos hheld => ?_
    · rw [hcaps, aliased_eq]
      exact hclock.ack
    · unfold isBlocked
      rw [hclient, aliased_eq] at hheld ⊢
      exact hsafe.entry q hpass hqos hheld

theorem passes_of_accepted (hret : s.receivePublish env pk = .accepted q t) : Passes env s (s.subject env pk) q := by
  obtain ⟨err, t', hret', -⟩ | ⟨-, q', hpass, hacc⟩ := receivePublish_cases env s pk
  · rw [hret'] at hret
    cases hret
  · rw [hret, acceptPublish_eq] at hacc
    split at hacc
    · cases hacc
      exact hpass
    · obtain ⟨-, _, _, hack, -⟩ | ⟨-, -, _, _, hack, -⟩ | ⟨-, _, hack, -⟩ :=
        acknowledgePublish_cases env ((s.aliased env pk).retained q') q'
      all_goals
        rw [hack] at hacc
        cases hacc
      exact hpass

theorem QuotaExact.processPublish (h : s.QuotaExact) (hclock : ClockSafe env s) (hsafe : PublishSafe env s pk) :
    (s.processPublish env pk).2.QuotaExact := by
  refine processPublish_invariant (P := QuotaExact) (h.receivePublish hclock hsafe) fun {q t} hret hreceived => ?_
  obtain ⟨hplain, hcreated⟩ := plain_of_passes hclock hsafe (passes_of_accepted hret)
  have hforwarded : (t.publishToSubscribers env q).QuotaExact :=
    hreceived.publishToSubscribers hclock.now hplain hcreated
  exact hforwarded.of_client rfl

/-! ### Acknowledgements -/

theorem QuotaExact.writePacket (h : s.QuotaExact) : (s.writePacket env pk).2.QuotaExact :=
  h.of_client (writePacket_client s env pk)

theorem QuotaExact.processPuback (h : s.QuotaExact)
    (hentry : ∀ e, s.client.inflight.get pk.packetID = some e →
      e.expiry = inflightExpiryReserved ∨ e.holdsQuota = true ∨ s.client.inflight.holding = 0) :
    (s.processPuback pk).2.QuotaExact := by
  unfold Session.processPuback
  cases hget : s.client.inflight.get pk.packetID with
  | none => exact h
  | some e =>
    dsimp only
    split
    · rename_i hres
      refine h.of_inflight rfl (h.exact.remove ?_)
      rintro ⟨e', he', hholds⟩
      rw [hget] at he'
      cases he'
      rw [holdsQuota_reserved hres] at hholds
      cases hholds
    · rename_i hres
      refine h.of_inflight rfl (h.exact.increase_remove ?_)
      rcases hentry e hget with hres' | hholds | hidle
      · exact absurd hres' hres
      · exact .inl ⟨e, hget, hholds⟩
      · exact .inr hidle

theorem QuotaExact.dropExchange {e : Packet} (h : s.QuotaExact)
    (hget : s.client.inflight.get pk.packetID = some e) (hold : e.holdsQuota = false) :
    (s.dropExchange pk e).QuotaExact := by
  refine h.of_inflight rfl (h.exact.remove ?_)
  rintro ⟨e', he', hholds⟩
  rw [hget] at he'
  cases he'
  rw [hold] at hholds
  cases hholds

theorem QuotaExact.processPubrec (h : s.QuotaExact) (hclock : ClockSafe env s)
    (hentry : ∀ e, s.client.inflight.get pk.packetID = some e → e.holdsQuota = !pk.endsFlow) :
    (s.processPubrec env pk).2.QuotaExact := by
  have hcases := processPubrec_cases env s pk
  generalize s.processPubrec env pk = result at hcases ⊢
  cases hcases with
  | unknown => exact h.writePacket
  | dropped hget hends =>
    have hold := hentry _ hget
    rw [hends] at hold
    exact h.dropExchange hget hold
  | @released e ack hget hends hid hheader hexpiry =>
    have hold := hentry e hget
    rw [hends] at hold
    have hplain : Plain ack.expiry := by
      rw [hexpiry]
      exact hclock.ack
    -- the PUBREL takes over the unit that the message held
    have hpubrel : ack.holdsQuota = true := by
      refine holdsQuota_of_plain hplain ?_
      rw [hheader]
      decide
    have hsame := s.client.inflight.sameSend_decreaseReceiveQuota
    refine QuotaExact.writePacket (h.of_inflight rfl ((h.exact.same hsame).put ?_ ?_))
    · rw [hpubrel, hid, hsame.get, hget]
      exact hold
    · exact fun hdef => absurd hdef hplain.1

theorem QuotaExact.processPubrel (h : s.QuotaExact)
    (hentry : ∀ e, s.client.inflight.get pk.packetID = some e →
      if pk.endsFlow then e.holdsQuota = false
      else ¬ Fails env s (s.completion env pk e) ∧ (e.holdsQuota = true ∨ s.client.inflight.holding = 0)) :
    (s.processPubrel env pk).2.QuotaExact := by
  have hcases := processPubrel_cases env s pk
  generalize s.processPubrel env pk = result at hcases ⊢
  cases hcases with
  | unknown => exact h.writePacket
  | dropped hget hends =>
    have hold := hentry _ hget
    rw [if_pos hends] at hold
    exact h.dropExchange hget hold
  | @unwritten e ack err t hget hends hack _ _ _ hw =>
    have hold := hentry e hget
    rw [hends, if_neg Bool.false_ne_true, ← hack] at hold
    have hfails : Fails env (s.onInflight fun f => f.put ack) ack := writePacket_fails hw
    exact absurd hfails hold.1
  | @completed e ack t hget hends hid _ _ hw =>
    have hold := hentry e hget
    rw [hends, if_neg Bool.false_ne_true] at hold
    replace hold := hold.2
    have hclient := writePacket_client (s.onInflight fun f => f.put ack) env ack
    rw [hw] at hclient
    dsimp only at hclient
    refine h.of_inflight ?_ ?_
    · show t.client.protocolVersion = _
      rw [hclient]
      rfl
    · show (t.client.inflight.increaseReceiveQuota.2.increaseSendQuota.2.remove pk.packetID).Exact
      -- the stored PUBCOMP goes with the entry that it replaced
      have hsame := (s.client.inflight.put ack).sameSend_increaseReceiveQuota.remove ack.packetID
      have hexact := h.exact.increase_remove (hold.imp_left fun hholds => ⟨e, hget, hholds⟩)
      rw [increaseSendQuota_remove, hclient, ← hid]
      refine Exact.same ?_ hsame.increaseSendQuota
      rw [remove_put, hid]
      exact hexact

theorem QuotaExact.processPubcomp (h : s.QuotaExact)
    (hentry : s.client.inflight.HeldAt pk.packetID ∨ s.client.inflight.holding = 0) :
    (s.processPubcomp pk).2.QuotaExact := by
  have hsame := s.client.inflight.sameSend_increaseReceiveQuota
  have hget : s.client.inflight.increaseReceiveQuota.2.increaseSendQuota.2.get pk.packetID =
      s.client.inflight.get pk.packetID := by
    rw [get_increaseSendQuota, hsame.get]
  unfold Session.processPubcomp
  dsimp only [onInflight_client]
  rw [hget]
  cases hentry' : s.client.inflight.get pk.packetID with
  | none =>
    have hidle : s.client.inflight.holding = 0 := by
      refine hentry.resolve_left ?_
      rintro ⟨e, he, -⟩
      rw [hentry'] at he
      cases he
    refine h.of_inflight rfl (h.exact.same ?_)
    have hincreased := hsame.increaseSendQuota
    rw [h.exact.increase_idle hidle] at hincreased
    exact hincreased
  | some e =>
    refine h.of_inflight rfl ?_
    show (s.client.inflight.increaseReceiveQuota.2.increaseSendQuota.2.remove pk.packetID).Exact
    rw [increaseSendQuota_remove]
    exact (h.exact.increase_remove hentry).same (hsame.remove pk.packetID).increaseSendQuota

/-! ### Expiry -/

theorem QuotaExact.clearExpiredInflights {now maximumExpiry : Int} (h : s.QuotaExact) :
    (s.clearExpiredInflights env now maximumExpiry).2.QuotaExact := by
  refine clearExpiredInflights_invariant (fun {s tk} h hget hdef hres _ => ?_) h
  unfold swept
  by_cases hqos : tk.fixedHeader.qos > 0
  · simp only [if_pos hqos]
    exact h.of_inflight rfl (h.exact.release ⟨tk, hget, holdsQuota_of_plain ⟨hdef, hres⟩ hqos⟩)
  · simp only [if_neg hqos]
    refine h.of_inflight rfl (h.exact.remove ?_)
    rintro ⟨e, he, hholds⟩
    rw [hget] at he
    cases he
    rw [holdsQuota_qos_zero (UInt8.le_zero_iff.mp (UInt8.not_lt.mp hqos))] at hholds
    cases hholds

/-! ### Runs -/

/-- The calls that change the inflight messages of a connection. `processPacket` is the handler of the
packet followed by `resume`. -/
inductive HandlerCall where
  | publishToClient (sub : Subscription) (pk : Packet)
  | publish (pk : Packet)
  | puback (pk : Packet)
  | pubrec (pk : Packet)
  | pubrel (pk : Packet)
  | pubcomp (pk : Packet)
  | pingreq
  | clearExpired (now maximumExpiry : Int)
  | resume

def HandlerCall.run (env : Env) (s : Session) : HandlerCall → Session
  | .publishToClient sub pk => (s.publishToClient env sub pk).2
  | .publish pk => (s.processPublish env pk).2
  | .puback pk => (s.processPuback pk).2
  | .pubrec pk => (s.processPubrec env pk).2
  | .pubrel pk => (s.processPubrel env pk).2
  | .pubcomp pk => (s.processPubcomp pk).2
  | .pingreq => (s.processPingreq env).2
  | .clearExpired now maximumExpiry => (s.clearExpiredInflights env now maximumExpiry).2
  | .resume => (s.resumeDeferredPublishes env).2

/-- The call meets the entry that it is for: one that gives a unit of quota back finds an entry that
holds one, or nothing holds any, and one that gives none back finds an entry without quota. The PUBCOMP
for a PUBREL can be written. -/
def HandlerCall.Matched (env : Env) (s : Session) : HandlerCall → Prop
  | .publishToClient _ pk => Plain pk.expiry
  | .publish pk => ClockSafe env s ∧ PublishSafe env s pk
  | .puback pk => ∀ e, s.client.inflight.get pk.packetID = some e →
      e.expiry = inflightExpiryReserved ∨ e.holdsQuota = true ∨ s.client.inflight.holding = 0
  | .pubrec pk => ClockSafe env s ∧
      ∀ e, s.client.inflight.get pk.packetID = some e → e.holdsQuota = !pk.endsFlow
  | .pubrel pk => ∀ e, s.client.inflight.get pk.packetID = some e →
      if pk.endsFlow then e.holdsQuota = false
      else ¬ Fails env s (s.completion env pk e) ∧ (e.holdsQuota = true ∨ s.client.inflight.holding = 0)
  | .pubcomp pk => s.client.inflight.HeldAt pk.packetID ∨ s.client.inflight.holding = 0
  | .pingreq => True
  | .clearExpired _ _ => True
  | .resume => True

theorem QuotaExact.run {call : HandlerCall} (h : s.QuotaExact) (hm : call.Matched env s) :
    (call.run env s).QuotaExact := by
  cases call with
  | publishToClient sub pk => exact h.publishToClient hm
  | publish pk => exact h.processPublish hm.1 hm.2
  | puback pk => exact h.processPuback hm
  | pubrec pk => exact h.processPubrec hm.1 hm.2
  | pubrel pk => exact h.processPubrel hm
  | pubcomp pk => exact h.processPubcomp hm
  | pingreq => exact h.writePacket
  | clearExpired now maximumExpiry => exact h.clearExpiredInflights
  | resume => exact h.resume

def HandlerCall.Step (s : Session) (call : Env × HandlerCall) (t : Session) : Prop := t = call.2.run call.1 s

/-- In every run of calls that meet the entries they are for, the send quota is the maximum less the
entries that hold quota, which is what `Clone` recomputes. -/
theorem sendQuota_exact_of_matched (hs : s.QuotaExact)
    (hr : Runs.Reach HandlerCall.Step (fun u call => call.2.Matched call.1 u) s t) :
    t.client.inflight.sendQuota = t.client.inflight.maximumSendQuota - t.client.inflight.holding ∧
      t.client.inflight.sendQuota = t.client.inflight.clone.sendQuota := by
  have ht : t.QuotaExact := by
    refine hr.invariant hs ?_
    intro u call v hu hm hstep
    rw [hstep]
    exact hu.run hm
  have hbal := ht.exact.balance
  have hlim := ht.exact.limited
  have hnn := ht.exact.nonneg
  refine ⟨by omega, ?_⟩
  unfold Inflight.clone
  dsimp only
  rw [if_pos hlim]
  omega

def twoUnits : Session :=
  ({ client := { protocolVersion := 5 } } : Session).onInflight fun f => f.resetSendQuota 2

def message : Packet := { fixedHeader := { type := .publish, qos := 2 }, topicName := [97], payload := [1] }

def exchanging : Session :=
  ({ client := { protocolVersion := 5, inflight := Inflight.new.resetReceiveQuota 2 } } : Session).onInflight
    fun f => f.resetSendQuota 2

def inboundMessage : Packet := { message with packetID := 7 }

/-- The client publishes a message and completes the exchange, and then a message is sent to it. -/
def bothDirections : List HandlerCall :=
  [.publish inboundMessage, .pubrel { packetID := 7 }, .publishToClient { filter := [97], qos := 2 } message]

theorem sendQuota_exact_of_delivery :
    (bothDirections.foldl (fun s call => call.run (.encoding 100) s) exchanging).client.inflight.sendQuota =
      (bothDirections.foldl (fun s call => call.run (.encoding 100) s)
        exchanging).client.inflight.clone.sendQuota := by
  have hpublish : PublishSafe (.encoding 100) exchanging inboundMessage := by
    refine ⟨⟨by decide, by decide⟩, fun q hq => ?_, fun q _ _ hheld => ?_⟩
    · cases hq
      exact ⟨⟨by decide, by decide⟩, by decide⟩
    · obtain ⟨e, he, -⟩ := hheld
      have hnone : exchanging.client.inflight.get q.packetID = none := rfl
      rw [hnone] at he
      cases he
  have hpubrel : (HandlerCall.pubrel { packetID := 7 }).Matched (.encoding 100)
      ((HandlerCall.publish inboundMessage).run (.encoding 100) exchanging) := by
    intro e he
    cases he
    exact ⟨by decide +kernel, .inr (by decide +kernel)⟩
  have hexact : exchanging.QuotaExact :=
    ⟨by decide, by decide, by decide +kernel, by decide, fun he => by cases he⟩
  refine (sendQuota_exact_of_matched hexact (Runs.Reach.replay HandlerCall.run (.encoding 100) bothDirections ?_)).2
  exact ⟨⟨⟨⟨by decide, by decide, by decide⟩, hpublish⟩, rfl⟩, ⟨hpubrel, rfl⟩, ⟨⟨by decide, by decide⟩, rfl⟩, trivial⟩

/-- A client refuses a message of QoS 2: the entry goes and its unit of quota is lost. -/
theorem sendQuota_lost_on_refusal :
    let s := (HandlerCall.publishToClient { filter := [97], qos := 2 } message).run (.accepting 100) twoUnits
    let t := (HandlerCall.pubrec { packetID := 1, reasonCode := 0x80 }).run (.accepting 100) s
    t.client.inflight.maximumSendQuota = 2 ∧ t.client.inflight.sendQuota = 1 ∧ t.client.inflight.holding = 0 := by
  decide +kernel

end Session
end Mqtt
