import Mathlib.Data.List.ReduceOption
import MqttBroker.Library.Lanes
import MqttBroker.Session.Drain
import MqttBroker.Session.Persisted

/-! The order in which the messages for a client are transmitted. A message goes
through the outbound queue, or it is parked until there is send quota and then written
at once, past the queue. Among the parked ones the server takes the one with the
lowest creation time, in seconds and in sixteen bits. -/

namespace Mqtt
open FiniteMap
namespace Session
open Inflight

def isTransmission : Event → Bool
  | .wrote pk _ => pk.fixedHeader.type == .publish && decide (0 < pk.fixedHeader.qos)
  | _ => false

structure Rests (s t : Session) : Prop where
  queue : t.client.queue = s.client.queue
  log : ∃ es, t.log = s.log ++ es ∧ ∀ e ∈ es, isTransmission e = false
  deferred : ∀ id e, t.client.inflight.get id = some e → e.expiry = inflightExpiryDeferred →
    s.client.inflight.get id = some e

variable {env : Env} {s t u : Session} {pk out : Packet} {sub : Subscription}

theorem Rests.refl (s : Session) : Rests s s :=
  ⟨rfl, ⟨[], (List.append_nil _).symm, fun _ h => absurd h List.not_mem_nil⟩, fun _ _ h _ => h⟩

theorem Rests.trans (h : Rests s t) (h' : Rests t u) : Rests s u := by
  obtain ⟨es, hes, hnone⟩ := h.log
  obtain ⟨es', hes', hnone'⟩ := h'.log
  refine ⟨h'.queue.trans h.queue, ⟨es ++ es', by rw [hes', hes, List.append_assoc], fun e he => ?_⟩,
    fun id e he hdef => h.deferred id e (h'.deferred id e he hdef) hdef⟩
  rcases List.mem_append.mp he with he | he
  · exact hnone e he
  · exact hnone' e he

theorem Rests.log_le (h : Rests s t) : s.log <+: t.log := by
  obtain ⟨es, hes, -⟩ := h.log
  exact ⟨es, hes.symm⟩

theorem rests_emit {e : Event} (he : isTransmission e = false) : Rests s (s.emit e) :=
  ⟨rfl, ⟨[e], rfl, fun _ h => List.mem_singleton.mp h ▸ he⟩, fun _ _ h _ => h⟩

theorem rests_of_eq (hqueue : t.client.queue = s.client.queue) (hinflight : t.client.inflight = s.client.inflight)
    (hlog : t.log = s.log) : Rests s t := by
  refine ⟨hqueue, ⟨[], by rw [hlog, List.append_nil], fun _ h => absurd h List.not_mem_nil⟩, fun id e he _ => ?_⟩
  rw [hinflight] at he
  exact he

theorem rests_onInflight {f : Inflight → Inflight}
    (hf : ∀ id e, (f s.client.inflight).get id = some e → e.expiry = inflightExpiryDeferred →
      s.client.inflight.get id = some e) : Rests s (s.onInflight f) :=
  ⟨rfl, ⟨[], (List.append_nil _).symm, fun _ h => absurd h List.not_mem_nil⟩, hf⟩

theorem rests_countInflight (n : Int) : Rests s (s.countInflight n) := rests_of_eq rfl rfl rfl

variable {g : Inflight → Inflight} {outbound : OutboundTopicAliases}

theorem rests_remove (id : UInt16) (hg : ∀ f i, (g f).get i = f.get i) :
    Rests s (s.onInflight fun f => g (f.remove id)) := by
  refine rests_onInflight fun i e he _ => ?_
  rw [hg, Inflight.get_remove] at he
  split at he
  · cases he
  · exact he

theorem rests_put (hg : ∀ f i, (g f).get i = f.get i)
    (hpk : pk.expiry ≠ inflightExpiryDeferred) : Rests s (s.onInflight fun f => (g f).put pk) := by
  refine rests_onInflight fun i e he hdef => ?_
  rw [Inflight.get_put, hg] at he
  split at he
  · cases he
    exact absurd hdef hpk
  · exact he

theorem rests_dropStored (id : UInt16) : Rests s (s.dropStored id) := by
  unfold dropStored
  split
  · exact (rests_remove id Inflight.get_increaseSendQuota).trans (rests_countInflight _)
  · exact .refl s

theorem enqueue_rests (s : Session) (pk out : Packet) :
    (∃ err t, s.enqueue pk out = (some err, t) ∧ Rests s t) ∨
      s.enqueue pk out =
        (none, { s with client := { s.client with queue := s.client.queue ++ [⟨out, pk.topicName⟩] } }) := by
  have hrefused : ∀ u, u = s ∨ u = s.dropMessage pk → Rests s u := by
    rintro u (rfl | rfl)
    · exact .refl _
    · exact ⟨rfl, ⟨[_], rfl, fun _ h => List.mem_singleton.mp h ▸ rfl⟩, fun _ _ h _ => h⟩
  obtain ⟨-, heq⟩ | ⟨-, err, u, hu, ⟨-, heq⟩ | ⟨-, heq⟩⟩ := s.enqueue_cases pk out
  · exact .inr heq
  · exact .inl ⟨err, _, heq, (hrefused u hu).trans (rests_dropStored _)⟩
  · exact .inl ⟨err, u, heq, hrefused u hu⟩

theorem recoverStarved_cases {f : Inflight} (h : 0 < f.recoverStarvedSendQuota.2.sendQuota) :
    0 < f.sendQuota ∨ ∀ id e, f.get id = some e → e.expiry = inflightExpiryDeferred := by
  unfold Inflight.recoverStarvedSendQuota at h
  split at h
  · exact .inl h
  · split at h
    · exact .inl h
    · rename_i hall
      refine .inr fun id e he => ?_
      by_contra hne
      refine hall (List.any_eq_true.mpr ⟨e, f.mem_values_iff_get.mpr ?_, bne_iff_ne.mpr hne⟩)
      rw [f.packetID_of_get he]
      exact he

theorem Frame.rests (h : Frame s t) (hdef : ∀ id e, t.client.inflight.get id = some e →
    e.expiry = inflightExpiryDeferred → s.client.inflight.get id = some e) : Rests s t := by
  have hqueue : t.client.queue = s.client.queue := by
    obtain ⟨_, _, _, _, _, _, -, rfl⟩ := h
    rfl
  obtain ⟨es, hes, hinert⟩ := h.log
  refine ⟨hqueue, ⟨es, hes, fun e he => ?_⟩, hdef⟩
  have hquiet := hinert e he
  unfold inert at hquiet
  unfold isTransmission
  split
  · rw [Bool.and_eq_false_imp]
    exact fun htype => absurd (beq_iff_eq.mp htype) (bne_iff_ne.mp hquiet)
  · rfl

theorem Quiet.rests (h : Quiet s t) : Rests s t :=
  h.toFrame.rests fun _ _ he _ => h.inflight ▸ he

theorem rests_recover : Rests s (s.onInflight fun f => f.recoverStarvedSendQuota.2) :=
  rests_onInflight fun id _ he _ => (get_recoverStarvedSendQuota _ id).symm.trans he

theorem rests_reset : Rests s (s.onInflight fun f => f.resetSendQuotaIfEmpty.2) :=
  rests_onInflight fun id _ he _ => (get_resetSendQuotaIfEmpty _ id).symm.trans he

theorem rests_deferAgain (hpk : s.client.inflight.get pk.packetID = some pk)
    (hdef : pk.expiry = inflightExpiryDeferred) (hinflight : t.client.inflight = (s.takeDeferred pk).client.inflight)
    (ht : Rests (s.onInflight fun _ => t.client.inflight) t) : Rests s (t.deferAgain { pk with expiry := 0 }) := by
  have hsame : ({ ({ pk with expiry := 0 } : Packet) with expiry := inflightExpiryDeferred } : Packet) = pk := by
    rw [← hdef]
  refine ⟨ht.queue, ht.log, fun id e he _ => ?_⟩
  change ((t.client.inflight.put { ({ pk with expiry := 0 } : Packet) with
    expiry := inflightExpiryDeferred }).increaseSendQuota.2).get id = some e at he
  rw [get_increaseSendQuota, hsame, get_put, hinflight] at he
  split at he
  · rename_i hid
    cases he
    rw [hid]
    exact hpk
  · rename_i hid
    exact ((get_put _ { pk with expiry := 0 } _).trans (if_neg hid)).symm.trans he

/-! ### Handlers -/

section Handlers
variable (hack : env.now + s.server.caps.maximumMessageExpiryInterval ≠ inflightExpiryDeferred)

theorem rests_dropExchange (e : Packet) : Rests s (s.dropExchange pk e) :=
  ((rests_remove (g := id) pk.packetID fun _ _ => rfl).trans (rests_countInflight _)).trans (rests_emit rfl)

theorem rests_processPuback : Rests s (s.processPuback pk).2 := by
  refine frame_processPuback.rests fun id e he _ => ?_
  rw [get_processPuback] at he
  exact (Option.ite_none_left_eq_some.mp he).2

theorem rests_processPubcomp : Rests s (s.processPubcomp pk).2 := by
  refine frame_processPubcomp.rests fun id e he _ => ?_
  rw [get_processPubcomp] at he
  exact (Option.ite_none_left_eq_some.mp he).2

include hack

theorem rests_processPubrec : Rests s (s.processPubrec env pk).2 := by
  apply processPubrec_invariant
  · exact fun htype hu => hu.trans (quiet_writePacket env _ htype).rests
  · exact fun _ => rests_dropExchange _
  · exact fun _ _ _ hexpiry => rests_put (fun f i => (sameSend_decreaseReceiveQuota f).get i) (hexpiry ▸ hack)
  · exact .refl s

theorem rests_processPubrel : Rests s (s.processPubrel env pk).2 := by
  apply processPubrel_invariant
  · exact fun htype hu => hu.trans (quiet_writePacket env _ htype).rests
  · exact fun _ => rests_dropExchange _
  · exact fun _ _ _ hexpiry => rests_put (g := id) (fun _ _ => rfl) (hexpiry ▸ hack)
  · intro e ack t ht _ _ _
    have hremoved : Rests t (t.onInflight fun f =>
        f.increaseReceiveQuota.2.increaseSendQuota.2.remove pk.packetID) := by
      refine rests_onInflight fun i p hp _ => ?_
      rw [get_remove, get_increaseSendQuota, (sameSend_increaseReceiveQuota _).get] at hp
      exact (Option.ite_none_left_eq_some.mp hp).2
    exact ((ht.trans hremoved).trans (rests_countInflight _)).trans (rests_emit rfl)
  · exact .refl s

theorem rests_acceptPublish (q : Packet) : Rests s (s.acceptPublish env q).session := by
  obtain ⟨hclient, hcaps, hlog⟩ := retained_cases s q
  have hretained : Rests s (s.retained q) := by
    refine ⟨by rw [hclient], ?_, fun id e he _ => hclient ▸ he⟩
    rcases hlog with hlog | hlog
    · exact ⟨[], by rw [hlog, List.append_nil], fun _ h => absurd h List.not_mem_nil⟩
    · exact ⟨_, hlog, fun e he => List.mem_singleton.mp he ▸ rfl⟩
  have hrecorded : ∀ {t : Session}, Frame (s.retained q) t →
      SameSend ((s.retained q).recorded env q) t.client.inflight → Rests (s.retained q) t := by
    intro t hframe hsame
    refine hframe.rests fun id e he hdef => ?_
    rw [hsame.get] at he
    unfold recorded at he
    split at he
    · rw [get_put] at he
      split at he
      · cases he
        rw [publishAck_expiry, hcaps] at hdef
        exact absurd hdef hack
      · exact he
    · exact he
  obtain ⟨-, _, t, hret, hframe, hsame⟩ | ⟨-, -, -, _, t, hret, hframe, hsame⟩ | ⟨-, hret⟩ |
    ⟨-, -, t, hret, hframe, hsame⟩ := acceptPublish_cases env s q
  · rw [hret]
    exact hretained.trans (hframe.rests fun id e he _ => (hsame.get id).symm.trans he)
  · rw [hret]
    exact hretained.trans (hrecorded hframe hsame)
  · rw [hret]
    exact hretained
  · rw [hret]
    exact hretained.trans (hrecorded hframe hsame)

theorem rests_receivePublish : Rests s (s.receivePublish env pk).session := by
  have haliased : Rests s (s.aliased env pk) := by
    rw [aliased_eq]
    exact rests_of_eq rfl rfl rfl
  refine receivePublish_invariant (fun hquiet hv => hv.trans hquiet.rests) (.refl s) haliased fun q _ => ?_
  refine haliased.trans (rests_acceptPublish ?_ q)
  rw [aliased_eq]
  exact hack

end Handlers

theorem get_reserve {j : Nat} {i : UInt16} (hi : i ≠ UInt16.ofNat j) :
    (s.reserve env outbound j).client.inflight.get i = s.client.inflight.get i :=
  (get_put _ _ _).trans (if_neg hi)

theorem rests_reserve {j : Nat} : Rests s (s.reserve env outbound j) := by
  have hpk : (reservation env.now (UInt16.ofNat j)).expiry ≠ inflightExpiryDeferred :=
    show inflightExpiryReserved ≠ inflightExpiryDeferred by decide
  exact (rests_put (s := s) (g := id) (fun _ _ => rfl) hpk).trans (rests_of_eq rfl rfl rfl)

inductive Places (env : Env) (s : Session) (sub : Subscription) (pk : Packet) : Option Error × Session → Prop
  | refused {err : Error} {t : Session} (ht : Rests s t) : Places env s sub pk (some err, t)
  | own (hlocal : s.isLocal sub pk = true) : Places env s sub pk (none, s)
  | queued {t : Session} {q : Queued} (hlocal : s.isLocal sub pk = false) (ht : Rests s t)
      (hqos : q.packet.fixedHeader.qos = (s.prepare sub pk).1.fixedHeader.qos)
      (hparks : 0 < q.packet.fixedHeader.qos → ¬ s.Parks) :
      Places env s sub pk (none, { t with client := { t.client with queue := t.client.queue ++ [q] } })
  | parked {outbound : OutboundTopicAliases} {j : Nat} {out : Packet} (hlocal : s.isLocal sub pk = false)
      (hqos : 0 < (s.prepare sub pk).1.fixedHeader.qos) (hparks : s.Parks)
      (hfree : s.client.inflight.get (UInt16.ofNat j) = none) (hid : out.packetID = UInt16.ofNat j)
      (hcreated : out.created = pk.created) :
      Places env s sub pk (none, (((s.reserve env outbound j).park out).resumeDeferredPublishes env).2)

theorem places_enqueue (hlocal : s.isLocal sub pk = false) (ht : Rests s t)
    (hqos : out.fixedHeader.qos = (s.prepare sub pk).1.fixedHeader.qos)
    (hparks : 0 < out.fixedHeader.qos → ¬ s.Parks) : Places env s sub pk (t.enqueue pk out) := by
  obtain ⟨err, u, hfailed, hu⟩ | hqueued := enqueue_rests t pk out
  · rw [hfailed]
    exact .refused (ht.trans hu)
  · rw [hqueued]
    exact .queued hlocal ht hqos hparks

theorem places_publishToClient (hexpiry : 0 < (s.prepare sub pk).1.fixedHeader.qos →
    pk.expiry ≠ inflightExpiryDeferred) : Places env s sub pk (s.publishToClient env sub pk) := by
  have hcases := publishToClient_cases env s sub pk
  generalize s.publishToClient env sub pk = result at hcases ⊢
  cases hcases with
  | own hlocal => exact .own hlocal
  | unauthorized => exact .refused (.refl s)
  | @exhausted outbound =>
    have haliased : Rests s (s.withOutbound outbound) := rests_of_eq rfl rfl rfl
    exact .refused (haliased.trans ((rests_emit rfl).trans (rests_of_eq rfl rfl rfl)))
  | @sent outbound j out hlocal hqos _ hfree hout hid hreserved hheader hexp =>
    have hsame : out.fixedHeader.qos = (s.prepare sub pk).1.fixedHeader.qos := by rw [hheader]
    obtain ⟨hparks, hsend⟩ | ⟨hparks, quota, maximum, -, hsend⟩ := sendQos_cases env pk hreserved rfl
    · rw [hsend]
      refine .parked hlocal hqos hparks hfree hid ?_
      rw [hout, Packet.fillFrom_created]
      exact prepare_created s sub pk
    · have hkept : out.expiry ≠ inflightExpiryDeferred := by
        rw [hexp]
        exact hexpiry hqos
      have hstored : Rests (s.reserve env outbound j) ((s.reserve env outbound j).onInflight fun f =>
          { f.put out with sendQuota := quota, maximumSendQuota := maximum }) := by
        refine rests_onInflight fun id e he hdef => ?_
        have he' : ((s.reserve env outbound j).client.inflight.put out).get id = some e := he
        rw [get_put] at he'
        split at he'
        · cases he'
          exact absurd hdef hkept
        · exact he'
      rw [hsend]
      refine places_enqueue hlocal ?_ hsame fun _ => hparks
      exact ((rests_reserve.trans hstored).trans (rests_countInflight 1)).trans (rests_emit rfl)
  | @queued outbound hlocal hqos =>
    exact places_enqueue hlocal (rests_of_eq rfl rfl rfl) rfl fun hpos => absurd hpos hqos

end Session

/-- A connection with a history: the messages of QoS 1 and 2 are numbered as they are accepted. The write loop has a
packet in its hand between taking it from the queue and writing it. The numbers stand beside the packets in the queue
and in the hand, and for each packet id there is the number of the message that was last parked under it. -/
structure Sequence where
  session : Session
  hand : Option (Queued × Option Nat) := none
  queued : List (Option Nat) := []
  parked : UInt16 → Option Nat := fun _ => none
  count : Nat := 0
  sent : List Nat := []

namespace Sequence
open Session Inflight

def number (x : Sequence) : Event → Option Nat
  | .wrote pk _ => if pk.fixedHeader.type = .publish ∧ 0 < pk.fixedHeader.qos then x.parked pk.packetID else none
  | _ => none

def observe (x : Sequence) (s : Session) : Sequence :=
  { x with session := s, sent := x.sent ++ (s.log.drop x.session.log.length).filterMap x.number }

inductive Call where
  | publish (sub : Subscription) (pk : Packet)
  | resume
  | take
  | write
  | rest (t : Session)

/-- A message is given to `publishToClient`: it is refused or not for this client, queued, or parked under the id that
was chosen for it. -/
def publish (env : Env) (x : Sequence) (sub : Subscription) (pk : Packet) : Sequence :=
  let (err, s) := x.session.publishToClient env sub pk
  if err.isSome || x.session.isLocal sub pk then x.observe s
  else if (x.session.prepare sub pk).1.fixedHeader.qos = 0 then { x with queued := x.queued ++ [none] }.observe s
  else if s.client.queue.length = x.session.client.queue.length then
    { x with
      count := x.count + 1
      parked := Function.update x.parked (UInt16.ofNat s.client.packetID) (some x.count) }.observe s
  else { x with count := x.count + 1, queued := x.queued ++ [some x.count] }.observe s

def take (x : Sequence) : Sequence :=
  match x.hand, x.session.client.queue, x.queued with
  | none, q :: rest, n :: ns =>
    { x with
      session := { x.session with client := { x.session.client with queue := rest } }
      hand := some (q, n)
      queued := ns }
  | _, _, _ => x

def write (env : Env) (x : Sequence) : Sequence :=
  match x.hand with
  | none => x
  | some (q, n) =>
    let (err, s) := x.session.writePacketOn env q.topic q.packet
    { x with session := s, hand := none, sent := if err.isNone then x.sent ++ n.toList else x.sent }

def run (env : Env) (x : Sequence) : Call → Sequence
  | .publish sub pk => x.publish env sub pk
  | .resume => x.observe (x.session.resumeDeferredPublishes env).2
  | .take => x.take
  | .write => x.write env
  | .rest t => { x with session := t }

def Step (x : Sequence) (call : Env × Call) (y : Sequence) : Prop :=
  (match call.2 with
    | .rest t => Rests x.session t
    | _ => True) ∧ y = x.run call.1 call.2

/-- The message `n` is parked under an id. -/
structure IsParked (x : Sequence) (id : UInt16) (n : Nat) (e : Packet) : Prop where
  get : x.session.client.inflight.get id = some e
  deferred : e.expiry = inflightExpiryDeferred
  number : x.parked id = some n

def Idle (x : Sequence) : Prop :=
  (∀ q n, x.hand = some (q, n) → q.packet.fixedHeader.qos = 0) ∧
    ∀ q ∈ x.session.client.queue, q.packet.fixedHeader.qos = 0

/-- A message is queued only while none is parked. It is parked only if it was created in a later second, modulo
65536, than those that are parked. Parked messages are resumed only while the queue and the hand of the write loop are
idle. (No message has an expiry that is the mark of a parked one.) -/
def Patient (x : Sequence) : Env × Call → Prop
  | (_, .publish sub pk) => 0 < (x.session.prepare sub pk).1.fixedHeader.qos →
      pk.expiry ≠ inflightExpiryDeferred ∧
      (¬ x.session.Parks → ∀ id n e, ¬ x.IsParked id n e) ∧
      (x.session.Parks → (∀ id n e, x.IsParked id n e → e.created16 < pk.created16) ∧
        ((∀ id e, x.session.client.inflight.get id = some e → e.expiry = inflightExpiryDeferred) → x.Idle))
  | (_, .resume) => 0 < x.session.client.inflight.recoverStarvedSendQuota.2.sendQuota →
      (∃ id n e, x.IsParked id n e) → x.Idle
  | _ => True

def numbers (x : Sequence) : List Nat := (x.hand.bind Prod.snd).toList ++ x.queued.reduceOption

def lanes (x : Sequence) : Lanes.State where
  count := x.count
  gone := x.sent
  line := x.numbers
  aside := { n | ∃ id e, x.IsParked id n e }

structure Sorted (x : Sequence) : Prop where
  ordered : Lanes.Ordered x.lanes
  hand : ∀ q n, x.hand = some (q, some n) → 0 < q.packet.fixedHeader.qos
  queue : List.Forall₂ (fun n (q : Queued) => n.isSome = true → 0 < q.packet.fixedHeader.qos) x.queued
    x.session.client.queue
  created : ∀ {id id' n n' e e'}, x.IsParked id n e → x.IsParked id' n' e' → n < n' → e.created16 < e'.created16
  distinct : ∀ {id id' n e e'}, x.IsParked id n e → x.IsParked id' n e' → id = id'

variable {x y : Sequence} {env : Env} {s t : Session} {pk out : Packet} {sub : Subscription}

/-! ### Observed writes -/

theorem number_of_not_isTransmission {e : Event} (h : isTransmission e = false) : x.number e = none := by
  unfold isTransmission at h
  unfold number
  split
  · refine if_neg fun hsent => ?_
    simp [hsent.1, hsent.2] at h
  · rfl

theorem observe_of_log {es : List Event} (hlog : s.log = x.session.log ++ es) :
    x.observe s = { x with session := s, sent := x.sent ++ es.filterMap x.number } := by
  unfold observe
  rw [hlog, List.drop_left]

theorem observe_of_silent (h : ∃ es, s.log = x.session.log ++ es ∧ ∀ e ∈ es, isTransmission e = false) :
    x.observe s = { x with session := s } := by
  obtain ⟨es, hes, hnone⟩ := h
  have hnumbers : es.filterMap x.number = [] :=
    List.filterMap_eq_nil_iff.mpr fun e he => number_of_not_isTransmission (hnone e he)
  rw [observe_of_log hes, hnumbers, List.append_nil]

theorem observe_of_rests (h : Rests x.session s) : x.observe s = { x with session := s } := observe_of_silent h.log

theorem observe_observe (hs : x.session.log <+: s.log) (ht : s.log <+: t.log) :
    (x.observe s).observe t = x.observe t := by
  obtain ⟨es, hes⟩ := hs
  obtain ⟨es', hes'⟩ := ht
  have hall : t.log = x.session.log ++ (es ++ es') := by rw [← hes', ← hes, List.append_assoc]
  have hsnd : t.log = (x.observe s).session.log ++ es' := hes'.symm
  rw [observe_of_log hsnd, observe_of_log hall, observe_of_log hes.symm, List.filterMap_append, ← List.append_assoc]
  rfl

/-! ### Moves of messages -/

theorem numbers_of_idle (h : Sorted x) (hidle : x.Idle) : x.numbers = [] := by
  have hhand : x.hand.bind Prod.snd = none := by
    cases hx : x.hand with
    | none => rfl
    | some qn =>
      obtain ⟨q, n⟩ := qn
      cases n with
      | none => rfl
      | some n =>
        have hpos := h.hand q n hx
        rw [hidle.1 q _ hx] at hpos
        exact absurd hpos (by decide)
  have hqueued : x.queued.reduceOption = [] := by
    have hall : ∀ {ns : List (Option Nat)} {qs : List Queued},
        List.Forall₂ (fun n (q : Queued) => n.isSome = true → 0 < q.packet.fixedHeader.qos) ns qs →
        (∀ q ∈ qs, q.packet.fixedHeader.qos = 0) → ns.reduceOption = [] := by
      intro ns qs hforall hzero
      induction hforall with
      | nil => rfl
      | cons hn _ ih =>
        rename_i n q _ _ _
        have hnone : n = none := by
          by_contra hsome
          have hpos := hn (Option.isSome_iff_ne_none.mpr hsome)
          rw [hzero q List.mem_cons_self] at hpos
          exact absurd hpos (by decide)
        rw [hnone, List.reduceOption_cons_of_none]
        exact ih fun q hq => hzero q (List.mem_cons_of_mem _ hq)
    exact hall h.queue hidle.2
  unfold numbers
  rw [hhand, hqueued]
  rfl

theorem Sorted.of_parked (h : Sorted x) (hordered : Lanes.Ordered y.lanes)
    (hhand : ∀ q n, y.hand = some (q, some n) → 0 < q.packet.fixedHeader.qos)
    (hqueue : List.Forall₂ (fun n (q : Queued) => n.isSome = true → 0 < q.packet.fixedHeader.qos) y.queued
      y.session.client.queue)
    (hparked : ∀ {id n e}, y.IsParked id n e → x.IsParked id n e) : Sorted y :=
  ⟨hordered, hhand, hqueue, fun hp hp' => h.created (hparked hp) (hparked hp'), fun hp hp' =>
    h.distinct (hparked hp) (hparked hp')⟩

theorem IsParked.of_eq {id : UInt16} {n : Nat} {e : Packet} (h : x.IsParked id n e)
    (hinflight : y.session.client.inflight = x.session.client.inflight) (hparked : y.parked = x.parked) :
    y.IsParked id n e := by
  refine ⟨?_, h.deferred, ?_⟩
  · rw [hinflight]
    exact h.get
  · rw [hparked]
    exact h.number

theorem Sorted.rest (h : Sorted x) (ht : Rests x.session t) : Sorted { x with session := t } := by
  have hparked : ∀ {id n e}, IsParked { x with session := t } id n e → x.IsParked id n e :=
    fun hp => ⟨ht.deferred _ _ hp.get hp.deferred, hp.deferred, hp.number⟩
  refine h.of_parked (h.ordered.mono rfl (fun n ⟨id, e, hp⟩ => ⟨id, e, hparked hp⟩) (.refl _)) h.hand ?_ hparked
  show List.Forall₂ _ x.queued t.client.queue
  rw [ht.queue]
  exact h.queue

theorem Sorted.observe_rests (h : Sorted x) (ht : Rests x.session t) : Sorted (x.observe t) := by
  rw [observe_of_rests ht]
  exact h.rest ht

theorem numbers_take {q : Queued} {n : Option Nat} {ns : List (Option Nat)} (hhand : x.hand = none)
    (hqueued : x.queued = n :: ns) (s : Session) :
    numbers { x with session := s, hand := some (q, n), queued := ns } = x.numbers := by
  unfold numbers
  rw [hhand, hqueued]
  cases n <;> rfl

theorem Sorted.take (h : Sorted x) : Sorted x.take := by
  unfold Sequence.take
  split
  · rename_i q rest n ns hhand hqueue hqueued
    have hall := h.queue
    rw [hqueued, hqueue] at hall
    obtain ⟨hn, hrest⟩ := List.forall₂_cons.mp hall
    refine h.of_parked ?_ ?_ hrest fun hp => hp.of_eq rfl rfl
    · refine h.ordered.mono rfl (fun n ⟨id, e, hp⟩ => ⟨id, e, hp.of_eq rfl rfl⟩) ?_
      unfold lanes
      rw [numbers_take hhand hqueued]
    · intro q' n' heq
      cases heq
      exact hn rfl
  · exact h

theorem Sorted.write (h : Sorted x) : Sorted (x.write env) := by
  unfold Sequence.write
  split
  · exact h
  · rename_i q n hhand
    have hclient := writePacketOn_client x.session env q.topic q.packet
    generalize x.session.writePacketOn env q.topic q.packet = result at hclient
    obtain ⟨err, s⟩ := result
    dsimp only at hclient ⊢
    have hinflight : s.client.inflight = x.session.client.inflight := congrArg Client.inflight hclient
    have hline : x.lanes.line = n.toList ++ x.queued.reduceOption := by
      show (x.hand.bind Prod.snd).toList ++ _ = _
      rw [hhand]
      rfl
    refine h.of_parked ?_ (fun q n hnone => absurd hnone.symm (Option.some_ne_none _)) ?_
      fun hp => hp.of_eq hinflight.symm rfl
    · refine h.ordered.mono rfl (fun n ⟨id, e, hp⟩ => ⟨id, e, hp.of_eq hinflight.symm rfl⟩) ?_
      rw [hline]
      show ((if err.isNone then x.sent ++ n.toList else x.sent) ++ x.queued.reduceOption).Sublist (x.sent ++ _)
      split
      · rw [List.append_assoc]
      · exact (List.sublist_append_right _ _).append_left _
    · show List.Forall₂ _ x.queued s.client.queue
      rw [hclient]
      exact h.queue

/-! ### Resumed messages -/

structure Going (x : Sequence) (s : Session) : Prop where
  log : x.session.log <+: s.log
  queue : s.client.queue = x.session.client.queue
  parked : ∀ {id n e}, (x.observe s).IsParked id n e → x.IsParked id n e
  sorted : Sorted (x.observe s)

theorem Going.rests (h : Going x s) (ht : Rests s t) : Going x t := by
  have hobserve : x.observe t = { x.observe s with session := t } := by
    rw [← observe_observe h.log ht.log_le]
    exact observe_of_rests (x := x.observe s) ht
  refine ⟨h.log.trans ht.log_le, ht.queue.trans h.queue, fun hp => h.parked ?_, ?_⟩
  · exact ⟨ht.deferred _ _ hp.get hp.deferred, hp.deferred, hp.number⟩
  · rw [hobserve]
    exact h.sorted.rest ht

theorem Going.sent (h : Going x s) (hidle : (∃ id n e, x.IsParked id n e) → x.Idle)
    (hpk : s.client.inflight.get pk.packetID = some pk) (hdef : pk.expiry = inflightExpiryDeferred)
    (hold : ∀ id e, s.client.inflight.get id = some e → e.expiry = inflightExpiryDeferred →
      pk.created16 ≤ e.created16) {topic : Bytes} :
    Going x ((s.takeDeferred pk).emit (.wrote (s.outgoing env { pk with expiry := 0 }) topic)) := by
  generalize hout : s.outgoing env { pk with expiry := 0 } = out
  generalize ht : (s.takeDeferred pk).emit (.wrote out topic) = t
  have hid : out.packetID = pk.packetID := hout ▸ rfl
  have hlog : t.log = s.log ++ [.wrote out topic] := ht ▸ rfl
  have hqueue : t.client.queue = s.client.queue := ht ▸ rfl
  have hget : ∀ id, t.client.inflight.get id =
      if id = pk.packetID then some { pk with expiry := 0 } else s.client.inflight.get id :=
    ht ▸ fun id => get_put _ _ _
  have hobserve : x.observe t = { x.observe s with
      session := t, sent := (x.observe s).sent ++ ((x.observe s).number (.wrote out topic)).toList } := by
    rw [← observe_observe h.log ⟨_, hlog.symm⟩, observe_of_log (x := x.observe s) hlog]
    cases hn : (x.observe s).number (.wrote out topic) with
    | none => rw [List.filterMap_cons_none hn]; rfl
    | some n => rw [List.filterMap_cons_some hn]; rfl
  -- the message itself is not parked any more
  have hparked : ∀ {id n e}, (x.observe t).IsParked id n e → id ≠ pk.packetID ∧ (x.observe s).IsParked id n e := by
    intro id n e hp
    have hentry : t.client.inflight.get id = some e := hp.get
    rw [hget] at hentry
    split at hentry
    · cases hentry
      exact absurd hp.deferred (show (0 : Int) ≠ inflightExpiryDeferred by decide)
    · rename_i hne
      exact ⟨hne, hentry, hp.deferred, hp.number⟩
  refine ⟨h.log.trans ⟨_, hlog.symm⟩, hqueue.trans h.queue, fun hp => h.parked (hparked hp).2, ?_⟩
  refine h.sorted.of_parked ?_ h.sorted.hand ?_ fun hp => (hparked hp).2
  · cases hn : (x.observe s).number (.wrote out topic) with
    | none =>
      refine h.sorted.ordered.mono rfl (fun n ⟨id, e, hp⟩ => ⟨id, e, (hparked hp).2⟩) ?_
      rw [hn] at hobserve
      rw [hobserve]
      show (((x.observe s).sent ++ []) ++ (x.observe s).numbers).Sublist _
      rw [List.append_nil]
      rfl
    | some n =>
      have hnumber : (x.observe s).parked pk.packetID = some n := by
        change (if out.fixedHeader.type = .publish ∧ 0 < out.fixedHeader.qos then (x.observe s).parked out.packetID
          else none) = some n at hn
        split at hn
        · exact hid ▸ hn
        · cases hn
      have hself : (x.observe s).IsParked pk.packetID n pk := ⟨hpk, hdef, hnumber⟩
      have hline : (x.observe s).numbers = [] :=
        numbers_of_idle h.sorted ((hidle ⟨_, _, _, h.parked hself⟩).imp id fun hall q hq => hall q (h.queue ▸ hq))
      have hyoung : ∀ m ∈ (x.observe t).lanes.aside, n < m := by
        rintro m ⟨id, e, hp⟩
        obtain ⟨hne, hp⟩ := hparked hp
        rcases Nat.lt_trichotomy n m with hlt | rfl | hgt
        · exact hlt
        · exact absurd (h.sorted.distinct hp hself) hne
        · exact absurd (h.sorted.created hp hself hgt) (Nat.not_lt.mpr (hold id e hp.get hp.deferred))
      have hless : (x.observe t).lanes.aside ⊆ (x.observe s).lanes.aside :=
        fun m ⟨id, e, hp⟩ => ⟨id, e, (hparked hp).2⟩
      have hreleased := h.sorted.ordered.release hline ⟨_, _, hself⟩ hless hyoung
      rw [hn] at hobserve
      rw [hobserve] at hreleased ⊢
      exact hreleased
  · show List.Forall₂ _ x.queued t.client.queue
    rw [hqueue]
    exact h.sorted.queue

theorem Sorted.resume (h : Sorted x)
    (hidle : 0 < x.session.client.inflight.recoverStarvedSendQuota.2.sendQuota → (∃ id n e, x.IsParked id n e) →
      x.Idle) : Sorted (x.observe (x.session.resumeDeferredPublishes env).2) := by
  by_cases hquota : 0 < x.session.client.inflight.recoverStarvedSendQuota.2.sendQuota
  · have hstart : Going x x.session := by
      have hsame : x.observe x.session = x := observe_of_rests (.refl _)
      exact ⟨List.prefix_rfl, rfl, fun hp => hsame ▸ hp, hsame.symm ▸ h⟩
    have hgoing : Going x (x.session.resumeDeferredPublishes env).2 := by
      refine resume_invariant ?_ ?_ (fun hs => hs.rests rests_reset) (hstart.rests rests_recover)
      · exact fun hs _ hpk hdef hold _ _ => hs.sent (hidle hquota) hpk hdef hold
      · intro s pk hs _ hpk hdef
        exact ⟨hs.rests (rests_deferAgain hpk hdef rfl (.refl _)), fun out err =>
          hs.rests (rests_deferAgain hpk hdef rfl (rests_emit rfl))⟩
    exact hgoing.sorted
  · rw [resume_of_starved (Int.not_lt.mp hquota)]
    exact h.observe_rests (rests_recover.trans rests_reset)

/-! ### Accepted messages -/

def parkNext (x : Sequence) (s : Session) (id : UInt16) : Sequence :=
  { x with session := s, count := x.count + 1, parked := Function.update x.parked id (some x.count) }

section Park
variable {id : UInt16} (hget : ∀ i e, i ≠ id → s.client.inflight.get i = some e →
  e.expiry = inflightExpiryDeferred → x.session.client.inflight.get i = some e)
include hget

theorem IsParked.of_parkNext {i : UInt16} {n : Nat} {e : Packet} (h : (x.parkNext s id).IsParked i n e) :
    (i = id ∧ n = x.count ∧ s.client.inflight.get id = some e) ∨ x.IsParked i n e := by
  by_cases hi : i = id
  · subst hi
    have hnumber : Function.update x.parked i (some x.count) i = some n := h.number
    rw [Function.update_self] at hnumber
    exact .inl ⟨rfl, (Option.some.inj hnumber).symm, h.get⟩
  · have hnumber : Function.update x.parked id (some x.count) i = some n := h.number
    rw [Function.update_of_ne hi] at hnumber
    exact .inr ⟨hget i e hi h.get h.deferred, h.deferred, hnumber⟩

theorem Sorted.parkNext (h : Sorted x) (hqueue : s.client.queue = x.session.client.queue)
    (hnew : ∀ e, s.client.inflight.get id = some e → ∀ i n e', x.IsParked i n e' → e'.created16 < e.created16) :
    Sorted (x.parkNext s id) := by
  have hcount : ∀ {i n e}, x.IsParked i n e → n < x.count := fun hp => h.ordered.asideCounted _ ⟨_, _, hp⟩
  refine ⟨?_, h.hand, ?_, ?_, ?_⟩
  · refine h.ordered.setAside ?_
    rintro n ⟨i, e, hp⟩
    rcases hp.of_parkNext hget with ⟨-, hn, -⟩ | hp
    · exact .inl hn
    · exact .inr ⟨i, e, hp⟩
  · show List.Forall₂ _ x.queued s.client.queue
    rw [hqueue]
    exact h.queue
  · intro i i' n n' e e' hp hp' hlt
    rcases hp.of_parkNext hget with ⟨-, rfl, -⟩ | hp
    · rcases hp'.of_parkNext hget with ⟨-, rfl, -⟩ | hp'
      · exact absurd hlt (Nat.lt_irrefl _)
      · exact absurd hlt (Nat.lt_asymm (hcount hp'))
    · rcases hp'.of_parkNext hget with ⟨-, -, he'⟩ | hp'
      · exact hnew e' he' i n e hp
      · exact h.created hp hp' hlt
  · intro i i' n e e' hp hp'
    rcases hp.of_parkNext hget with ⟨rfl, rfl, -⟩ | hp
    · rcases hp'.of_parkNext hget with ⟨rfl, -, -⟩ | hp'
      · rfl
      · exact absurd (hcount hp') (Nat.lt_irrefl _)
    · rcases hp'.of_parkNext hget with ⟨-, rfl, -⟩ | hp'
      · exact absurd (hcount hp) (Nat.lt_irrefl _)
      · exact h.distinct hp hp'

end Park

def joinNext (x : Sequence) (s : Session) : Sequence :=
  { x with session := s, count := x.count + 1, queued := x.queued ++ [some x.count] }

def passNext (x : Sequence) (s : Session) : Sequence := { x with session := s, queued := x.queued ++ [none] }

section Queue
variable {q : Queued} (hqueue : s.client.queue = x.session.client.queue ++ [q])
  (hinflight : s.client.inflight = x.session.client.inflight)
include hqueue hinflight

theorem Sorted.joinNext (h : Sorted x) (hnone : ∀ id n e, ¬ x.IsParked id n e)
    (hq : 0 < q.packet.fixedHeader.qos) : Sorted (x.joinNext s) := by
  have hnone' : ∀ {id n e}, ¬ (x.joinNext s).IsParked id n e :=
    fun hp => hnone _ _ _ (hp.of_eq hinflight.symm rfl)
  refine ⟨?_, h.hand, ?_, fun hp => absurd hp hnone', fun hp => absurd hp hnone'⟩
  · refine h.ordered.join rfl rfl ?_ fun n ⟨id, e, hp⟩ => hnone' hp
    show (x.hand.bind Prod.snd).toList ++ (x.queued ++ [some x.count]).reduceOption = x.numbers ++ [x.count]
    rw [List.reduceOption_append, ← List.append_assoc]
    rfl
  · show List.Forall₂ _ (x.queued ++ [some x.count]) s.client.queue
    rw [hqueue]
    exact List.rel_append h.queue (.cons (fun _ => hq) .nil)

theorem Sorted.passNext (h : Sorted x) : Sorted (x.passNext s) := by
  have hparked : ∀ {id n e}, (x.passNext s).IsParked id n e → x.IsParked id n e :=
    fun hp => hp.of_eq hinflight.symm rfl
  refine h.of_parked ?_ h.hand ?_ hparked
  · refine h.ordered.mono rfl (fun n ⟨id, e, hp⟩ => ⟨id, e, hparked hp⟩) ?_
    show (x.sent ++ ((x.hand.bind Prod.snd).toList ++ (x.queued ++ [none]).reduceOption)).Sublist _
    rw [List.reduceOption_append]
    exact (List.append_nil x.queued.reduceOption).symm ▸ .refl _
  · show List.Forall₂ _ (x.queued ++ [none]) s.client.queue
    rw [hqueue]
    exact List.rel_append h.queue (.cons (fun hsome => absurd hsome (by decide)) .nil)

end Queue

theorem Sorted.park (h : Sorted x) {outbound : OutboundTopicAliases} {j : Nat} (hparks : x.session.Parks)
    (hfree : x.session.client.inflight.get (UInt16.ofNat j) = none) (hid : out.packetID = UInt16.ofNat j)
    (hnew : ∀ id n e, x.IsParked id n e → e.created16 < out.created16)
    (hidle : (∀ id e, x.session.client.inflight.get id = some e → e.expiry = inflightExpiryDeferred) → x.Idle) :
    Sorted ({ x with
      count := x.count + 1
      parked := Function.update x.parked (UInt16.ofNat j) (some x.count) }.observe
        (((x.session.reserve env outbound j).park out).resumeDeferredPublishes env).2) := by
  generalize ht : (x.session.reserve env outbound j).park out = t
  have hget : ∀ i, t.client.inflight.get i =
      if i = UInt16.ofNat j then some { out with expiry := inflightExpiryDeferred }
      else x.session.client.inflight.get i := by
    intro i
    rw [← ht, ← hid]
    refine (get_put _ _ i).trans ?_
    split
    · rfl
    · rename_i hne
      exact get_reserve (hid ▸ hne)
  have hqueue : t.client.queue = x.session.client.queue := ht ▸ rfl
  have hlog : ∃ es, t.log = x.session.log ++ es ∧ ∀ e ∈ es, isTransmission e = false :=
    ⟨[.qosPublish { out with expiry := inflightExpiryDeferred }], by rw [← ht]; rfl,
      fun e he => List.mem_singleton.mp he ▸ rfl⟩
  have hparked : Sorted (x.parkNext t (UInt16.ofNat j)) := by
    refine h.parkNext (fun i e hne he _ => ?_) hqueue fun e he => ?_
    · rw [hget, if_neg hne] at he
      exact he
    · rw [hget, if_pos rfl] at he
      cases he
      exact hnew
  have hresumed : Sorted ((x.parkNext t (UInt16.ofNat j)).observe (t.resumeDeferredPublishes env).2) := by
    refine hparked.resume fun hquota _ => ?_
    have hall : ∀ id e, x.session.client.inflight.get id = some e → e.expiry = inflightExpiryDeferred := by
      intro id e he
      rcases recoverStarved_cases hquota with hpos | hall
      · have hsame : t.client.inflight.sendQuota = x.session.client.inflight.sendQuota := ht ▸ rfl
        exact absurd (hsame ▸ hpos) (Int.not_lt.mpr hparks.2.2)
      · refine hall id e ((hget id).trans ((if_neg fun hj => ?_).trans he))
        rw [hj, hfree] at he
        cases he
    exact (hidle hall).imp_right fun hzero q hq => hzero q (hqueue ▸ hq)
  obtain ⟨f, es, hclient⟩ := resume_client env t
  have hlater : t.log <+: (t.resumeDeferredPublishes env).2.log := ⟨es, by rw [hclient]⟩
  have hearlier : x.session.log <+: t.log := hlog.imp fun _ h => h.1.symm
  generalize hnumbered : ({ x with
    count := x.count + 1
    parked := Function.update x.parked (UInt16.ofNat j) (some x.count) } : Sequence) = y
  have hsession : y.session = x.session := hnumbered ▸ rfl
  have hobserve : y.observe t = x.parkNext t (UInt16.ofNat j) := by
    rw [observe_of_silent (hsession ▸ hlog), ← hnumbered]
    rfl
  rw [← observe_observe (hsession ▸ hearlier) hlater, hobserve]
  exact hresumed

theorem Sorted.publish (h : Sorted x) (hok : x.Patient (env, .publish sub pk)) : Sorted (x.publish env sub pk) := by
  have hplaces : Places env x.session sub pk _ := places_publishToClient fun hqos => (hok hqos).1
  unfold Sequence.publish
  generalize x.session.publishToClient env sub pk = result at hplaces
  cases hplaces with
  | refused ht => exact h.observe_rests ht
  | own hlocal =>
    dsimp only
    rw [hlocal, Bool.or_true, if_pos rfl]
    exact h.observe_rests (.refl _)
  | queued hlocal ht hqos hparks =>
    rename_i t q
    dsimp only
    rw [hlocal, Bool.or_false, if_neg (by decide), ← hqos]
    have hlonger : ¬ (t.client.queue ++ [q]).length = x.session.client.queue.length := by
      rw [ht.queue, List.length_append]
      exact Nat.ne_of_gt (Nat.lt_succ_self _)
    by_cases hzero : q.packet.fixedHeader.qos = 0
    · rw [if_pos hzero, observe_of_silent (by exact ht.log)]
      exact Sorted.passNext (x := { x with session := t }) rfl rfl (h.rest ht)
    · have hpos : 0 < q.packet.fixedHeader.qos := UInt8.pos_iff_ne_zero.mpr hzero
      rw [if_neg hzero, if_neg hlonger, observe_of_silent (by exact ht.log)]
      refine Sorted.joinNext (x := { x with session := t }) rfl rfl (h.rest ht) (fun id n e hp => ?_) hpos
      exact (hok (hqos ▸ hpos)).2.1 (hparks hpos) id n e
        ⟨ht.deferred _ _ hp.get hp.deferred, hp.deferred, hp.number⟩
  | parked hlocal hqos hparks hfree hid hcreated =>
    rename_i outbound j out
    obtain ⟨-, -, hpatient⟩ := hok hqos
    obtain ⟨hnew, hidle⟩ := hpatient hparks
    have hsorted := @Sorted.park x env out h outbound j hparks hfree hid (fun id n e hp => ?_) hidle
    · obtain ⟨f, es, hclient⟩ := resume_client env ((x.session.reserve env outbound j).park out)
      generalize (((x.session.reserve env outbound j).park out).resumeDeferredPublishes env).2 = t at hclient hsorted
      have hqueue : t.client.queue = x.session.client.queue := hclient ▸ rfl
      have hcursor : t.client.packetID = j := hclient ▸ rfl
      dsimp only
      rw [hlocal, Bool.or_false, if_neg (by decide), if_neg (UInt8.pos_iff_ne_zero.mp hqos), hqueue, if_pos rfl,
        hcursor]
      exact hsorted
    · have hsame : out.created16 = pk.created16 := by
        unfold Packet.created16
        rw [hcreated]
      exact hsame ▸ hnew id n e hp

/-! ### Handlers as runs -/

theorem publish_session : (x.publish env sub pk).session = (x.session.publishToClient env sub pk).2 := by
  unfold publish
  generalize x.session.publishToClient env sub pk = result
  obtain ⟨err, t⟩ := result
  dsimp only
  split
  · rfl
  · split
    · rfl
    · split <;> rfl

def Leads (x : Sequence) (t : Session) : Prop := ∃ y, Runs.Reach Step (fun _ _ => True) x y ∧ y.session = t

theorem Leads.refl (x : Sequence) : x.Leads x.session := ⟨x, .refl, rfl⟩

theorem Leads.rest (h : x.Leads s) (ht : Rests s t) : x.Leads t := by
  obtain ⟨y, hr, rfl⟩ := h
  exact ⟨y.run (.accepting 0) (.rest t), hr.next (i := (.accepting 0, .rest t)) trivial ⟨ht, rfl⟩, rfl⟩

theorem Leads.publish (h : x.Leads s) : x.Leads (s.publishToClient env sub pk).2 := by
  obtain ⟨y, hr, rfl⟩ := h
  exact ⟨y.run env (.publish sub pk), hr.next (i := (env, .publish sub pk)) trivial ⟨trivial, rfl⟩, publish_session⟩

theorem Leads.resume (h : x.Leads s) : x.Leads (s.resumeDeferredPublishes env).2 := by
  obtain ⟨y, hr, rfl⟩ := h
  exact ⟨y.run env .resume, hr.next (i := (env, .resume)) trivial ⟨trivial, rfl⟩, rfl⟩

theorem Leads.publishToSubscribers (h : x.Leads s) : x.Leads (s.publishToSubscribers env pk) := by
  have hforward : x.Leads (s.emit (.forward pk)) := h.rest (rests_emit rfl)
  exact publishToSubscribers_invariant hforward fun _ => hforward.publish

theorem Leads.processPublish (h : x.Leads s)
    (hack : env.now + s.server.caps.maximumMessageExpiryInterval ≠ inflightExpiryDeferred) :
    x.Leads (s.processPublish env pk).2 :=
  processPublish_invariant (P := x.Leads) (h.rest (rests_receivePublish hack))
    fun _ ht => ht.publishToSubscribers.rest (rests_emit rfl)

theorem leads_processPacket (htype : pk.fixedHeader.type ∈ Persisted.exchanges)
    (hack : env.now + x.session.server.caps.maximumMessageExpiryInterval ≠ inflightExpiryDeferred) :
    x.Leads (x.session.processPacket env pk).2 := by
  have hstart := Leads.refl x
  have hhandled : x.Leads (x.session.handle env pk).2 := by
    unfold Persisted.exchanges at htype
    simp only [List.mem_cons, List.not_mem_nil, or_false] at htype
    unfold handle
    rcases htype with h | h | h | h | h
    all_goals
      rw [h]
      dsimp only
    · unfold validated
      split
      · exact hstart
      · exact hstart.processPublish hack
    · exact hstart.rest rests_processPuback
    · exact hstart.rest (rests_processPubrec hack)
    · exact hstart.rest (rests_processPubrel hack)
    · exact hstart.rest rests_processPubcomp
  exact processPacket_invariant (P := x.Leads) hhandled fun ht => ht.resume

/-! ### The order of transmissions -/

structure Start (x : Sequence) : Prop where
  queue : x.session.client.queue = []
  hand : x.hand = none
  queued : x.queued = []
  parked : ∀ id, x.parked id = none
  sent : x.sent = []

theorem Start.not_parked (h : Start x) {id : UInt16} {n : Nat} {e : Packet} : ¬ x.IsParked id n e := by
  intro hp
  have hnumber := hp.number
  rw [h.parked] at hnumber
  cases hnumber

theorem Start.sorted (h : Start x) : Sorted x := by
  have hline : x.lanes.gone ++ x.lanes.line = [] := by
    show x.sent ++ ((x.hand.bind Prod.snd).toList ++ x.queued.reduceOption) = []
    rw [h.sent, h.hand, h.queued]
    rfl
  refine ⟨⟨?_, ?_, ?_, fun p ⟨id, e, hp⟩ => absurd hp h.not_parked⟩, ?_, ?_, fun hp => absurd hp h.not_parked,
    fun hp => absurd hp h.not_parked⟩
  · rw [hline]
    exact .nil
  · rw [hline]
    exact fun _ hk => absurd hk List.not_mem_nil
  · rw [hline]
    exact fun _ hk => absurd hk List.not_mem_nil
  · intro q n hq
    rw [h.hand] at hq
    cases hq
  · rw [h.queue, h.queued]
    exact .nil

theorem Sorted.run {call : Call} (h : Sorted x) (hok : x.Patient (env, call)) (hstep : Step x (env, call) y) :
    Sorted y := by
  obtain ⟨hrest, rfl⟩ := hstep
  cases call with
  | publish sub pk => exact h.publish hok
  | resume => exact h.resume hok
  | take => exact h.take
  | write => exact h.write
  | rest t => exact h.rest hrest

/-- Of two messages that are transmitted, the one that was accepted first is transmitted first. -/
theorem transmitted_in_order (hx : Start x) (hr : Runs.Reach Step Patient x y) {n m : Nat} (hlt : n < m)
    (hn : n ∈ y.sent) (hm : m ∈ y.sent) : y.sent.idxOf n < y.sent.idxOf m := by
  have hsorted : Sorted y := by
    refine @Runs.Reach.invariant _ _ _ _ _ _ Sorted hr hx.sorted ?_
    rintro t ⟨env, call⟩ u ht hok hstep
    exact ht.run hok hstep
  exact hsorted.ordered.idxOf_lt hn hm hlt

def wide (quota : Nat) : Sequence :=
  { session := { client := { protocolVersion := 5, inflight := Inflight.new.resetSendQuota quota } } }

theorem start_wide (quota : Nat) : Start (wide quota) := ⟨rfl, rfl, rfl, fun _ => rfl, rfl⟩

def messageAt (created : Int) : Packet :=
  { fixedHeader := { type := .publish, qos := 1 }, topicName := [97], payload := [1], created := created }

def publishing (created : Int) : Call := .publish { filter := [97], qos := 1 } (messageAt created)

def second : Sequence := [publishing 100, .take, .write, publishing 101].foldl (run (.accepting 102)) (wide 2)

/-- There is quota for two messages, so the third one is parked. -/
def hurried : Sequence := second.run (.accepting 102) (publishing 102)

def unhurried : Sequence := [.take, .write, publishing 102].foldl (run (.accepting 102)) second

def answer (x : Sequence) : Call :=
  .rest (x.session.processPuback { fixedHeader := { type := .puback }, packetID := 1 }).2

def resumed (x : Sequence) : Sequence := [x.answer, .resume].foldl (run (.accepting 102)) x

theorem idle_of_empty (h : (x.hand.isNone && x.session.client.queue.isEmpty) = true) : x.Idle := by
  obtain ⟨hhand, hqueue⟩ := Bool.and_eq_true_iff.mp h
  refine ⟨fun q n hq => ?_, ?_⟩
  · rw [Option.isNone_iff_eq_none.mp hhand] at hq
    cases hq
  · rw [List.isEmpty_iff.mp hqueue]
    exact fun q hq => absurd hq List.not_mem_nil

theorem patient_of_idle
    (h : (values x.session.client.inflight.internal).all (fun e => e.expiry != inflightExpiryDeferred) = true)
    (hidle : x.Idle) (created : Int) : x.Patient (env, publishing created) := by
  have hnone : ∀ id n e, ¬ x.IsParked id n e := by
    intro id n e hp
    exact bne_iff_ne.mp (List.all_eq_true.mp h e (mem_values_iff.mpr ⟨id, hp.get⟩)) hp.deferred
  exact fun _ => ⟨show (0 : Int) ≠ inflightExpiryDeferred by decide, fun _ => hnone,
    fun _ => ⟨fun id n e hp => absurd hp (hnone id n e), fun _ => hidle⟩⟩

theorem reach_second : Runs.Reach Step Patient (wide 2) second := by
  refine Runs.Reach.replay run (.accepting 102) _ ⟨⟨patient_of_idle ?_ (idle_of_empty ?_) _, trivial, rfl⟩,
    ⟨trivial, trivial, rfl⟩, ⟨trivial, trivial, rfl⟩, ⟨patient_of_idle ?_ (idle_of_empty ?_) _, trivial, rfl⟩, trivial⟩
  all_goals decide +kernel

theorem transmitted_of_unhurried : unhurried.resumed.sent.idxOf 1 < unhurried.resumed.sent.idxOf 2 := by
  have hparked : Runs.Reach Step Patient second unhurried := by
    refine Runs.Reach.replay run (.accepting 102) _ ⟨⟨trivial, trivial, rfl⟩, ⟨trivial, trivial, rfl⟩,
      ⟨patient_of_idle ?_ (idle_of_empty ?_) _, trivial, rfl⟩, trivial⟩
    all_goals decide +kernel
  have hresumed : Runs.Reach Step Patient unhurried unhurried.resumed := by
    refine Runs.Reach.replay run (.accepting 102) _ ⟨⟨trivial, rests_processPuback, rfl⟩,
      ⟨fun _ _ => idle_of_empty ?_, trivial, rfl⟩, trivial⟩
    decide +kernel
  exact transmitted_in_order (start_wide 2) ((reach_second.trans hparked).trans hresumed) (by decide)
    (by decide +kernel)
    (by decide +kernel)

/-- The third message is transmitted before the second one, which is in the queue. -/
theorem overtaken_in_queue : Start (wide 2) ∧
    ∃ y, Runs.Reach Step (fun _ _ => True) (wide 2) y ∧ y.sent = [0, 2, 1] ∧
      ¬ y.sent.idxOf 1 < y.sent.idxOf 2 := by
  have hparked : Runs.Reach Step (fun _ _ => True) second hurried :=
    Runs.Reach.replay run (.accepting 102) [publishing 102] ⟨⟨trivial, trivial, rfl⟩, trivial⟩
  have hwritten : Runs.Reach Step (fun _ _ => True) hurried
      ([.take, .write].foldl (run (.accepting 102)) hurried.resumed) :=
    Runs.Reach.replay run (.accepting 102) [hurried.answer, .resume, .take, .write]
      ⟨⟨trivial, rests_processPuback, rfl⟩, ⟨trivial, trivial, rfl⟩, ⟨trivial, trivial, rfl⟩, ⟨trivial, trivial, rfl⟩,
        trivial⟩
  have hsecond := reach_second.mono fun _ _ _ => trivial
  exact ⟨start_wide 2, _, (hsecond.trans hparked).trans hwritten, by decide +kernel, by decide +kernel⟩

end Sequence
end Mqtt
