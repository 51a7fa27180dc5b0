import MqttBroker.Session.Directions
import MqttBroker.Session.Subscribing

/-! Requests and the packet ids that the server assigned. A request of the client
is compared in two sessions that differ in their inflight messages only. What is
seen of it depends on the map through a question or two: whether the id has an
entry, and for a PUBLISH whether the entry stands for a received message or blocks
another. -/

namespace Mqtt
open FiniteMap
namespace Session

/-! ### What is seen of a request -/

abbrev Answer := PacketType × UInt8 × Bytes

def isAnswer (pk : Packet) : Bool :=
  [PacketType.puback, .pubrec, .pubcomp, .suback, .unsuback].contains pk.fixedHeader.type

def answerOf : Event → Option Answer
  | .wrote pk _ | .writeFailed pk _ =>
    if isAnswer pk then some (pk.fixedHeader.type, pk.reasonCode, pk.reasonCodes) else none
  | _ => none

def retainedOf : Event → Option Packet
  | .retain pk => some pk
  | _ => none

def forwardedOf : Event → Option Packet
  | .forward pk => some pk
  | _ => none

/-- The acknowledgements, the subscriptions in the index and at the client, and the messages retained and
forwarded. -/
structure Outcome where
  answers : List Answer
  topics : TopicsIndex
  subscriptions : Map Bytes Subscription
  retained : List Packet
  forwarded : List Packet

def Outcome.answer (o : Outcome) (a : Answer) : Outcome := { o with answers := o.answers ++ [a] }

def Outcome.forward (o : Outcome) (pk : Packet) : Outcome := { o with forwarded := o.forwarded ++ [pk] }

def visible (s : Session) : Outcome where
  answers := s.log.filterMap answerOf
  topics := s.server.topics
  subscriptions := s.client.subscriptions
  retained := s.log.filterMap retainedOf
  forwarded := s.log.filterMap forwardedOf

def request (env : Env) (s : Session) (pk : Packet) : Session :=
  match pk.fixedHeader.type with
  | .subscribe => (s.processSubscribe env pk).2
  | .unsubscribe => (s.processUnsubscribe env pk).2
  | .publish => (s.processPublish env pk).2
  | .pubrel => (s.processPubrel env pk).2
  | _ => s

/-- The session when the request has been answered, before messages are delivered to the client. -/
def afterAnswer (env : Env) (s : Session) (pk : Packet) : Session :=
  match pk.fixedHeader.type with
  | .subscribe => (s.answerSubscribe env pk).2.2
  | .publish => (s.receivePublish env pk).session
  | _ => s.request env pk

def outcome (env : Env) (s : Session) (pk : Packet) : Outcome :=
  { (s.request env pk).visible with answers := (s.afterAnswer env pk).visible.answers }

def withInflight (s : Session) (f : Inflight) : Session := s.onInflight fun _ => f

variable {env : Env} {s t : Session} {pk q : Packet} {f : Inflight}

/-! ### Steps that are not seen -/

@[simp] theorem visible_withInflight : (s.withInflight f).visible = s.visible := rfl

theorem visible_emit {e : Event} (hanswer : answerOf e = none) (hretained : retainedOf e = none)
    (hforwarded : forwardedOf e = none) : (s.emit e).visible = s.visible := by
  unfold visible
  simp [hanswer, hretained, hforwarded]

@[simp] theorem visible_emit_forward : (s.emit (.forward pk)).visible = s.visible.forward pk := by
  unfold visible Outcome.forward
  simp [answerOf, retainedOf, forwardedOf]

theorem visible_writePacket (hconn : s.client.conn = true) (hpk : isAnswer pk = true) :
    (s.writePacket env pk).2.visible = s.visible.answer (pk.fixedHeader.type, pk.reasonCode, pk.reasonCodes) := by
  have hout : isAnswer (s.outgoing env pk) = true := hpk
  have hevent : ∀ e, answerOf e = some (pk.fixedHeader.type, pk.reasonCode, pk.reasonCodes) → retainedOf e = none →
      forwardedOf e = none →
      (s.emit e).visible = s.visible.answer (pk.fixedHeader.type, pk.reasonCode, pk.reasonCodes) := by
    intro e hanswer hretained hforwarded
    unfold visible Outcome.answer
    simp [hanswer, hretained, hforwarded]
  unfold writePacket writePacketOn
  rw [hconn]
  split
  · exact hevent _ (if_pos hpk) rfl rfl
  · rw [if_neg (by decide)]
    split
    · exact hevent _ (if_pos hout) rfl rfl
    · exact hevent _ (if_pos hout) rfl rfl

theorem visible_writePacket_other (hpk : isAnswer pk = false) : (s.writePacket env pk).2.visible = s.visible := by
  have hout : isAnswer (s.outgoing env pk) = false := hpk
  have hnone : ∀ p : Packet, isAnswer p = false → ¬ isAnswer p = true := fun p hp => by rw [hp]; decide
  unfold writePacket writePacketOn
  split
  · exact visible_emit (if_neg (hnone _ hpk)) rfl rfl
  · split
    · rfl
    · split
      · exact visible_emit (if_neg (hnone _ hout)) rfl rfl
      · exact visible_emit (if_neg (hnone _ hout)) rfl rfl

theorem visible_delivers (h : Delivers s t) : { t.visible with answers := s.visible.answers } = s.visible := by
  obtain ⟨_, _, _, _, _, es, -, hes, rfl⟩ := h
  have hnone : ∀ e ∈ es, retainedOf e = none ∧ forwardedOf e = none := by
    intro e he
    have := hes e he
    cases e <;> first | exact ⟨rfl, rfl⟩ | cases this
  have hretained : es.filterMap retainedOf = [] := List.filterMap_eq_nil_iff.mpr fun e he => (hnone e he).1
  have hforwarded : es.filterMap forwardedOf = [] := List.filterMap_eq_nil_iff.mpr fun e he => (hnone e he).2
  unfold visible
  simp [hretained, hforwarded]

variable {o o' : Outcome} {code : Code} {sub : Subscription}

theorem answer_inj {a a' : Answer} : o.answer a = o'.answer a' ↔ o = o' ∧ a = a' := by
  constructor
  · intro h
    have hanswers : o.answers ++ [a] = o'.answers ++ [a'] := congrArg Outcome.answers h
    obtain ⟨hanswers, ha⟩ := List.append_inj' hanswers rfl
    have hrest := congrArg (fun x => { x with answers := o.answers }) h
    refine ⟨hrest.trans ?_, List.singleton_inj.mp ha⟩
    rw [hanswers]
    rfl
  · rintro ⟨rfl, rfl⟩
    rfl

theorem visible_writePacket_fillFrom (hconn : s.client.conn = true) (hpk : isAnswer pk = true) (e : Packet) :
    (s.writePacket env (pk.fillFrom e)).2.visible =
      s.visible.answer (pk.fixedHeader.type, pk.reasonCode, pk.reasonCodes) := by
  have hcodes : (pk.fillFrom e).reasonCodes = pk.reasonCodes := by
    unfold Packet.fillFrom
    split <;> rfl
  have hfill : isAnswer (pk.fillFrom e) = true := by
    unfold isAnswer
    rw [Packet.fillFrom_fixedHeader]
    exact hpk
  rw [visible_writePacket hconn hfill, Packet.fillFrom_fixedHeader, Packet.fillFrom_reasonCode, hcodes]

theorem ite_eq_ite_iff {b b' : Bool} : ((if b then o else o') = if b' then o else o') ↔ b = b' ∨ o = o' := by
  cases b <;> cases b' <;> simp [eq_comm]

/-! ### PUBREL -/

def isUsed (s : Session) (id : UInt16) : Bool := (s.client.inflight.get id).isSome

theorem outcome_pubrel (hconn : s.client.conn = true) (htype : pk.fixedHeader.type = .pubrel) :
    s.outcome env pk =
      if s.isUsed pk.packetID then
        if pk.endsFlow then s.visible else s.visible.answer (.pubcomp, Code.success.code, [])
      else s.visible.answer (.pubcomp, Code.packetIdentifierNotFound.code, []) := by
  have heq : s.outcome env pk = (s.processPubrel env pk).2.visible := by
    unfold outcome afterAnswer request
    rw [htype]
  rw [heq]
  unfold processPubrel isUsed
  cases s.client.inflight.get pk.packetID with
  | none => exact visible_writePacket hconn rfl
  | some e =>
    dsimp only
    rw [Option.isSome_some, if_pos rfl]
    split
    · exact visible_emit rfl rfl rfl
    · have hseen := @visible_writePacket_fillFrom env
        (s.onInflight fun f => f.put ((s.buildAck env pk.packetID .pubcomp 0 pk.properties .success).fillFrom e))
        (s.buildAck env pk.packetID .pubcomp 0 pk.properties .success) hconn rfl e
      split
      · rename_i hw
        rw [hw] at hseen
        exact hseen
      · rename_i hw
        rw [hw] at hseen
        exact (visible_emit rfl rfl rfl).trans hseen

theorem outcome_pubrel_iff (hconn : s.client.conn = true) (htype : pk.fixedHeader.type = .pubrel) :
    s.outcome env pk = (s.withInflight f).outcome env pk ↔
      s.isUsed pk.packetID = (s.withInflight f).isUsed pk.packetID := by
  have hself : ∀ a, s.visible ≠ s.visible.answer a :=
    fun a h => by simpa [Outcome.answer] using congrArg Outcome.answers h
  rw [outcome_pubrel hconn htype, @outcome_pubrel env (s.withInflight f) pk hconn htype, visible_withInflight,
    ite_eq_ite_iff]
  refine or_iff_left ?_
  split
  · exact hself _
  · exact fun h => absurd (answer_inj.mp h).2 (by decide)

/-! ### UNSUBSCRIBE -/

theorem unsubscribeFilters_withInflight (subs : List Subscription) : ∀ s : Session,
    unsubscribeFilters .success (s.withInflight f) subs =
      ((unsubscribeFilters .success s subs).1, (unsubscribeFilters .success s subs).2.withInflight f) := by
  induction subs with
  | nil => exact fun s => rfl
  | cons sub subs ih =>
    intro s
    have hone : (s.withInflight f).removeSubscription sub.filter =
        ((s.removeSubscription sub.filter).1, (s.removeSubscription sub.filter).2.withInflight f) := rfl
    rw [unsubscribeFilters_cons, hone, ih, unsubscribeFilters_cons]

theorem unsubscribeFilters_codes (h : code ≠ .success) (subs : List Subscription) :
    unsubscribeFilters code s subs = (subs.map fun _ => code.code, s) := by
  induction subs with
  | nil => rfl
  | cons sub subs ih =>
    unfold unsubscribeFilters
    rw [if_pos h, ih]
    rfl

theorem inUse_notMem_unsubscribeFilters (subs : List Subscription) : ∀ s : Session,
    Code.packetIdentifierInUse.code ∉ (unsubscribeFilters .success s subs).1 := by
  induction subs with
  | nil => exact fun s => List.not_mem_nil
  | cons sub subs ih =>
    intro s hmem
    rw [unsubscribeFilters_cons] at hmem
    rcases List.mem_cons.mp hmem with hcode | hmem
    · unfold unsubscribeReason at hcode
      split at hcode <;> exact absurd hcode (by decide)
    · exact ih _ hmem

theorem requestCode_eq (s : Session) (pk : Packet) :
    s.requestCode pk = if s.isUsed pk.packetID then .packetIdentifierInUse else .success := rfl

theorem visible_requestAck {e : Event} {pkt : PacketType} (hconn : s.client.conn = true) (h : Indexes s t)
    (he : answerOf e = none ∧ retainedOf e = none ∧ forwardedOf e = none)
    (hpkt : isAnswer { fixedHeader := { type := pkt } } = true) (pk : Packet) (code : Code) (codes : Bytes) :
    ((t.emit e).writePacket env (requestAck pk pkt code codes)).2.visible = t.visible.answer (pkt, 0, codes) := by
  have hconn' : (t.emit e).client.conn = true := by
    obtain ⟨_, _, _, -, rfl⟩ := h
    exact hconn
  have hack : isAnswer (requestAck pk pkt code codes) = true := hpkt
  rw [visible_writePacket hconn' hack, visible_emit he.1 he.2.1 he.2.2]
  rfl

theorem outcome_unsubscribe (hconn : s.client.conn = true) (htype : pk.fixedHeader.type = .unsubscribe) :
    s.outcome env pk =
      if s.isUsed pk.packetID then
        s.visible.answer (.unsuback, 0, (env.onUnsubscribe pk).filters.map fun _ => Code.packetIdentifierInUse.code)
      else
        (unsubscribeFilters .success s (env.onUnsubscribe pk).filters).2.visible.answer
          (.unsuback, 0, (unsubscribeFilters .success s (env.onUnsubscribe pk).filters).1) := by
  have heq : s.outcome env pk = (s.processUnsubscribe env pk).2.visible := by
    unfold outcome afterAnswer request
    rw [htype]
  have hseen : (s.processUnsubscribe env pk).2.visible =
      (unsubscribeFilters (s.requestCode pk) s (env.onUnsubscribe pk).filters).2.visible.answer
        (.unsuback, 0, (unsubscribeFilters (s.requestCode pk) s (env.onUnsubscribe pk).filters).1) :=
    visible_requestAck hconn (indexes_unsubscribeFilters _ _ _) ⟨rfl, rfl, rfl⟩ rfl _ _ _
  rw [heq, hseen, requestCode_eq]
  cases s.isUsed pk.packetID with
  | true => rw [if_pos rfl, if_pos rfl, unsubscribeFilters_codes (by decide)]
  | false => rfl

theorem outcome_unsubscribe_iff (hconn : s.client.conn = true) (htype : pk.fixedHeader.type = .unsubscribe) :
    s.outcome env pk = (s.withInflight f).outcome env pk ↔
      s.isUsed pk.packetID = (s.withInflight f).isUsed pk.packetID ∨ (env.onUnsubscribe pk).filters = [] := by
  rw [outcome_unsubscribe hconn htype, @outcome_unsubscribe env (s.withInflight f) pk hconn htype,
    unsubscribeFilters_withInflight, visible_withInflight, visible_withInflight, ite_eq_ite_iff]
  refine or_congr_right ?_
  have hcodes := inUse_notMem_unsubscribeFilters (env.onUnsubscribe pk).filters s
  generalize (env.onUnsubscribe pk).filters = subs at hcodes ⊢
  constructor
  · intro h
    have hsame : (subs.map fun _ => Code.packetIdentifierInUse.code) = (unsubscribeFilters .success s subs).1 :=
      congrArg (fun a : Answer => a.2.2) (answer_inj.mp h).2
    rw [← hsame] at hcodes
    cases subs with
    | nil => rfl
    | cons sub subs => exact absurd List.mem_cons_self hcodes
  · rintro rfl
    rfl

/-! ### SUBSCRIBE -/

theorem subscribeFilter_withInflight (sub : Subscription) (s : Session) :
    (s.withInflight f).subscribeFilter env .success sub =
      ((s.subscribeFilter env .success sub).1, (s.subscribeFilter env .success sub).2.1,
        (s.subscribeFilter env .success sub).2.2.withInflight f) := by
  have hid : (s.withInflight f).client.id = s.client.id := rfl
  unfold subscribeFilter
  rw [hid]
  cases isValidFilter sub.filter false with
  | false => rfl
  | true =>
    cases sub.noLocal && isSharedFilter sub.filter with
    | true => rfl
    | false => cases env.onACLCheck s.client.id sub.filter false <;> rfl

theorem subscribeFilters_withInflight (subs : List Subscription) : ∀ s : Session,
    subscribeFilters env .success (s.withInflight f) subs =
      ((subscribeFilters env .success s subs).1, (subscribeFilters env .success s subs).2.withInflight f) := by
  induction subs with
  | nil => exact fun s => rfl
  | cons sub subs ih =>
    intro s
    rw [subscribeFilters_cons, subscribeFilter_withInflight, ih, subscribeFilters_cons]

theorem subscribeFilters_codes (h : code ≠ .success) (subs : List Subscription) :
    subscribeFilters env code s subs = (subs.map fun sub => (sub, code.code, false), s) := by
  induction subs with
  | nil => rfl
  | cons sub subs ih =>
    have hone : s.subscribeFilter env code sub = (code.code, false, s) := if_pos h
    rw [subscribeFilters_cons, hone, ih]
    rfl

structure GrantsInUse (env : Env) (s : Session) (sub : Subscription) : Prop where
  valid : isValidFilter sub.filter false = true
  shared : (sub.noLocal && isSharedFilter sub.filter) = false
  acl : env.onACLCheck s.client.id sub.filter false = true
  version : 5 ≤ s.client.protocolVersion
  qos : min sub.qos s.server.caps.maximumQos = Code.packetIdentifierInUse.code

theorem GrantsInUse.subscribeFilter (h : GrantsInUse env s sub) :
    s.subscribeFilter env .success sub =
      (Code.packetIdentifierInUse.code, (s.addSubscription sub).1, (s.addSubscription sub).2) := by
  have hqos : min sub.qos (s.addSubscription sub).2.server.caps.maximumQos = Code.packetIdentifierInUse.code := h.qos
  have hversion : ¬ s.client.protocolVersion < 5 := UInt8.not_lt.mpr h.version
  unfold Session.subscribeFilter
  simp [h.valid, h.shared, h.acl, hqos, hversion]

theorem grantsInUse_of_code
    (h : (s.subscribeFilter env .success sub).1 = Code.packetIdentifierInUse.code) : GrantsInUse env s sub := by
  have hversion : ∀ r : UInt8, (if Code.grantedQos2.code < r && s.client.protocolVersion < 5 then
      Code.unspecifiedError.code else r) = Code.packetIdentifierInUse.code →
      r = Code.packetIdentifierInUse.code ∧ 5 ≤ s.client.protocolVersion := by
    intro r hr
    split at hr
    · exact absurd hr (by decide)
    · rename_i hold
      refine ⟨hr, UInt8.not_lt.mp fun hlt => hold ?_⟩
      rw [hr, decide_eq_true hlt]
      decide
  unfold Session.subscribeFilter at h
  dsimp only at h
  rw [if_neg (by decide)] at h
  split at h
  · exact absurd (hversion _ h).1 (by decide)
  · rename_i hvalid
    split at h
    · exact absurd (hversion _ h).1 (by decide)
    · rename_i hshared
      split at h
      · refine absurd (hversion _ h).1 ?_
        split <;> decide
      · rename_i hacl
        obtain ⟨hqos, hold⟩ := hversion _ h
        exact ⟨by simpa using hvalid, by simpa using hshared, by simpa using hacl, hold, hqos⟩

def addSubscriptions (s : Session) (subs : List Subscription) : Session :=
  subs.foldl (fun s sub => (s.addSubscription sub).2) s

theorem subscribeFilters_inUse_iff (subs : List Subscription) : ∀ s : Session,
    (((subscribeFilters env .success s subs).1.map fun r => r.2.1) =
        subs.map fun _ => Code.packetIdentifierInUse.code) ↔
      ∀ sub ∈ subs, GrantsInUse env s sub := by
  induction subs with
  | nil => exact fun s => iff_of_true rfl fun _ h => absurd h List.not_mem_nil
  | cons sub subs ih =>
    intro s
    have hsame : ∀ sub', GrantsInUse env (s.addSubscription sub).2 sub' ↔ GrantsInUse env s sub' :=
      fun sub' => ⟨fun h => ⟨h.valid, h.shared, h.acl, h.version, h.qos⟩,
        fun h => ⟨h.valid, h.shared, h.acl, h.version, h.qos⟩⟩
    rw [subscribeFilters_cons, List.map_cons, List.map_cons, List.cons.injEq, List.forall_mem_cons]
    constructor
    · rintro ⟨hcode, hcodes⟩
      have hgrants := grantsInUse_of_code hcode
      rw [hgrants.subscribeFilter, ih] at hcodes
      exact ⟨hgrants, fun sub' hsub' => (hsame sub').mp (hcodes sub' hsub')⟩
    · rintro ⟨hgrants, hall⟩
      rw [hgrants.subscribeFilter, ih]
      exact ⟨rfl, fun sub' hsub' => (hsame sub').mpr (hall sub' hsub')⟩

theorem subscribeFilters_of_inUse (subs : List Subscription) : ∀ s : Session,
    (∀ sub ∈ subs, GrantsInUse env s sub) → (subscribeFilters env .success s subs).2 = s.addSubscriptions subs := by
  induction subs with
  | nil => exact fun s _ => rfl
  | cons sub subs ih =>
    intro s hall
    obtain ⟨hgrants, hrest⟩ := List.forall_mem_cons.mp hall
    rw [subscribeFilters_cons, hgrants.subscribeFilter]
    refine ih _ fun sub' hsub' => ?_
    have h := hrest sub' hsub'
    exact ⟨h.valid, h.shared, h.acl, h.version, h.qos⟩

theorem outcome_subscribe (hconn : s.client.conn = true) (htype : pk.fixedHeader.type = .subscribe) :
    s.outcome env pk =
      if s.isUsed (env.onSubscribe pk).packetID then
        s.visible.answer (.suback, 0, (env.onSubscribe pk).filters.map fun _ => Code.packetIdentifierInUse.code)
      else
        (subscribeFilters env .success s (env.onSubscribe pk).filters).2.visible.answer
          (.suback, 0, (subscribeFilters env .success s (env.onSubscribe pk).filters).1.map fun r => r.2.1) := by
  have heq : s.outcome env pk = (s.answerSubscribe env pk).2.2.visible := by
    unfold outcome afterAnswer request
    rw [htype]
    exact visible_delivers delivers_answerSubscribe
  have hseen : (s.answerSubscribe env pk).2.2.visible =
      (subscribeFilters env (s.requestCode (env.onSubscribe pk)) s (env.onSubscribe pk).filters).2.visible.answer
        (.suback, 0,
          (subscribeFilters env (s.requestCode (env.onSubscribe pk)) s (env.onSubscribe pk).filters).1.map
            fun r => r.2.1) :=
    visible_requestAck hconn (indexes_subscribeFilters _ _ _) ⟨rfl, rfl, rfl⟩ rfl _ _ _
  rw [heq, hseen, requestCode_eq]
  cases s.isUsed (env.onSubscribe pk).packetID with
  | true =>
    rw [if_pos rfl, if_pos rfl, subscribeFilters_codes (by decide), List.map_map]
    rfl
  | false => rfl

theorem outcome_subscribe_iff (hconn : s.client.conn = true) (htype : pk.fixedHeader.type = .subscribe) :
    s.outcome env pk = (s.withInflight f).outcome env pk ↔
      s.isUsed (env.onSubscribe pk).packetID = (s.withInflight f).isUsed (env.onSubscribe pk).packetID ∨
        (∀ sub ∈ (env.onSubscribe pk).filters, GrantsInUse env s sub) ∧
          (s.addSubscriptions (env.onSubscribe pk).filters).server.topics = s.server.topics ∧
          (s.addSubscriptions (env.onSubscribe pk).filters).client.subscriptions = s.client.subscriptions := by
  rw [outcome_subscribe hconn htype, @outcome_subscribe env (s.withInflight f) pk hconn htype,
    subscribeFilters_withInflight, visible_withInflight, visible_withInflight, ite_eq_ite_iff]
  generalize (env.onSubscribe pk).filters = subs
  refine or_congr_right ?_
  rw [answer_inj, ← subscribeFilters_inUse_iff]
  constructor
  · rintro ⟨hseen, hcodes⟩
    have hsame : _ = _ := congrArg (fun a : Answer => a.2.2) hcodes
    refine ⟨hsame.symm, ?_⟩
    rw [subscribeFilters_of_inUse subs s ((subscribeFilters_inUse_iff subs s).mp hsame.symm)] at hseen
    exact ⟨(congrArg Outcome.topics hseen).symm, (congrArg Outcome.subscriptions hseen).symm⟩
  · rintro ⟨hcodes, htopics, hsubscriptions⟩
    refine ⟨?_, by rw [hcodes]⟩
    rw [subscribeFilters_of_inUse subs s ((subscribeFilters_inUse_iff subs s).mp hcodes)]
    have hindexes : Indexes s (s.addSubscriptions subs) := indexes_addSubscriptions (fun sub => sub) subs s
    obtain ⟨topics, info, subscriptions, -, hadd⟩ := hindexes
    unfold visible
    rw [htopics, hsubscriptions, hadd]

/-! ### PUBLISH -/

def PublishResult.visible : PublishResult → Outcome
  | .returned _ s => s.visible
  | .accepted pk s => s.visible.forward pk

theorem outcome_publish (htype : pk.fixedHeader.type = .publish) :
    s.outcome env pk = (s.receivePublish env pk).visible := by
  unfold outcome afterAnswer request
  rw [htype]
  dsimp only
  unfold processPublish
  cases s.receivePublish env pk with
  | returned err t => rfl
  | accepted q t =>
    have hforward := visible_delivers (@delivers_publishToSubscribers env t q)
    have hpublished :
        ((t.publishToSubscribers env q).emit (.published q)).visible = (t.publishToSubscribers env q).visible :=
      visible_emit rfl rfl rfl
    rw [visible_emit_forward] at hforward
    show { (Session.emit _ _).visible with answers := t.visible.answers } = t.visible.forward q
    rw [hpublished]
    exact hforward

def isReceived (s : Session) (pk : Packet) : Bool :=
  (s.client.inflight.get pk.packetID).any fun pki => pki.fixedHeader.type == .pubrec

structure Screened (env : Env) (s : Session) (pk : Packet) : Prop where
  topic : s.client.inline = true ∨ isValidFilter pk.topicName true = true
  quota : s.client.inflight.receiveQuota ≠ 0
  acl : s.client.inline = true ∨ env.onACLCheck s.client.id pk.topicName true = true

theorem Screened.admits (h : Screened env s pk) (hreceived : s.client.inline = true ∨ s.isReceived pk = false) :
    Admits env s pk := by
  refine ⟨h.topic, h.quota, h.acl, hreceived.imp_right fun hreceived pki hget htype => ?_⟩
  unfold isReceived at hreceived
  rw [hget, Option.any_some, htype] at hreceived
  cases hreceived

theorem visible_disconnectClient (code : Code) : (s.disconnectClient env code).2.visible = s.visible := by
  have hwrite : (s.writePacket env (disconnectPacket code)).2.visible = s.visible := visible_writePacket_other rfl
  have hstop : ∀ t : Session, (t.stop env (some (.code code))).visible = t.visible := by
    intro t
    unfold stop
    split <;> rfl
  exact disconnectClient_invariant (P := fun t => t.visible = s.visible) hwrite fun h => (hstop _).trans h

theorem visible_answer (hconn : s.client.conn = true) (hpk : isAnswer pk = true) :
    (s.answer env pk).visible = s.visible.answer (pk.fixedHeader.type, pk.reasonCode, pk.reasonCodes) :=
  visible_writePacket hconn hpk

def ackType (pk : Packet) : PacketType := if pk.fixedHeader.qos = 2 then .pubrec else .puback

theorem visible_refusePublish (hconn : s.client.conn = true) :
    (s.refusePublish env pk).visible =
      if pk.fixedHeader.qos ≠ 0 ∧ s.client.protocolVersion = 5 then
        s.visible.answer (ackType pk, Code.notAuthorized.code, [])
      else s.visible := by
  have hack : isAnswer (s.buildAck env pk.packetID (ackType pk) 0 pk.properties .notAuthorized) = true := by
    unfold ackType
    split <;> rfl
  unfold refusePublish
  by_cases hqos : pk.fixedHeader.qos = 0
  · rw [if_pos hqos, if_neg fun h => h.1 hqos]
    rfl
  · rw [if_neg hqos]
    by_cases hversion : s.client.protocolVersion = 5
    · rw [if_neg (not_not.mpr hversion)]
      exact (visible_answer hconn hack).trans (if_pos ⟨hqos, hversion⟩).symm
    · rw [if_pos hversion, if_neg fun h => hversion h.2]
      exact visible_disconnectClient _

theorem visible_receivePublish_of_not_screened (hconn : s.client.conn = true)
    (hquota : f.receiveQuota = s.client.inflight.receiveQuota) (h : ¬ Screened env s pk) :
    (s.receivePublish env pk).visible = ((s.withInflight f).receivePublish env pk).visible := by
  have hquota' : (s.withInflight f).client.inflight.receiveQuota = s.client.inflight.receiveQuota := hquota
  have hinline : (s.withInflight f).client.inline = s.client.inline := rfl
  have hid : (s.withInflight f).client.id = s.client.id := rfl
  unfold receivePublish
  rw [hquota', hinline, hid]
  by_cases htopic : (!s.client.inline && !isValidFilter pk.topicName true) = true
  · rw [if_pos htopic, if_pos htopic]
    rfl
  · rw [if_neg htopic, if_neg htopic]
    by_cases hzero : s.client.inflight.receiveQuota = 0
    · rw [if_pos hzero, if_pos hzero]
      exact (visible_disconnectClient _).trans (@visible_disconnectClient env (s.withInflight f) _).symm
    · rw [if_neg hzero, if_neg hzero]
      by_cases hacl : (!s.client.inline && !env.onACLCheck s.client.id pk.topicName true) = true
      · have hconn' : (s.withInflight f).client.conn = true := hconn
        rw [if_pos hacl, if_pos hacl, visible_refusePublish hconn, visible_refusePublish hconn']
        rfl
      · refine absurd ⟨?_, hzero, ?_⟩ h
        · cases hinline : s.client.inline <;> simp_all
        · cases hinline : s.client.inline <;> simp_all

theorem visible_receivePublish_of_received (hconn : s.client.conn = true) (h : Screened env s pk)
    (hinline : s.client.inline = false) (hreceived : s.isReceived pk = true) :
    (s.receivePublish env pk).visible = s.visible.answer (.pubrec, Code.packetIdentifierInUse.code, []) := by
  have htopic := h.topic.resolve_left (by rw [hinline]; decide)
  have hacl := h.acl.resolve_left (by rw [hinline]; decide)
  have hget : (s.client.inflight.get (s.stamp env pk).packetID).any
      (fun pki => pki.fixedHeader.type == .pubrec) = true :=
    hreceived
  unfold receivePublish
  rw [hinline, htopic, hacl]
  dsimp only [Bool.not_false, Bool.not_true, Bool.and_false]
  rw [if_neg (by decide), if_neg h.quota, if_neg (by decide), hget, if_pos (by decide)]
  exact visible_answer hconn rfl

def retains (s : Session) (q : Packet) : Bool :=
  q.fixedHeader.retain && !(s.server.caps.retainAvailable = 0 || q.ignore)

def Outcome.retain (o : Outcome) (q : Packet) : Outcome :=
  { o with
    topics := (o.topics.retainMessage (q.copy false)).2
    retained := o.retained ++ [q.copy false] }

theorem visible_retained : (s.retained q).visible = if s.retains q then s.visible.retain q else s.visible := by
  unfold retained retains retainMessage
  cases q.fixedHeader.retain with
  | false => rfl
  | true =>
    by_cases hoff : s.server.caps.retainAvailable = 0 ∨ q.ignore
    · have hno : ¬ (true && !(decide (s.server.caps.retainAvailable = 0) || q.ignore)) = true := by
        simpa [or_iff_not_imp_left] using hoff
      rw [if_pos rfl, if_pos hoff, if_neg hno]
    · simp only [hoff, if_false, Bool.true_and]
      have hon : (!(decide (s.server.caps.retainAvailable = 0) || q.ignore)) = true := by
        simpa using hoff
      rw [if_pos hon]
      unfold visible Outcome.retain
      simp [answerOf, retainedOf, forwardedOf]

def retainedFrom (s : Session) (q : Packet) : List Packet := if s.retains q then [q.copy false] else []

theorem messages_retained : (s.retained q).visible.forwarded = s.visible.forwarded ∧
    (s.retained q).visible.retained = s.visible.retained ++ s.retainedFrom q := by
  rw [visible_retained]
  unfold retainedFrom
  split
  · exact ⟨rfl, rfl⟩
  · exact ⟨rfl, (List.append_nil _).symm⟩

theorem messages_publishToSubscribers :
    (s.publishToSubscribers env pk).visible.forwarded = s.visible.forwarded ++ [pk] ∧
      (s.publishToSubscribers env pk).visible.retained = s.visible.retained := by
  have h := visible_delivers (@delivers_publishToSubscribers env s pk)
  rw [visible_emit_forward] at h
  have hretained := congrArg Outcome.retained h
  exact ⟨congrArg Outcome.forwarded h, hretained⟩

def isWrite : Event → Bool
  | .wrote _ _ | .writeFailed _ _ => true
  | _ => false

def SeesWrites (env : Env) : Prop :=
  ∀ log log' pk, log.filter isWrite = log'.filter isWrite → env.send log pk = env.send log' pk

structure Alike (s t : Session) : Prop where
  visible : t.visible = s.visible
  closed : t.client.closed = s.client.closed
  conn : t.client.conn = s.client.conn
  outgoing : ∀ env pk, t.outgoing env pk = s.outgoing env pk
  writes : t.log.filter isWrite = s.log.filter isWrite

theorem alike_onInflight (g : Inflight → Inflight) : Alike s (s.onInflight g) :=
  ⟨rfl, rfl, rfl, fun _ _ => rfl, rfl⟩

theorem alike_storePubrec (ack : Packet) : Alike s (s.storePubrec ack) := by
  unfold storePubrec
  split
  · refine ⟨visible_emit rfl rfl rfl, rfl, rfl, fun _ _ => rfl, ?_⟩
    rw [emit_log, List.filter_append]
    exact List.append_nil _
  · exact alike_onInflight _

theorem Alike.trans (h : Alike s t) (h' : Alike t u) : Alike s u :=
  ⟨h'.visible.trans h.visible, h'.closed.trans h.closed, h'.conn.trans h.conn,
    fun env pk => (h'.outgoing env pk).trans (h.outgoing env pk), h'.writes.trans h.writes⟩

theorem Alike.writePacket (h : Alike s t) (henv : SeesWrites env) :
    (t.writePacket env pk).1 = (s.writePacket env pk).1 := by
  have herror : writeError env t.log (s.outgoing env pk) = writeError env s.log (s.outgoing env pk) := by
    unfold writeError
    rw [henv _ _ _ h.writes]
  unfold Session.writePacket writePacketOn
  rw [h.closed, h.conn, h.outgoing, herror]
  split
  · rfl
  · split
    · rfl
    · split <;> rfl

def isAcknowledged (env : Env) (s : Session) (q : Packet) : Bool :=
  ((s.retained q).writePacket env (s.publishAck env q)).1.isNone

def acceptOutcome (env : Env) (s : Session) (q : Packet) (blocked : Bool) : Outcome :=
  let o := if s.retains q then s.visible.retain q else s.visible
  if q.fixedHeader.qos = 0 || s.client.inline then o.forward q
  else if blocked then o.answer (.pubrec, Code.packetIdentifierInUse.code, [])
  else
    let o := o.answer (ackType q, Code.success.code, [])
    if s.isAcknowledged env q then o.forward q else o

theorem client_retained (s : Session) (q : Packet) : (s.retained q).client = s.client := (retained_cases s q).1

theorem visible_completePuback (ack : Packet) : (s.completePuback ack q).visible = s.visible := visible_emit rfl rfl rfl

theorem visible_recordPublish (henv : SeesWrites env) (hconn : s.client.conn = true) :
    (((s.retained q).onInflight fun f => f.decreaseReceiveQuota.2).recordPublish env q (s.publishAck env q)).visible =
      if s.isAcknowledged env q then
        ((s.retained q).visible.answer (ackType q, Code.success.code, [])).forward q
      else (s.retained q).visible.answer (ackType q, Code.success.code, []) := by
  have hclient := client_retained s q
  generalize hack : s.publishAck env q = ack
  obtain ⟨u, hu, halike⟩ : ∃ u : Session,
      (if q.fixedHeader.qos = 2 then ((s.retained q).onInflight fun f => f.decreaseReceiveQuota.2).storePubrec ack
        else (s.retained q).onInflight fun f => f.decreaseReceiveQuota.2) = u ∧ Alike (s.retained q) u := by
    split
    · exact ⟨_, rfl, (alike_onInflight _).trans (alike_storePubrec ack)⟩
    · exact ⟨_, rfl, alike_onInflight _⟩
  have hanswer : (u.writePacket env ack).2.visible =
      (s.retained q).visible.answer (ackType q, Code.success.code, []) := by
    have hkind : isAnswer (s.buildAck env q.packetID (ackType q) 0 q.properties .success) = true := by
      unfold ackType
      split <;> rfl
    have hwritten := @visible_writePacket_fillFrom env u _ (by rw [halike.conn, hclient]; exact hconn) hkind q
    rw [← hack, ← halike.visible]
    exact hwritten
  have hsame : (u.writePacket env ack).1.isNone = s.isAcknowledged env q := by
    unfold isAcknowledged
    rw [hack, halike.writePacket henv]
  unfold recordPublish
  dsimp only
  rw [hu]
  generalize u.writePacket env ack = written at hanswer hsame
  obtain ⟨err, v⟩ := written
  rw [← hsame]
  cases err with
  | some err => exact hanswer
  | none =>
    have hdone : (if q.fixedHeader.qos = 1 then v.completePuback ack q else v).visible = v.visible := by
      split
      · exact visible_completePuback ack
      · rfl
    show Outcome.forward (Session.visible _) q = _
    rw [hdone]
    exact congrArg (Outcome.forward · q) hanswer

theorem visible_acceptPublish (henv : SeesWrites env) (hconn : s.client.conn = true) :
    (s.acceptPublish env q).visible = s.acceptOutcome env q (s.isBlocked q) := by
  have hclient := client_retained s q
  have hcaps := (retained_cases s q).2.1
  rw [acceptPublish_eq]
  unfold acceptOutcome
  rw [← visible_retained]
  split
  · rfl
  · have hack : ((s.retained q).onInflight fun f => f.decreaseReceiveQuota.2).publishAck env q =
        s.publishAck env q := by
      unfold publishAck buildAck
      rw [onInflight_server, hcaps]
    have hblocked : ((s.retained q).onInflight fun f => f.decreaseReceiveQuota.2).isBlocked q = s.isBlocked q := by
      unfold isBlocked
      rw [onInflight_client, hclient]
      dsimp only
      rw [(Inflight.sameSend_decreaseReceiveQuota _).get]
    unfold acknowledgePublish
    dsimp only
    rw [hblocked]
    split
    · have hconn' : (s.retained q).client.conn = true := by rw [hclient]; exact hconn
      exact @visible_answer env (((s.retained q).onInflight _).onInflight _) _ hconn' rfl
    · rw [hack]
      exact visible_recordPublish henv hconn

theorem acceptOutcome_withInflight (henv : SeesWrites env) (blocked : Bool) :
    (s.withInflight f).acceptOutcome env q blocked = s.acceptOutcome env q blocked := by
  have hretained : (s.withInflight f).retained q = (s.retained q).withInflight f := by
    have hserver : (s.withInflight f).server = s.server := rfl
    unfold retained retainMessage
    rw [hserver]
    split
    · split <;> rfl
    · rfl
  have hack : (s.withInflight f).isAcknowledged env q = s.isAcknowledged env q := by
    unfold isAcknowledged
    rw [hretained]
    have halike : Alike (s.retained q) ((s.retained q).withInflight f) := alike_onInflight fun _ => f
    exact congrArg Option.isNone (halike.writePacket henv)
  unfold acceptOutcome
  rw [hack]
  rfl

theorem aliased_withInflight : (s.withInflight f).aliased env pk = (s.aliased env pk).withInflight f := by
  have hstamp : (s.withInflight f).stamp env pk = s.stamp env pk := rfl
  unfold aliased resolveAlias
  rw [hstamp]
  split <;> rfl

theorem subject_withInflight : (s.withInflight f).subject env pk = s.subject env pk := by
  have hstamp : (s.withInflight f).stamp env pk = s.stamp env pk := rfl
  have hresolve : ((s.withInflight f).resolveAlias (s.stamp env pk)).1 = (s.resolveAlias (s.stamp env pk)).1 := by
    unfold resolveAlias
    split <;> rfl
  unfold subject
  rw [hstamp, hresolve]
  rfl

theorem passes_withInflight :
    Passes env (s.withInflight f) ((s.withInflight f).subject env pk) q ↔ Passes env s (s.subject env pk) q := by
  rw [subject_withInflight]
  exact Iff.rfl

theorem visible_receivePublish_of_passes (henv : SeesWrites env) (hconn : s.client.conn = true) (h : Admits env s pk)
    (hq : Passes env s (s.subject env pk) q) :
    (s.receivePublish env pk).visible = (s.aliased env pk).acceptOutcome env q (s.isBlocked q) := by
  have hconn' : (s.aliased env pk).client.conn = true := by
    rw [aliased_eq]
    exact hconn
  have hblocked : (s.aliased env pk).isBlocked q = s.isBlocked q := by
    unfold isBlocked
    rw [aliased_eq]
  rw [receivePublish_of_admits h, judgePublish_of_passes (passes_aliased.mpr hq), visible_acceptPublish henv hconn',
    hblocked]

def stopOutcome (env : Env) (s : Session) (pk : Packet) : Outcome :=
  match env.onPublish (s.subject env pk) with
  | .code c => s.visible.answer (.puback, c.code, [])
  | _ => s.visible

theorem stopOutcome_withInflight : (s.withInflight f).stopOutcome env pk = s.stopOutcome env pk := by
  unfold stopOutcome
  rw [subject_withInflight]
  rfl

theorem visible_receivePublish_of_stopped (hconn : s.client.conn = true) (h : Admits env s pk)
    (hstop : ∀ q, ¬ Passes env s (s.subject env pk) q) : (s.receivePublish env pk).visible = s.stopOutcome env pk := by
  obtain ⟨inbound, halias⟩ := aliased_session env s pk
  rw [receivePublish_of_admits h]
  unfold judgePublish stopOutcome
  unfold Passes at hstop
  rw [halias]
  cases hverdict : env.onPublish (s.subject env pk) with
  | reject => rfl
  | code c =>
    rw [hverdict] at hstop
    dsimp only at hstop ⊢
    have hv5 : s.client.protocolVersion = 5 ∧ 0 < (s.subject env pk).fixedHeader.qos := by
      by_contra hno
      exact hstop _ ⟨hno, rfl⟩
    rw [if_pos (by simpa using hv5)]
    exact @visible_answer env { s with client := { s.client with inbound := inbound } } _ hconn rfl
  | accept pkx =>
    rw [hverdict] at hstop
    exact absurd rfl (hstop pkx)
  | ignore | other =>
    rw [hverdict] at hstop
    exact absurd rfl (hstop _)

theorem retain_ne (o : Outcome) (q : Packet) : o.retain q ≠ o := by
  intro h
  have hretained : o.retained ++ [q.copy false] = o.retained := congrArg Outcome.retained h
  simp at hretained

theorem forward_ne (o : Outcome) (q : Packet) (a : Answer) (retained : Bool) :
    (if retained then o.retain q else o).forward q ≠ o.answer a := by
  intro h
  have hforwarded := congrArg Outcome.forwarded h
  cases retained <;> simp [Outcome.forward, Outcome.retain, Outcome.answer] at hforwarded

theorem acceptOutcome_eq_iff (hqos : q.fixedHeader.qos ≠ 0) (hinline : s.client.inline = false) (o : Outcome)
    (ho : o.answers = s.visible.answers) (blocked : Bool) :
    s.acceptOutcome env q blocked = o.answer (.pubrec, Code.packetIdentifierInUse.code, []) ↔
      blocked = true ∧ (if s.retains q then s.visible.retain q else s.visible) = o := by
  unfold acceptOutcome
  dsimp only
  rw [if_neg (by simp [hqos, hinline])]
  cases blocked with
  | true => simp [answer_inj]
  | false =>
    refine iff_of_false ?_ fun h => absurd h.1 (by decide)
    intro h
    have hsame : ∀ retained acknowledged : Bool,
        (if acknowledged then
            ((if retained then s.visible.retain q else s.visible).answer (ackType q, Code.success.code, [])).forward q
          else (if retained then s.visible.retain q else s.visible).answer (ackType q, Code.success.code, [])).answers =
          o.answers ++ [(ackType q, Code.success.code, [])] := by
      intro retained acknowledged
      rw [ho]
      cases retained <;> cases acknowledged <;> rfl
    have hanswers := (hsame _ _).symm.trans (congrArg Outcome.answers h)
    have hcode : Code.success.code = Code.packetIdentifierInUse.code :=
      congrArg (fun a : Answer => a.2.1) (List.singleton_inj.mp (List.append_cancel_left hanswers))
    exact absurd hcode (by decide)

theorem isBlocked_of_qos_zero (hqos : q.fixedHeader.qos = 0) : s.isBlocked q = false := by
  unfold isBlocked
  rw [hqos]
  rfl

theorem visible_receivePublish_eq_inUse_iff (henv : SeesWrites env) (hconn : s.client.conn = true)
    (h : Screened env s pk) (hinline : s.client.inline = false) (hfree : s.isReceived pk = false) :
    (s.receivePublish env pk).visible = s.visible.answer (.pubrec, Code.packetIdentifierInUse.code, []) ↔
      ∃ q, Passes env s (s.subject env pk) q ∧ s.isBlocked q = true ∧ s.retains q = false := by
  have hadmits := h.admits (.inr hfree)
  obtain ⟨inbound, halias⟩ := aliased_session env s pk
  by_cases hpass : ∃ q, Passes env s (s.subject env pk) q
  · obtain ⟨q, hq⟩ := hpass
    have hunique : (∃ q, Passes env s (s.subject env pk) q ∧ s.isBlocked q = true ∧ s.retains q = false) ↔
        s.isBlocked q = true ∧ s.retains q = false := by
      constructor
      · rintro ⟨q', hq', hrest⟩
        rw [passes_unique hq hq'] at hrest
        exact hrest
      · exact fun hrest => ⟨q, hq, hrest⟩
    rw [visible_receivePublish_of_passes henv hconn hadmits hq, hunique, halias]
    by_cases hqos : q.fixedHeader.qos = 0
    · refine iff_of_false ?_ fun hblocked => absurd hblocked.1 (by rw [isBlocked_of_qos_zero hqos]; decide)
      unfold acceptOutcome
      dsimp only
      rw [if_pos (by simp [hqos])]
      exact forward_ne s.visible q _ _
    · have hinline' : ({ s with client := { s.client with inbound := inbound } } : Session).client.inline = false :=
        hinline
      rw [acceptOutcome_eq_iff hqos hinline' s.visible rfl]
      apply and_congr_right'
      show (if s.retains q then s.visible.retain q else s.visible) = s.visible ↔ _
      cases s.retains q with
      | true => exact iff_of_false (retain_ne _ _) (by decide)
      | false => exact iff_of_true rfl rfl
  · rw [visible_receivePublish_of_stopped hconn hadmits (not_exists.mp hpass)]
    refine iff_of_false ?_ fun hq => hpass ⟨hq.choose, hq.choose_spec.1⟩
    unfold stopOutcome
    split
    · exact fun heq => absurd (answer_inj.mp heq).2 (by simp)
    · intro heq
      have hanswers := congrArg Outcome.answers heq
      simp [Outcome.answer] at hanswers

def isInUse (s : Session) (pk q : Packet) : Bool := s.isReceived pk || s.isBlocked q

/-- The inflight messages give the same answers to the questions of a PUBLISH, as far as they are asked. -/
def Concur (env : Env) (s : Session) (f : Inflight) (pk : Packet) : Prop :=
  Screened env s pk → s.client.inline = false →
    (∀ q, Passes env s (s.subject env pk) q → s.isInUse pk q = (s.withInflight f).isInUse pk q) ∧
      ((∀ q, Passes env s (s.subject env pk) q → s.retains q = true) →
        s.isReceived pk = (s.withInflight f).isReceived pk)

theorem visible_receivePublish_withInflight (henv : SeesWrites env) (hconn : s.client.conn = true) (h : Admits env s pk)
    (h' : Admits env (s.withInflight f) pk) :
    (s.receivePublish env pk).visible = ((s.withInflight f).receivePublish env pk).visible ↔
      ∀ q, Passes env s (s.subject env pk) q → (s.aliased env pk).acceptOutcome env q (s.isBlocked q) =
        (s.aliased env pk).acceptOutcome env q ((s.withInflight f).isBlocked q) := by
  have hconn' : (s.withInflight f).client.conn = true := hconn
  by_cases hpass : ∃ q, Passes env s (s.subject env pk) q
  · obtain ⟨q, hq⟩ := hpass
    rw [visible_receivePublish_of_passes henv hconn h hq,
      visible_receivePublish_of_passes henv hconn' h' (passes_withInflight.mpr hq), aliased_withInflight,
      acceptOutcome_withInflight henv]
    refine ⟨fun hsame q' hq' => ?_, fun hall => hall q hq⟩
    rw [passes_unique hq hq']
    exact hsame
  · have hnone := not_exists.mp hpass
    have hstopped := visible_receivePublish_of_stopped hconn' h' fun q hq => hnone q (passes_withInflight.mp hq)
    rw [stopOutcome_withInflight] at hstopped
    rw [visible_receivePublish_of_stopped hconn h hnone, hstopped]
    exact iff_of_true rfl fun q hq => absurd hq (hnone q)

theorem acceptOutcome_congr_iff (hinline : s.client.inline = false) (b b' : Bool)
    (hqos : q.fixedHeader.qos = 0 → b = b') : s.acceptOutcome env q b = s.acceptOutcome env q b' ↔ b = b' := by
  by_cases hzero : q.fixedHeader.qos = 0
  · rw [hqos hzero]
    exact iff_of_true rfl rfl
  · have htaken := @acceptOutcome_eq_iff env s q hzero hinline
      (if s.retains q then s.visible.retain q else s.visible) (by split <;> rfl)
    have hfree : s.acceptOutcome env q false ≠ s.acceptOutcome env q true := by
      rw [(htaken true).mpr ⟨rfl, rfl⟩]
      exact fun heq => absurd ((htaken false).mp heq).1 (by decide)
    cases b <;> cases b'
    · exact iff_of_true rfl rfl
    · exact iff_of_false hfree (by decide)
    · exact iff_of_false hfree.symm (by decide)
    · exact iff_of_true rfl rfl

theorem visible_receivePublish_eq_iff (henv : SeesWrites env) (hconn : s.client.conn = true) (h : Admits env s pk)
    (h' : Admits env (s.withInflight f) pk) (hinline : s.client.inline = false) :
    (s.receivePublish env pk).visible = ((s.withInflight f).receivePublish env pk).visible ↔
      ∀ q, Passes env s (s.subject env pk) q → s.isBlocked q = (s.withInflight f).isBlocked q := by
  rw [visible_receivePublish_withInflight henv hconn h h']
  refine forall₂_congr fun q hq => acceptOutcome_congr_iff (inline_aliased.trans hinline) _ _ fun hqos => ?_
  rw [isBlocked_of_qos_zero hqos, isBlocked_of_qos_zero hqos]

theorem exists_blocked_iff {P : Packet → Prop} (hunique : ∀ q q', P q → P q' → q' = q)
    (blocked retains : Packet → Bool) :
    (∃ q, P q ∧ blocked q = true ∧ retains q = false) ↔
      (∀ q, P q → blocked q = true) ∧ ¬ ∀ q, P q → retains q = true := by
  constructor
  · rintro ⟨q, hq, hblocked, hretains⟩
    refine ⟨fun q' hq' => ?_, fun hall => ?_⟩
    · rw [hunique q q' hq hq']
      exact hblocked
    · rw [hall q hq] at hretains
      cases hretains
  · rintro ⟨hblocked, hretains⟩
    obtain ⟨q, hq⟩ := not_forall.mp hretains
    obtain ⟨hq, hnot⟩ := Classical.not_imp.mp hq
    exact ⟨q, hq, hblocked q hq, Bool.eq_false_iff.mpr hnot⟩

theorem outcome_publish_iff (henv : SeesWrites env) (hconn : s.client.conn = true)
    (hquota : f.receiveQuota = s.client.inflight.receiveQuota) (htype : pk.fixedHeader.type = .publish) :
    s.outcome env pk = (s.withInflight f).outcome env pk ↔ Concur env s f pk := by
  have hconn' : (s.withInflight f).client.conn = true := hconn
  rw [outcome_publish htype, outcome_publish htype]
  by_cases hscreened : Screened env s pk
  swap
  · exact iff_of_true (visible_receivePublish_of_not_screened hconn hquota hscreened) fun h => absurd h hscreened
  have hscreened' : Screened env (s.withInflight f) pk :=
    ⟨hscreened.topic, fun hzero => hscreened.quota (hquota.symm.trans hzero), hscreened.acl⟩
  cases hinline : s.client.inline with
  | true =>
    refine iff_of_true ?_ fun _ hclient => absurd (hinline.symm.trans hclient) (by decide)
    refine (visible_receivePublish_withInflight henv hconn (hscreened.admits (.inl hinline))
      (hscreened'.admits (.inl hinline))).mpr fun q _ => ?_
    unfold acceptOutcome
    rw [inline_aliased, hinline, Bool.or_true]
    rfl
  | false =>
    have hconcur : Concur env s f pk ↔
        (∀ q, Passes env s (s.subject env pk) q → s.isInUse pk q = (s.withInflight f).isInUse pk q) ∧
          ((∀ q, Passes env s (s.subject env pk) q → s.retains q = true) →
            s.isReceived pk = (s.withInflight f).isReceived pk) :=
      ⟨fun h => h hscreened hinline, fun h _ _ => h⟩
    have hunique : ∀ q q', Passes env s (s.subject env pk) q → Passes env s (s.subject env pk) q' → q' = q :=
      fun q q' => passes_unique
    rw [hconcur]
    unfold isInUse
    cases hs : s.isReceived pk <;> cases hs' : (s.withInflight f).isReceived pk
    · rw [visible_receivePublish_eq_iff henv hconn (hscreened.admits (.inr hs)) (hscreened'.admits (.inr hs')) hinline]
      simp
    · rw [visible_receivePublish_of_received hconn' hscreened' hinline hs', visible_withInflight,
        visible_receivePublish_eq_inUse_iff henv hconn hscreened hinline hs, exists_blocked_iff hunique]
      simp
    · rw [visible_receivePublish_of_received hconn hscreened hinline hs, eq_comm, ← @visible_withInflight s f,
        visible_receivePublish_eq_inUse_iff henv hconn' hscreened' hinline hs']
      simp only [passes_withInflight]
      rw [exists_blocked_iff hunique]
      have hretains : (s.withInflight f).retains = s.retains := rfl
      rw [hretains]
      simp
    · rw [visible_receivePublish_of_received hconn hscreened hinline hs,
        visible_receivePublish_of_received hconn' hscreened' hinline hs']
      simp

/-! ### All requests -/

structure OutboundApart (f g : Inflight) : Prop where
  receiveQuota : g.receiveQuota = f.receiveQuota
  others : ∀ id e, e.isOutbound = false → (f.get id = some e ↔ g.get id = some e)

/-- The inflight messages do not matter for a request. For SUBSCRIBE, UNSUBSCRIBE and PUBREL its id has an
entry in both maps or in none; a request that changes nothing apart from that need not meet the condition. -/
def Unaffected (env : Env) (s : Session) (f : Inflight) (pk : Packet) : Prop :=
  match pk.fixedHeader.type with
  | .subscribe =>
    s.isUsed (env.onSubscribe pk).packetID = (s.withInflight f).isUsed (env.onSubscribe pk).packetID ∨
      (∀ sub ∈ (env.onSubscribe pk).filters, GrantsInUse env s sub) ∧
        (s.addSubscriptions (env.onSubscribe pk).filters).server.topics = s.server.topics ∧
        (s.addSubscriptions (env.onSubscribe pk).filters).client.subscriptions = s.client.subscriptions
  | .unsubscribe =>
    s.isUsed pk.packetID = (s.withInflight f).isUsed pk.packetID ∨ (env.onUnsubscribe pk).filters = []
  | .publish => Concur env s f pk
  | .pubrel => s.isUsed pk.packetID = (s.withInflight f).isUsed pk.packetID
  | _ => True

/-- A request of a client is handled alike with two inflight maps if and only if they do not matter for it. -/
theorem same_outcome_iff (henv : SeesWrites env) (hconn : s.client.conn = true)
    (hmaps : OutboundApart s.client.inflight f) :
    s.outcome env pk = (s.withInflight f).outcome env pk ↔ Unaffected env s f pk := by
  unfold Unaffected
  cases htype : pk.fixedHeader.type with
  | subscribe => exact outcome_subscribe_iff hconn htype
  | unsubscribe => exact outcome_unsubscribe_iff hconn htype
  | publish => exact outcome_publish_iff henv hconn hmaps.receiveQuota htype
  | pubrel => exact outcome_pubrel_iff hconn htype
  | _ =>
    refine iff_of_true ?_ trivial
    unfold outcome afterAnswer request
    rw [htype]
    rfl

def quietClient : Session := { client := { protocolVersion := 5, inflight := Inflight.new.resetReceiveQuota 10 } }

def busyInflight : Inflight := quietClient.client.inflight.put sentMessage

theorem outboundApart_busyInflight : OutboundApart quietClient.client.inflight busyInflight := by
  refine ⟨rfl, fun id e he => ?_⟩
  unfold busyInflight
  rw [Inflight.get_put]
  split
  · refine iff_of_false nofun fun heq => ?_
    rw [← Option.some.inj heq] at he
    cases he
  · exact Iff.rfl

theorem seesWrites_accepting (now : Int) : SeesWrites (.accepting now) := fun _ _ _ _ => rfl

def filterRequest (type : PacketType) (id : UInt16) : Packet :=
  { fixedHeader := { type := type, qos := 1 }, packetID := id, filters := [{ filter := [97], qos := 1 }] }

def exactlyOnce : Packet :=
  { fixedHeader := { type := .publish, qos := 2 }, packetID := 1, topicName := [97], payload := [1] }

theorem same_outcome_of_other_id :
    quietClient.outcome (.accepting 100) (filterRequest .subscribe 2) =
      (quietClient.withInflight busyInflight).outcome (.accepting 100) (filterRequest .subscribe 2) :=
  (same_outcome_iff (seesWrites_accepting 100) rfl outboundApart_busyInflight).mpr (.inl rfl)

/-- While a message is under way to the client under id 1, its own SUBSCRIBE and QoS 2 PUBLISH under id 1 are
refused, and its PUBREL for an unknown id 1 is taken for a known one. -/
theorem refused_of_same_id :
    OutboundApart quietClient.client.inflight busyInflight ∧
      (quietClient.outcome (.accepting 100) (filterRequest .subscribe 1)).answers = [(.suback, 0, [1])] ∧
      ((quietClient.withInflight busyInflight).outcome (.accepting 100) (filterRequest .subscribe 1)).answers =
        [(.suback, 0, [0x91])] ∧
      (quietClient.outcome (.accepting 100) exactlyOnce).answers = [(.pubrec, 0, [])] ∧
      ((quietClient.withInflight busyInflight).outcome (.accepting 100) exactlyOnce).answers =
        [(.pubrec, 0x91, [])] ∧
      (quietClient.outcome (.accepting 100) (filterRequest .pubrel 1)).answers = [(.pubcomp, 0x92, [])] ∧
      ((quietClient.withInflight busyInflight).outcome (.accepting 100) (filterRequest .pubrel 1)).answers =
        [(.pubcomp, 0, [])] := by
  refine ⟨outboundApart_busyInflight, ?_, ?_, ?_, ?_, ?_, ?_⟩
  all_goals decide

end Session
end Mqtt
