import MqttBroker.Library.Runs
import MqttBroker.Session.Collisions

/-! The topic aliases that a client registers with its PUBLISH packets. The table
of the connection is compared with the history of the connection: of the packets that
were not turned away before, it has the topic that was last sent with an alias, and the
empty topic for an alias that was never sent with one. -/

namespace Mqtt
open FiniteMap

section Table
variable {a : InboundTopicAliases} (hmax : a.maximum ≠ 0) (id : UInt16) (topic : Bytes)
include hmax

theorem InboundTopicAliases.set_snd : (a.set id topic).2.maximum = a.maximum ∧ ∀ k,
    (a.set id topic).2.internal.lookup k =
      if k = id then some (if topic = [] then (a.internal.lookup id).getD [] else topic) else a.internal.lookup k := by
  unfold set
  rw [if_neg hmax]
  cases hold : a.internal.lookup id with
  | some existing =>
    dsimp only
    split
    · refine ⟨rfl, fun k => ?_⟩
      split
      · rename_i hk
        rw [hk]
        exact hold
      · rfl
    · exact ⟨rfl, fun k => lookup_insert_eq _ _ _ _⟩
  | none =>
    -- a new alias is stored with an empty topic too
    refine ⟨rfl, fun k => (lookup_insert_eq _ _ _ _).trans ?_⟩
    by_cases hempty : topic = []
    · rw [if_pos hempty, hempty]
      rfl
    · rw [if_neg hempty]

end Table

/-! ### A connection that publishes -/

/-- The session of a client, the PUBLISH packets it has sent on the connection, the last one first, and those of them
that were not turned away for the receive maximum or for their packet id. -/
structure Publisher where
  session : Session
  sent : List Packet := []
  heard : List Packet := []

namespace Publisher
open Session
variable {env : Env} {x y : Publisher} {pk : Packet} {n : UInt16}

def Uses (a : UInt16) (pk : Packet) : Prop := pk.properties.topicAliasFlag = true ∧ pk.properties.topicAlias = a

instance (a : UInt16) (pk : Packet) : Decidable (Uses a pk) := inferInstanceAs (Decidable (_ ∧ _))

def lastTopic (sent : List Packet) (a : UInt16) : Option Bytes :=
  (sent.find? fun pk => Uses a pk ∧ pk.topicName ≠ []).map Packet.topicName

def IsUsed (sent : List Packet) (a : UInt16) : Prop := ∃ pk ∈ sent, Uses a pk

theorem lastTopic_cons (sent : List Packet) (a : UInt16) :
    lastTopic (pk :: sent) a = if Uses a pk ∧ pk.topicName ≠ [] then some pk.topicName else lastTopic sent a := by
  unfold lastTopic
  by_cases h : Uses a pk ∧ pk.topicName ≠ []
  · rw [List.find?_cons_of_pos (by simpa using h), if_pos h]
    rfl
  · rw [List.find?_cons_of_neg (by simpa using h), if_neg h]

/-- The packet is not turned away before its alias is looked at. -/
def heeds (s : Session) (pk : Packet) : Bool :=
  s.client.inflight.receiveQuota ≠ 0 &&
    (s.client.inline || !(s.client.inflight.get pk.packetID).any fun pki => pki.fixedHeader.type == .pubrec)

def run (env : Env) (x : Publisher) (pk : Packet) : Publisher where
  session := (x.session.processPublish env pk).2
  sent := pk :: x.sent
  heard := if heeds x.session pk then pk :: x.heard else x.heard

def Step (x : Publisher) (call : Env × Packet) (y : Publisher) : Prop := y = x.run call.1 call.2

/-- The packet passes `PublishValidate`, the topic check and the ACL check, and `OnPublish` returns its argument. -/
structure Checked (x : Publisher) (call : Env × Packet) : Prop where
  valid : call.2.publishValidate x.session.server.caps.topicAliasMaximum = .success
  topic : x.session.client.inline = true ∨ isValidFilter call.2.topicName true = true
  acl : x.session.client.inline = true ∨ call.1.onACLCheck x.session.client.id call.2.topicName true = true
  accepts : ∀ p, call.1.onPublish p = .accept p

structure Opened (x : Publisher) : Prop where
  version : x.session.client.protocolVersion = 5
  allowed : x.session.server.caps.topicAliasMaximum ≠ 0
  inbound : x.session.client.inbound = { maximum := x.session.server.caps.topicAliasMaximum }
  sent : x.sent = []
  heard : x.heard = []

/-- The packet id is that of another exchange, so that a PUBLISH of QoS 2 is refused. -/
def IsBlocked (env : Env) (s : Session) (pk : Packet) : Prop :=
  s.client.inline = false ∧ s.isBlocked (s.subject env pk) = true

def Answerable (env : Env) (s : Session) (pk : Packet) : Prop :=
  (s.subject env pk).fixedHeader.qos ≠ 0 → ¬ Fails env s (s.publishAck env (s.subject env pk))

/-! ### Handling one packet -/

theorem Checked.admits_iff (hok : Checked x (env, pk)) : Admits env x.session pk ↔ heeds x.session pk = true := by
  unfold heeds
  rw [Bool.and_eq_true, Bool.or_eq_true, decide_eq_true_iff, Bool.not_eq_true', Bool.eq_false_iff, Ne, Ne,
    Option.any_eq_true]
  constructor
  · intro h
    refine ⟨h.quota, h.fresh.imp_right ?_⟩
    rintro hfresh ⟨pki, hget, htype⟩
    exact hfresh pki hget (beq_iff_eq.mp htype)
  · rintro ⟨hquota, hfresh⟩
    exact ⟨hok.topic, hquota, hok.acl, hfresh.imp_right fun hnone pki hget htype =>
      hnone ⟨pki, hget, beq_iff_eq.mpr htype⟩⟩

variable {s t : Session}

theorem isBlocked_retained (env : Env) (s : Session) (pk q : Packet) :
    ((s.aliased env pk).retained q).isBlocked q = s.isBlocked q := by
  obtain ⟨hclient, -, -⟩ := retained_cases (s.aliased env pk) q
  unfold Session.isBlocked
  rw [hclient, aliased_eq]

/-- How a packet is received: it is turned away, refused after its alias was looked at, or accepted. -/
theorem Checked.received (hok : Checked x (env, pk)) :
    (heeds x.session pk = false ∧ ∃ err t, x.session.receivePublish env pk = .returned err t ∧ Frame x.session t) ∨
      heeds x.session pk = true ∧ ∃ t, Frame ((x.session.aliased env pk).retained (x.session.subject env pk)) t ∧
        ((∃ err, x.session.receivePublish env pk = .returned err t) ∧
            (Answerable env x.session pk → IsBlocked env x.session pk) ∨
          x.session.receivePublish env pk = .accepted (x.session.subject env pk) t ∧ ¬ IsBlocked env x.session pk) := by
  by_cases hheeds : heeds x.session pk = true
  · refine .inr ⟨hheeds, ?_⟩
    have hpasses : Passes env (x.session.aliased env pk) (x.session.subject env pk) (x.session.subject env pk) := by
      unfold Passes
      rw [hok.accepts]
    have hinline : (x.session.aliased env pk).client.inline = x.session.client.inline := by rw [aliased_eq]
    rw [receivePublish_of_admits (hok.admits_iff.mpr hheeds), judgePublish_of_passes hpasses]
    by_cases hnone : (x.session.subject env pk).fixedHeader.qos = 0 ∨ x.session.client.inline = true
    · refine ⟨_, Frame.refl _, .inr ⟨?_, ?_⟩⟩
      · rw [acceptPublish_eq, if_pos (by rw [hinline]; simpa using hnone)]
      · rintro ⟨hnetwork, hblocked⟩
        rcases hnone with hqos | hinline
        · unfold Session.isBlocked at hblocked
          rw [hqos] at hblocked
          exact absurd hblocked (by simp)
        · rw [hnetwork] at hinline
          cases hinline
    · rw [not_or, Bool.not_eq_true] at hnone
      have hanswered : (x.session.aliased env pk).acceptPublish env (x.session.subject env pk) =
          ((x.session.aliased env pk).retained (x.session.subject env pk)).acknowledgePublish env
            (x.session.subject env pk) := by
        rw [acceptPublish_eq, if_neg (by rw [hinline]; simpa using hnone)]
      rw [hanswered]
      obtain ⟨htaken, err, t, heq, hframe, -⟩ | ⟨hfree, hfails, err, t, heq, hframe, -⟩ | ⟨hfree, t, heq, hframe, -⟩ :=
        acknowledgePublish_cases env ((x.session.aliased env pk).retained (x.session.subject env pk))
          (x.session.subject env pk)
      · rw [isBlocked_retained] at htaken
        exact ⟨t, hframe, .inl ⟨⟨err, heq⟩, fun _ => ⟨hnone.2, htaken⟩⟩⟩
      · exact ⟨t, hframe, .inl ⟨⟨err, heq⟩, fun hack => absurd (fails_retained hfails) (hack hnone.1)⟩⟩
      · rw [isBlocked_retained] at hfree
        refine ⟨t, hframe, .inr ⟨heq, fun hblocked => ?_⟩⟩
        cases hfree.symm.trans hblocked.2
  · obtain ⟨err, t, heq, hquiet⟩ := (halts_receivePublish fun h => hheeds (hok.admits_iff.mp h)).quiet
    exact .inl ⟨Bool.eq_false_iff.mpr hheeds, err, t, heq, hquiet.toFrame⟩

theorem inbound_frame {q : Packet} (h : Frame (s.retained q) t) : t.client.inbound = s.client.inbound := by
  obtain ⟨hclient, -, -⟩ := retained_cases s q
  obtain ⟨_, _, _, _, _, _, -, rfl⟩ := h
  have hinbound := congrArg Client.inbound hclient
  exact hinbound

theorem messages_frame (h : Frame s t) :
    t.visible.forwarded = s.visible.forwarded ∧ t.visible.retained = s.visible.retained := by
  obtain ⟨_, _, _, _, _, es, hes, rfl⟩ := h
  have hnone : ∀ e ∈ es, forwardedOf e = none ∧ retainedOf e = none := by
    intro e he
    have hinert := hes e he
    cases e <;> first | exact ⟨rfl, rfl⟩ | cases hinert
  unfold visible
  dsimp only
  rw [List.filterMap_append, List.filterMap_append, List.filterMap_eq_nil_iff.mpr fun e he => (hnone e he).1,
    List.filterMap_eq_nil_iff.mpr fun e he => (hnone e he).2]
  exact ⟨List.append_nil _, List.append_nil _⟩

theorem inbound_run (hok : Checked x (env, pk)) : (x.run env pk).session.client.inbound =
    if heeds x.session pk then (x.session.aliased env pk).client.inbound else x.session.client.inbound := by
  obtain ⟨hheeds, err, t, heq, hframe⟩ | ⟨hheeds, t, hframe, ⟨⟨err, heq⟩, -⟩ | ⟨heq, -⟩⟩ := hok.received
  all_goals
    rw [hheeds]
    show (x.session.processPublish env pk).2.client.inbound = _
    unfold processPublish
    rw [heq]
  · obtain ⟨_, _, _, _, _, _, -, rfl⟩ := hframe
    rfl
  · exact inbound_frame hframe
  · obtain ⟨_, _, _, _, _, _, -, -, hdelivered⟩ := @delivers_publishToSubscribers env t (x.session.subject env pk)
    have hinbound : t.client.inbound = (x.session.aliased env pk).client.inbound := inbound_frame hframe
    dsimp only
    rw [emit_client, hdelivered]
    exact hinbound

theorem messages_aliased (env : Env) (s : Session) (pk : Packet) :
    (s.aliased env pk).visible.forwarded = s.visible.forwarded ∧
      (s.aliased env pk).visible.retained = s.visible.retained ∧
      (s.aliased env pk).retainedFrom (s.subject env pk) = s.retainedFrom (s.subject env pk) := by
  rw [aliased_eq]
  exact ⟨rfl, rfl, rfl⟩

/-- What is passed on and retained. -/
theorem Checked.messages (hok : Checked x (env, pk)) (hack : Answerable env x.session pk) :
    (heeds x.session pk = false ∧ (x.run env pk).session.visible.forwarded = x.session.visible.forwarded ∧
        (x.run env pk).session.visible.retained = x.session.visible.retained) ∨
      heeds x.session pk = true ∧
        (x.run env pk).session.visible.retained =
          x.session.visible.retained ++ x.session.retainedFrom (x.session.subject env pk) ∧
        (IsBlocked env x.session pk ∧ (x.run env pk).session.visible.forwarded = x.session.visible.forwarded ∨
          ¬ IsBlocked env x.session pk ∧ (x.run env pk).session.visible.forwarded =
            x.session.visible.forwarded ++ [x.session.subject env pk]) := by
  have hrun : (x.run env pk).session = (x.session.processPublish env pk).2 := rfl
  obtain ⟨halias, hretalias, hfrom⟩ := messages_aliased env x.session pk
  unfold processPublish at hrun
  obtain ⟨hheeds, err, t, heq, hframe⟩ | ⟨hheeds, t, hframe, ⟨⟨err, heq⟩, hblocked⟩ | ⟨heq, hfree⟩⟩ := hok.received
  · rw [heq] at hrun
    rw [hrun]
    exact .inl ⟨hheeds, messages_frame hframe⟩
  · rw [heq] at hrun
    obtain ⟨hforwarded, hretained⟩ := messages_frame hframe
    rw [messages_retained.1, halias] at hforwarded
    rw [messages_retained.2, hretalias, hfrom] at hretained
    rw [hrun]
    exact .inr ⟨hheeds, hretained, .inl ⟨hblocked hack, hforwarded⟩⟩
  · rw [heq] at hrun
    obtain ⟨hforwarded, hretained⟩ := messages_frame hframe
    rw [messages_retained.1, halias] at hforwarded
    rw [messages_retained.2, hretalias, hfrom] at hretained
    have hemit : (x.run env pk).session.visible = (t.publishToSubscribers env (x.session.subject env pk)).visible := by
      rw [hrun]
      exact visible_emit rfl rfl rfl
    rw [hemit, messages_publishToSubscribers.1, messages_publishToSubscribers.2, hforwarded, hretained]
    exact .inr ⟨hheeds, rfl, .inr ⟨hfree, rfl⟩⟩

theorem topicAlias_ne_zero (h : pk.publishValidate n = .success)
    (hcarries : pk.topicName = [] ∨ pk.properties.topicAliasFlag = true) : pk.properties.topicAlias ≠ 0 := by
  intro hzero
  unfold Packet.publishValidate at h
  rw [hzero] at h
  repeat' split at h
  all_goals first | exact absurd h (by decide) | skip
  rcases hcarries with hempty | hflag
  · simp_all
  · simp_all

theorem aliased_inbound (halias : pk.properties.topicAliasFlag = true) (hne : pk.properties.topicAlias ≠ 0) :
    (x.session.aliased env pk).client.inbound =
      (x.session.client.inbound.set pk.properties.topicAlias pk.topicName).2 ∧
    (x.session.subject env pk).topicName = (x.session.client.inbound.set pk.properties.topicAlias pk.topicName).1 := by
  have hcarries : ((x.session.stamp env pk).properties.topicAliasFlag &&
      decide (0 < (x.session.stamp env pk).properties.topicAlias)) = true := by
    show (pk.properties.topicAliasFlag && decide (0 < pk.properties.topicAlias)) = true
    rw [halias, Bool.true_and, decide_eq_true_eq]
    exact UInt16.pos_iff_ne_zero.mpr hne
  obtain ⟨qos, -, hsubject⟩ := subject_cases env x.session pk
  rw [hsubject]
  unfold aliased resolveAlias
  rw [if_pos hcarries]
  exact ⟨rfl, rfl⟩

/-! ### The table -/

structure Sound (x : Publisher) : Prop where
  maximum : x.session.client.inbound.maximum ≠ 0
  table : ∀ a, (IsUsed x.heard a → x.session.client.inbound.internal.lookup a = some ((lastTopic x.heard a).getD [])) ∧
    (¬ IsUsed x.heard a → x.session.client.inbound.internal.lookup a = none)

theorem lastTopic_of_not_used {sent : List Packet} {a : UInt16} (h : ¬ IsUsed sent a) : lastTopic sent a = none := by
  unfold lastTopic
  rw [List.find?_eq_none.mpr fun q hq huses => h ⟨q, hq, (of_decide_eq_true huses).1⟩]
  rfl

theorem Sound.lookup_getD (h : Sound x) (a : UInt16) :
    (x.session.client.inbound.internal.lookup a).getD [] = (lastTopic x.heard a).getD [] := by
  by_cases hused : IsUsed x.heard a
  · rw [(h.table a).1 hused]
    rfl
  · rw [(h.table a).2 hused, lastTopic_of_not_used hused]

theorem isUsed_cons {sent : List Packet} {a : UInt16} : IsUsed (pk :: sent) a ↔ Uses a pk ∨ IsUsed sent a :=
  List.exists_mem_cons_iff ..

theorem Sound.run (h : Sound x) (hok : Checked x (env, pk)) : Sound (x.run env pk) := by
  have hinbound := inbound_run hok
  by_cases hheeds : heeds x.session pk = true
  · rw [if_pos hheeds] at hinbound
    have hheard : (x.run env pk).heard = pk :: x.heard := if_pos hheeds
    -- only a packet with an alias changes the table
    by_cases halias : pk.properties.topicAliasFlag = true
    · have hne := topicAlias_ne_zero hok.valid (.inr halias)
      obtain ⟨hmax, htable⟩ := InboundTopicAliases.set_snd h.maximum pk.properties.topicAlias pk.topicName
      rw [(aliased_inbound halias hne).1] at hinbound
      refine ⟨by rw [hinbound, hmax]; exact h.maximum, fun a => ?_⟩
      rw [hinbound, htable, hheard, isUsed_cons, lastTopic_cons]
      by_cases huses : Uses a pk
      · obtain rfl := huses.2
        refine ⟨fun _ => ?_, fun hnot => absurd (.inl huses) hnot⟩
        rw [if_pos rfl, h.lookup_getD]
        by_cases hempty : pk.topicName = []
        · rw [if_pos hempty, if_neg fun hset => hset.2 hempty]
        · rw [if_neg hempty, if_pos ⟨huses, hempty⟩]
          rfl
      · rw [if_neg fun heq => huses ⟨halias, heq.symm⟩, if_neg fun hset => huses hset.1, or_iff_right huses]
        exact h.table a
    · have hsame : (x.session.aliased env pk).client.inbound = x.session.client.inbound := by
        have hno : ¬ ((x.session.stamp env pk).properties.topicAliasFlag &&
            decide (0 < (x.session.stamp env pk).properties.topicAlias)) = true := by
          rw [Bool.and_eq_true]
          exact fun hcarries => halias hcarries.1
        unfold aliased resolveAlias
        rw [if_neg hno]
      rw [hsame] at hinbound
      refine ⟨by rw [hinbound]; exact h.maximum, fun a => ?_⟩
      rw [hinbound, hheard, isUsed_cons, lastTopic_cons, if_neg fun hset => halias hset.1.1,
        or_iff_right fun huses => halias huses.1]
      exact h.table a
  · rw [if_neg hheeds] at hinbound
    have hheard : (x.run env pk).heard = x.heard := if_neg hheeds
    refine ⟨by rw [hinbound]; exact h.maximum, fun a => ?_⟩
    rw [hinbound, hheard]
    exact h.table a

def withAlias (topic : Bytes) : Packet :=
  { fixedHeader := { type := .publish, retain := true }, topicName := topic
    properties := { topicAlias := 5, topicAliasFlag := true } }

end Publisher
end Mqtt
