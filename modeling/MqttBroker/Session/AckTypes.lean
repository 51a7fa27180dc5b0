import MqttBroker.Session.Failures
import MqttBroker.Session.Delivery

/-! The acknowledgement of a PUBLISH by its QoS. The access check and the test for an
unfinished exchange answer by the QoS of the packet; what comes after them answers by
the QoS that is left when it is lowered to the maximum of the server, and an error of
`OnPublish` is always a PUBACK. -/

namespace Mqtt
namespace Session

variable {env : Env} {s t u : Session} {pk ack : Packet}

/-! ### Acknowledgements in the log -/

def isAck (pk : Packet) : Bool :=
  pk.fixedHeader.type == .puback || pk.fixedHeader.type == .pubrec || pk.fixedHeader.type == .pubrel ||
    pk.fixedHeader.type == .pubcomp

def writtenAck : Event → Option Packet
  | .wrote pk _ => if isAck pk then some pk else none
  | _ => none

/-- The acknowledgements that `processPublish` writes for a PUBLISH: those up to the point where the message is passed
to the subscribers. What is written from there on are messages that were deferred. -/
def acksFor (env : Env) (s : Session) (pk : Packet) : List Packet :=
  (((s.processPublish env pk).2.log.drop s.log.length).takeWhile fun e => !isPassedOn e).filterMap writtenAck

/-- The acknowledgements written on the way from one session to another, in which nothing is passed on. -/
def Acks (s t : Session) (acks : List Packet) : Prop :=
  ∃ es, t.log = s.log ++ es ∧ (∀ e ∈ es, isPassedOn e = false) ∧ es.filterMap writtenAck = acks

theorem Acks.trans {l l' : List Packet} (h : Acks s t l) (h' : Acks t u l') : Acks s u (l ++ l') := by
  obtain ⟨es, hlog, hes, rfl⟩ := h
  obtain ⟨es', hlog', hes', rfl⟩ := h'
  refine ⟨es ++ es', by rw [hlog', hlog, List.append_assoc], fun e he => ?_, List.filterMap_append⟩
  exact (List.mem_append.mp he).elim (hes e) (hes' e)

abbrev NoAcks (s t : Session) : Prop := Logs (fun e => !isPassedOn e && (writtenAck e).isNone) s t

theorem NoAcks.acks (h : NoAcks s t) : Acks s t [] := by
  obtain ⟨es, hlog, hes⟩ := h
  simp only [Bool.and_eq_true, Bool.not_eq_true', Option.isNone_iff_eq_none] at hes
  exact ⟨es, hlog, fun e he => (hes e he).1, List.filterMap_eq_nil_iff.mpr fun e he => (hes e he).2⟩

def Takes (env : Env) (s : Session) (pk : Packet) : Prop :=
  s.client.closed = false ∧ s.client.conn = true ∧ writeError env s.log (s.outgoing env pk) = none

theorem acks_writePacket_of_takes (h : Takes env s pk) (hack : isAck pk = true) :
    Acks s (s.writePacket env pk).2 [s.outgoing env pk] := by
  obtain ⟨hclosed, hconn, hwrite⟩ := h
  have heq : (s.writePacket env pk).2 = s.emit (.wrote (s.outgoing env pk) pk.topicName) := by
    unfold writePacket writePacketOn
    rw [hclosed, hconn, hwrite]
    rfl
  have hout : isAck (s.outgoing env pk) = true := hack
  refine ⟨[.wrote (s.outgoing env pk) pk.topicName], by rw [heq]; rfl, fun e he => ?_, ?_⟩
  · rw [List.mem_singleton.mp he]
    rfl
  · simp [writtenAck, hout]

theorem noAcks_writePacket_of_not_takes (h : ¬ Takes env s pk) : NoAcks s (s.writePacket env pk).2 := by
  unfold writePacket writePacketOn
  split
  · exact logs_emit rfl
  · rename_i hclosed
    split
    · exact .of_log rfl
    · rename_i hconn
      split
      · exact logs_emit rfl
      · rename_i hwrite
        rw [Bool.not_eq_true] at hclosed
        rw [Bool.not_eq_true', Bool.not_eq_false] at hconn
        exact absurd ⟨hclosed, hconn, hwrite⟩ h

theorem noAcks_disconnectClient (code : Code) : NoAcks s (s.disconnectClient env code).2 := by
  refine logs_disconnectClient code (fun out topic htype => ?_) fun _ _ _ => rfl
  have hack : isAck out = false := by
    unfold isAck
    rw [htype]
    rfl
  simp [isPassedOn, writtenAck, hack]

/-! ### The type by the QoS -/

structure InKind (pk ack : Packet) : Prop where
  id : ack.packetID = pk.packetID
  acknowledged : pk.fixedHeader.qos ≠ 0
  puback : pk.fixedHeader.qos = 1 → ack.fixedHeader.type = .puback
  pubrec : pk.fixedHeader.qos = 2 → ack.fixedHeader.type = .pubrec

def Judged (pk : Packet) (wrong : Prop) (s t : Session) : Prop :=
  ∃ acks, Acks s t acks ∧ ((∀ ack ∈ acks, InKind pk ack) ↔ ¬ wrong)

section Judged
variable {wrong : Prop}

theorem NoAcks.judged (h : NoAcks s t) : Judged pk False s t :=
  ⟨[], h.acks, iff_of_true (fun _ hack => absurd hack List.not_mem_nil) id⟩

theorem Judged.after (h : Judged pk wrong t u) (hnoAcks : NoAcks s t) : Judged pk wrong s u := by
  obtain ⟨acks, hacks, hkind⟩ := h
  exact ⟨acks, hnoAcks.acks.trans hacks, hkind⟩

theorem Judged.before (h : Judged pk wrong s t) (hnoAcks : NoAcks t u) : Judged pk wrong s u := by
  obtain ⟨acks, hacks, hkind⟩ := h
  refine ⟨acks ++ [], hacks.trans hnoAcks.acks, ?_⟩
  rw [List.append_nil]
  exact hkind

theorem Judged.congr {wrong' : Prop} (h : Judged pk wrong s t) (hiff : wrong' ↔ wrong) : Judged pk wrong' s t := by
  rw [Judged, hiff]
  exact h

theorem judged_of_inKind (hkind : InKind pk ack) (hack : isAck ack = true) :
    Judged pk False s (s.writePacket env ack).2 := by
  by_cases htakes : Takes env s ack
  · refine ⟨_, acks_writePacket_of_takes htakes hack, iff_of_true (fun out hout => ?_) id⟩
    rw [List.mem_singleton.mp hout]
    exact ⟨hkind.id, hkind.acknowledged, hkind.puback, hkind.pubrec⟩
  · exact (noAcks_writePacket_of_not_takes htakes).judged

theorem judged_of_puback (hqos : pk.fixedHeader.qos = 2) (htype : ack.fixedHeader.type = .puback) :
    Judged pk (Takes env s ack) s (s.writePacket env ack).2 := by
  have hack : isAck ack = true := by
    unfold isAck
    rw [htype]
    rfl
  by_cases htakes : Takes env s ack
  · refine ⟨_, acks_writePacket_of_takes htakes hack, iff_of_false (fun h => ?_) (not_not_intro htakes)⟩
    have hpubrec : ack.fixedHeader.type = .pubrec := (h _ (List.mem_singleton_self _)).pubrec hqos
    rw [htype] at hpubrec
    cases hpubrec
  · exact (noAcks_writePacket_of_not_takes htakes).judged.congr (iff_of_false htakes id)

end Judged

/-! ### The handler -/

theorem judged_refusePublish (hversion : s.client.protocolVersion = 5) :
    Judged pk False s (s.refusePublish env pk).session := by
  unfold refusePublish
  split
  · exact NoAcks.judged (.of_log rfl)
  · rename_i hqos
    rw [if_neg (not_not_intro hversion)]
    refine judged_of_inKind ⟨rfl, hqos, fun hone => ?_, fun htwo => ?_⟩ ?_
    · rw [buildAck_fixedHeader, hone]
      rfl
    · rw [buildAck_fixedHeader, htwo]
      rfl
    · unfold isAck
      rw [buildAck_fixedHeader]
      dsimp only
      split <;> rfl

theorem takes_onInflight (f : Inflight → Inflight) : Takes env (s.onInflight f) pk ↔ Takes env s pk := Iff.rfl

section Acknowledge
variable {q : Packet} (hid : q.packetID = pk.packetID) (hle : q.fixedHeader.qos ≤ pk.fixedHeader.qos)
  (hpos : q.fixedHeader.qos ≠ 0)
include hid hle hpos

theorem judged_publishAck :
    Judged pk (pk.fixedHeader.qos = 2 ∧ q.fixedHeader.qos = 1 ∧ Takes env u (s.publishAck env q))
    u (u.writePacket env (s.publishAck env q)).2 := by
  have htype : (s.publishAck env q).fixedHeader.type = if q.fixedHeader.qos = 2 then .pubrec else .puback := by
    unfold publishAck
    rw [Packet.fillFrom_fixedHeader, buildAck_fixedHeader]
  by_cases hlowered : pk.fixedHeader.qos = 2 ∧ q.fixedHeader.qos = 1
  · obtain ⟨htwo, hone⟩ := hlowered
    rw [hone, if_neg (by decide)] at htype
    exact (judged_of_puback htwo htype).congr ⟨fun h => h.2.2, fun h => ⟨htwo, hone, h⟩⟩
  · refine Judged.congr (judged_of_inKind ⟨?_, ?_, fun hone => ?_, fun htwo => ?_⟩ ?_)
      (iff_of_false (fun h => hlowered ⟨h.1, h.2.1⟩) id)
    · rw [publishAck_packetID, hid]
    · intro hzero
      rw [hzero] at hle
      exact hpos (UInt8.le_antisymm hle UInt8.zero_le)
    · rw [htype, if_neg]
      intro htwo
      rw [hone, htwo] at hle
      exact absurd hle (by decide)
    · rw [htwo] at hle
      have hleft : q.fixedHeader.qos = 2 :=
        ((le_two_cases hle).resolve_left hpos).resolve_left fun hone => hlowered ⟨htwo, hone⟩
      rw [htype, if_pos hleft]
    · unfold isAck
      rw [htype]
      split <;> rfl

theorem judged_acknowledgePublish :
    Judged pk (pk.fixedHeader.qos = 2 ∧ q.fixedHeader.qos = 1 ∧ Takes env s (s.publishAck env q)) s
      (s.acknowledgePublish env q).session := by
  have htaken : NoAcks s (s.onInflight fun f => f.decreaseReceiveQuota.2) := .of_log rfl
  unfold acknowledgePublish
  dsimp only
  split
  · rename_i hblocked
    unfold isBlocked at hblocked
    rw [Bool.and_eq_true, beq_iff_eq] at hblocked
    rw [hblocked.1] at hle
    refine Judged.congr ?_ (iff_of_false ?_ id)
    · refine Judged.after (t := (s.onInflight fun f => f.decreaseReceiveQuota.2).onInflight
        fun f => f.increaseReceiveQuota.2) ?_ (.of_log rfl)
      refine judged_of_inKind ⟨hid, fun hzero => ?_, fun hone => ?_, fun _ => rfl⟩ rfl
      · rw [hzero] at hle
        exact absurd hle (by decide)
      · rw [hone] at hle
        exact absurd hle (by decide)
    · rintro ⟨-, hone, -⟩
      rw [hone] at hblocked
      exact absurd hblocked.1 (by decide)
  · refine Judged.after ?_ htaken
    have hack : (s.onInflight fun f => f.decreaseReceiveQuota.2).publishAck env q = s.publishAck env q := rfl
    rw [hack]
    obtain ⟨u, hu, hsession⟩ := recordPublish_session env (s.onInflight fun f => f.decreaseReceiveQuota.2) q
      (s.publishAck env q)
    have hstored : NoAcks (s.onInflight fun f => f.decreaseReceiveQuota.2) u := by
      rw [hu]
      split
      · exact logs_storePubrec fun _ => rfl
      · exact .of_log rfl
    have hwritten : Judged pk (pk.fixedHeader.qos = 2 ∧ q.fixedHeader.qos = 1 ∧ Takes env s (s.publishAck env q))
        (s.onInflight fun f => f.decreaseReceiveQuota.2) (u.writePacket env (s.publishAck env q)).2 := by
      refine Judged.after ((judged_publishAck hid hle hpos).congr ?_) hstored
      refine and_congr_right fun _ => and_congr_right fun hone => ?_
      -- for QoS 1 nothing is stored before the acknowledgement is written
      rw [hone, if_neg (by decide)] at hu
      rw [hu, takes_onInflight]
    rcases hsession with hsession | hsession
    · rw [hsession]
      exact hwritten
    · rw [hsession]
      refine hwritten.before ?_
      exact Logs.trans (t := (u.writePacket env (s.publishAck env q)).2.onInflight fun f => f.increaseReceiveQuota.2)
        (.of_log rfl) (logs_emit rfl)

end Acknowledge

theorem publishAck_retained (q : Packet) : (s.retained q).publishAck env q = s.publishAck env q := by
  obtain ⟨-, hcaps, -⟩ := retained_cases s q
  unfold publishAck buildAck
  rw [hcaps]

theorem judged_acceptPublish {q : Packet} (hinline : s.client.inline = false) (hid : q.packetID = pk.packetID)
    (hle : q.fixedHeader.qos ≤ pk.fixedHeader.qos) :
    Judged pk (pk.fixedHeader.qos = 2 ∧ q.fixedHeader.qos = 1 ∧ Takes env (s.retained q) (s.publishAck env q)) s
      (s.acceptPublish env q).session := by
  have hretained : NoAcks s (s.retained q) := logs_retained fun _ => rfl
  rw [acceptPublish_eq, hinline, Bool.or_false]
  by_cases hzero : q.fixedHeader.qos = 0
  · rw [if_pos (decide_eq_true hzero)]
    refine Judged.congr hretained.judged (iff_of_false ?_ id)
    rintro ⟨-, hone, -⟩
    rw [hzero] at hone
    exact absurd hone (by decide)
  · rw [if_neg (by simpa using hzero), ← publishAck_retained]
    exact (judged_acknowledgePublish hid hle hzero).after hretained

def PubackForTwo (env : Env) (s : Session) (p : Packet) : Prop :=
  (∃ c, env.onPublish p = .code c ∧ 0 < p.fixedHeader.qos ∧
      Takes env s (s.buildAck env p.packetID .puback 0 p.properties c)) ∨
    ∃ q, Passes env s p q ∧ q.fixedHeader.qos = 1 ∧ Takes env (s.retained q) (s.publishAck env q)

variable {p : Packet}

theorem Passes.kept {q : Packet} (h : Passes env s p q) (hsame : ∀ q, env.onPublish p = .accept q → q = p) :
    q.packetID = p.packetID ∧ q.fixedHeader = p.fixedHeader := by
  unfold Passes at h
  cases hverdict : env.onPublish p with
  | accept pkx =>
    rw [hverdict] at h
    rw [h, hsame pkx hverdict]
    exact ⟨rfl, rfl⟩
  | reject =>
    rw [hverdict] at h
    exact h.elim
  | code c =>
    rw [hverdict] at h
    rw [h.2]
    exact ⟨rfl, rfl⟩
  | ignore | other =>
    rw [hverdict] at h
    rw [h]
    exact ⟨rfl, rfl⟩

theorem judgePublish_of_not_passes (hversion : s.client.protocolVersion = 5)
    (h : ¬ ∃ q, Passes env s p q) :
    env.onPublish p = .reject ∧ s.judgePublish env p = .returned none s ∨
      ∃ c, env.onPublish p = .code c ∧ 0 < p.fixedHeader.qos ∧
        s.judgePublish env p = s.answer env (s.buildAck env p.packetID .puback 0 p.properties c) := by
  unfold Passes at h
  unfold judgePublish
  cases hverdict : env.onPublish p with
  | accept pkx =>
    rw [hverdict] at h
    exact absurd ⟨pkx, rfl⟩ h
  | reject => exact .inl ⟨rfl, rfl⟩
  | code c =>
    rw [hverdict] at h
    have hqos : 0 < p.fixedHeader.qos := by
      by_contra hzero
      exact h ⟨p, fun hboth => hzero hboth.2, rfl⟩
    dsimp only
    rw [if_pos (by rw [decide_eq_true hversion, decide_eq_true hqos]; rfl)]
    exact .inr ⟨c, rfl, hqos, rfl⟩
  | ignore | other =>
    rw [hverdict] at h
    exact absurd ⟨_, rfl⟩ h

theorem judged_judgePublish (hversion : s.client.protocolVersion = 5) (hinline : s.client.inline = false)
    (hid : p.packetID = pk.packetID) (hle : p.fixedHeader.qos ≤ pk.fixedHeader.qos)
    (hsame : ∀ q, env.onPublish p = .accept q → q = p) :
    Judged pk (pk.fixedHeader.qos = 2 ∧ PubackForTwo env s p) s (s.judgePublish env p).session := by
  by_cases hpass : ∃ q, Passes env s p q
  · obtain ⟨q, hq⟩ := hpass
    obtain ⟨hqid, hqheader⟩ := hq.kept hsame
    rw [judgePublish_of_passes hq]
    refine (judged_acceptPublish hinline (hqid.trans hid) (by rwa [hqheader])).congr (and_congr_right fun _ => ?_)
    constructor
    · rintro (⟨c, hcode, hpos, -⟩ | ⟨q', hq', hone, htakes⟩)
      · -- a code keeps a message of QoS 1 or 2 from passing in MQTT 5
        unfold Passes at hq
        rw [hcode] at hq
        exact absurd ⟨hversion, hpos⟩ hq.1
      · rw [passes_unique hq hq'] at hone htakes
        exact ⟨hone, htakes⟩
    · rintro ⟨hone, htakes⟩
      exact .inr ⟨q, hq, hone, htakes⟩
  · have hnone : ∀ {P : Packet → Prop}, ¬ ∃ q, Passes env s p q ∧ P q := fun ⟨q, hq, _⟩ => hpass ⟨q, hq⟩
    obtain ⟨hreject, hjudge⟩ | ⟨c, hcode, hpos, hjudge⟩ := judgePublish_of_not_passes hversion hpass
    · rw [hjudge]
      refine Judged.congr (NoAcks.judged (.of_log rfl)) (iff_of_false ?_ id)
      rintro ⟨-, ⟨c, hcode, -⟩ | hpassed⟩
      · rw [hreject] at hcode
        cases hcode
      · exact hnone hpassed
    · rw [hjudge]
      -- the answer to a code is a PUBACK, whatever the QoS
      by_cases htwo : pk.fixedHeader.qos = 2
      · refine (judged_of_puback htwo rfl).congr ?_
        constructor
        · rintro ⟨-, ⟨c', hcode', -, htakes⟩ | hpassed⟩
          · rw [hcode] at hcode'
            cases hcode'
            exact htakes
          · exact absurd hpassed hnone
        · exact fun htakes => ⟨htwo, .inl ⟨c, hcode, hpos, htakes⟩⟩
      · refine Judged.congr (judged_of_inKind ⟨hid, ?_, fun _ => rfl, fun h => absurd h htwo⟩ rfl)
          (iff_of_false (fun h => htwo h.1) id)
        intro hzero
        rw [hzero] at hle
        exact absurd (UInt8.lt_of_lt_of_le hpos hle) UInt8.not_lt_zero

theorem pubackForTwo_aliased : PubackForTwo env (s.aliased env pk) p ↔ PubackForTwo env s p := by
  obtain ⟨inbound, halias⟩ := aliased_session env s pk
  have hcode : ∀ ack, Takes env (s.aliased env pk) ack ↔ Takes env s ack := by
    intro ack
    unfold Takes outgoing
    rw [halias]
  have hbuild : ∀ c, (s.aliased env pk).buildAck env p.packetID .puback 0 p.properties c =
      s.buildAck env p.packetID .puback 0 p.properties c := by
    intro c
    rw [halias]
    rfl
  have hretained : ∀ q, Takes env ((s.aliased env pk).retained q) ((s.aliased env pk).publishAck env q) ↔
      Takes env (s.retained q) (s.publishAck env q) := by
    intro q
    obtain ⟨inbound', heq⟩ := retained_aliased_session env s pk q
    have hack : (s.aliased env pk).publishAck env q = s.publishAck env q := by
      rw [halias]
      rfl
    rw [heq, hack]
    exact Iff.rfl
  unfold PubackForTwo
  simp only [hcode, hbuild, hretained, passes_aliased]

theorem subject_qos (env : Env) (s : Session) (pk : Packet) : (s.subject env pk).fixedHeader.qos =
    if s.server.caps.maximumQos < pk.fixedHeader.qos then s.server.caps.maximumQos else pk.fixedHeader.qos := by
  have hheader : (s.resolveAlias (s.stamp env pk)).1.fixedHeader = pk.fixedHeader := by
    unfold resolveAlias
    split <;> rfl
  unfold subject capQos
  rw [hheader]
  split
  · rfl
  · rw [hheader]

theorem judged_receivePublish (hversion : s.client.protocolVersion = 5) (hinline : s.client.inline = false)
    (hsame : ∀ q, env.onPublish (s.subject env pk) = .accept q → q = s.subject env pk)
    (hfresh : pk.fixedHeader.qos ≠ 2 →
      ∀ pki, s.client.inflight.get pk.packetID = some pki → pki.fixedHeader.type ≠ .pubrec) :
    Judged pk (pk.fixedHeader.qos = 2 ∧ Admits env s pk ∧ PubackForTwo env s (s.subject env pk)) s
      (s.receivePublish env pk).session := by
  by_cases hadmits : Admits env s pk
  · obtain ⟨qos, hle, hsubject⟩ := subject_cases env s pk
    have hnoAcks : NoAcks s (s.aliased env pk) := by
      refine .of_log ?_
      rw [aliased_eq]
    have hjudged : Judged pk (pk.fixedHeader.qos = 2 ∧ PubackForTwo env (s.aliased env pk) (s.subject env pk))
        (s.aliased env pk) ((s.aliased env pk).judgePublish env (s.subject env pk)).session := by
      refine judged_judgePublish ?_ ?_ ?_ ?_ hsame
      · rw [aliased_eq]
        exact hversion
      · rw [aliased_eq]
        exact hinline
      · rw [hsubject]
        rfl
      · rw [hsubject]
        exact hle
    rw [receivePublish_of_admits hadmits]
    refine (hjudged.after hnoAcks).congr ?_
    rw [pubackForTwo_aliased]
    exact ⟨fun h => ⟨h.1, h.2.2⟩, fun h => ⟨h.1, hadmits, h.2⟩⟩
  · have hnone : ¬ (pk.fixedHeader.qos = 2 ∧ Admits env s pk ∧ PubackForTwo env s (s.subject env pk)) :=
      fun h => hadmits h.2.1
    refine Judged.congr ?_ (iff_of_false hnone id)
    obtain heq | heq | heq | ⟨pki, hget, htype, heq⟩ := receivePublish_of_not_admits hadmits
    · rw [heq]
      exact NoAcks.judged (.of_log rfl)
    · rw [heq]
      exact (noAcks_disconnectClient _).judged
    · rw [heq]
      exact judged_refusePublish hversion
    · -- the id belongs to an unfinished exchange, which is answered with a PUBREC
      have htwo : pk.fixedHeader.qos = 2 := by
        by_contra hne
        exact hfresh hne pki hget htype
      rw [heq]
      refine judged_of_inKind ⟨rfl, ?_, ?_, fun _ => rfl⟩ rfl
      · rw [htwo]
        decide
      · rw [htwo]
        exact fun h => absurd h (by decide)

theorem acksFor_eq {acks : List Packet} (h : Acks s (s.receivePublish env pk).session acks) :
    s.acksFor env pk = acks := by
  obtain ⟨es, hlog, hes, rfl⟩ := h
  have hall : ∀ rest : List Event, rest.takeWhile (fun e => !isPassedOn e) = [] →
      (es ++ rest).takeWhile (fun e => !isPassedOn e) = es := by
    intro rest hrest
    rw [List.takeWhile_append_of_pos (fun e he => by rw [hes e he]; rfl), hrest, List.append_nil]
  unfold acksFor processPublish
  cases hreceived : s.receivePublish env pk with
  | returned err t =>
    rw [hreceived] at hlog
    have hwhole : t.log = s.log ++ (es ++ []) := by
      rw [List.append_nil]
      exact hlog
    dsimp only
    rw [hwhole, List.drop_left, hall [] rfl]
  | accepted q t =>
    rw [hreceived] at hlog
    obtain ⟨_, _, _, _, _, es', -, -, heq⟩ := @delivers_publishToSubscribers env t q
    have hwhole : ((t.publishToSubscribers env q).emit (.published q)).log =
        s.log ++ (es ++ .forward q :: (es' ++ [.published q])) := by
      rw [heq, emit_log]
      show t.log ++ [.forward q] ++ es' ++ [.published q] = _
      rw [show t.log = s.log ++ es from hlog]
      simp only [List.append_assoc, List.cons_append, List.nil_append]
    dsimp only
    rw [hwhole, List.drop_left, hall _ rfl]

/-- A message of QoS 2 is answered with a PUBACK: with the error of `OnPublish`, or because the maximum QoS of the
server is 1. -/
def AnsweredByPuback (env : Env) (s : Session) (pk : Packet) : Prop :=
  pk.fixedHeader.qos = 2 ∧ Admits env s pk ∧
    ((∃ c, env.onPublish (s.subject env pk) = .code c ∧ 0 < s.server.caps.maximumQos ∧
        Takes env s (s.buildAck env pk.packetID .puback 0 pk.properties c)) ∨
      s.server.caps.maximumQos = 1 ∧
        ∃ q, Passes env s (s.subject env pk) q ∧ Takes env (s.retained q) (s.publishAck env q))

theorem answeredByPuback_iff (hsame : ∀ q, env.onPublish (s.subject env pk) = .accept q → q = s.subject env pk) :
    AnsweredByPuback env s pk ↔ pk.fixedHeader.qos = 2 ∧ Admits env s pk ∧ PubackForTwo env s (s.subject env pk) := by
  unfold AnsweredByPuback PubackForTwo
  refine and_congr_right fun htwo => and_congr_right fun _ => ?_
  obtain ⟨_, -, hsubject⟩ := subject_cases env s pk
  have hid : (s.subject env pk).packetID = pk.packetID := by rw [hsubject]; rfl
  have hprops : (s.subject env pk).properties = pk.properties := by rw [hsubject]; rfl
  have hqos := subject_qos env s pk
  rw [htwo] at hqos
  have hpos : 0 < (s.subject env pk).fixedHeader.qos ↔ 0 < s.server.caps.maximumQos := by
    rw [hqos]
    split
    · exact Iff.rfl
    · rename_i hge
      exact iff_of_true (by decide) (UInt8.lt_of_lt_of_le (by decide) (UInt8.not_lt.mp hge))
  have hone : (s.subject env pk).fixedHeader.qos = 1 ↔ s.server.caps.maximumQos = 1 := by
    rw [hqos]
    split
    · exact Iff.rfl
    · rename_i hge
      refine iff_of_false (by decide) fun h => hge ?_
      rw [h]
      decide
  rw [hid, hprops, hpos]
  refine or_congr_right ?_
  constructor
  · rintro ⟨hmax, q, hq, htakes⟩
    refine ⟨q, hq, ?_, htakes⟩
    rw [(hq.kept hsame).2]
    exact hone.mpr hmax
  · rintro ⟨q, hq, hqone, htakes⟩
    rw [(hq.kept hsame).2] at hqone
    exact ⟨hone.mp hqone, q, hq, htakes⟩

/-- The acknowledgements of a PUBLISH follow its QoS, except that one of QoS 2 is answered with a PUBACK. -/
theorem acks_inKind_iff {env : Env} {s : Session} {pk : Packet} (hversion : s.client.protocolVersion = 5)
    (hinline : s.client.inline = false)
    (hsame : ∀ q, env.onPublish (s.subject env pk) = .accept q → q = s.subject env pk)
    (hfresh : pk.fixedHeader.qos ≠ 2 →
      ∀ pki, s.client.inflight.get pk.packetID = some pki → pki.fixedHeader.type ≠ .pubrec) :
    (∀ ack ∈ s.acksFor env pk, InKind pk ack) ↔ ¬ AnsweredByPuback env s pk := by
  obtain ⟨acks, hacks, hkind⟩ := judged_receivePublish hversion hinline hsame hfresh
  rw [acksFor_eq hacks, hkind, answeredByPuback_iff hsame]

def oneAtMost : Session :=
  { client := { protocolVersion := 5, inflight := Inflight.new.resetReceiveQuota 1 }
    server := { caps := { maximumQos := 1 } } }

def published (qos : UInt8) : Packet :=
  { packetID := 7, fixedHeader := { type := .publish, qos := qos }, topicName := [0x61], payload := [1] }

/-- A message of QoS 1 is acknowledged in kind. -/
theorem acks_inKind_of_one : (oneAtMost.acksFor (.accepting 0) (published 1)).length = 1 ∧
    ∀ ack ∈ oneAtMost.acksFor (.accepting 0) (published 1), InKind (published 1) ack := by
  refine ⟨rfl, (acks_inKind_iff rfl rfl (fun q hq => ?_) fun _ pki hget => ?_).mpr fun h => absurd h.1 (by decide)⟩
  · exact (Verdict.accept.inj hq).symm
  · cases hget

/-- A message of QoS 2, which passes `PublishValidate`, is acknowledged with a PUBACK. -/
theorem puback_for_qos_two : (published 2).publishValidate 0 = .success ∧
    (oneAtMost.acksFor (.accepting 0) (published 2)).map (fun ack => ack.fixedHeader.type) = [.puback] ∧
    ¬ ∀ ack ∈ oneAtMost.acksFor (.accepting 0) (published 2), InKind (published 2) ack := by
  have htypes : (oneAtMost.acksFor (.accepting 0) (published 2)).map (fun ack => ack.fixedHeader.type) =
      [.puback] := rfl
  refine ⟨rfl, htypes, fun h => ?_⟩
  obtain ⟨ack, hack, htype⟩ :
      ∃ ack ∈ oneAtMost.acksFor (.accepting 0) (published 2), ack.fixedHeader.type = .puback := by
    rw [← List.mem_map, htypes]
    exact List.mem_singleton_self _
  have hpubrec := (h ack hack).pubrec rfl
  rw [htype] at hpubrec
  cases hpubrec

end Session
end Mqtt
