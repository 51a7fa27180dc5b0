import MqttBroker.Library.Aliasing
import MqttBroker.Library.Runs
import MqttBroker.Session.Cases
import MqttBroker.Session.Connect

/-! The topic aliases of outbound messages. `publishToClient` gives a topic its alias
before it is known whether and when the message that teaches it is written. The
client can tell the topic of every message if the message that first carries an
alias is queued at once and is written when its turn comes. -/

namespace Mqtt
open FiniteMap

def Packet.carriedAlias (pk : Packet) : Option UInt16 :=
  if pk.properties.topicAliasFlag && 0 < pk.properties.topicAlias then some pk.properties.topicAlias else none

/-! ### The aliases given -/

namespace OutboundTopicAliases

def names (o : OutboundTopicAliases) (topic : Bytes) : Option UInt16 := o.internal.lookup topic

def Registers (o : OutboundTopicAliases) (topic : Bytes) : Prop :=
  o.names topic = none ∧ o.cursor < o.maximum.toNat

structure Valid (o : OutboundTopicAliases) : Prop where
  numbered : ∀ ⦃topic a⦄, o.names topic = some a → 1 ≤ a.toNat ∧ a.toNat ≤ o.cursor
  bounded : o.cursor ≤ o.maximum.toNat
  unique : Aliasing.Unique o.names

def register (o : OutboundTopicAliases) (topic : Bytes) : OutboundTopicAliases :=
  { o with cursor := o.cursor + 1, internal := o.internal.insert topic (UInt16.ofNat o.cursor + 1) }

theorem names_register (o : OutboundTopicAliases) (topic topic' : Bytes) :
    (o.register topic).names topic' = if topic' = topic then some (UInt16.ofNat o.cursor + 1) else o.names topic' :=
  lookup_insert_eq _ _ _ _

theorem valid_empty (maximum : UInt16) : ({ maximum := maximum } : OutboundTopicAliases).Valid := by
  have hnone : ∀ {topic a}, ({ maximum := maximum } : OutboundTopicAliases).names topic ≠ some a := by
    intro topic a h
    cases h
  exact ⟨fun _ _ h => absurd h hnone, Nat.zero_le _, fun _ _ _ h => absurd h hnone⟩

variable {o : OutboundTopicAliases} {topic : Bytes}

theorem next_toNat (hlt : o.cursor < o.maximum.toNat) : (UInt16.ofNat o.cursor + 1).toNat = o.cursor + 1 := by
  have hmax : o.maximum.toNat < 65536 := o.maximum.toNat_lt
  rw [UInt16.toNat_add, UInt16.toNat_ofNat']
  show (o.cursor % 65536 + 1) % 65536 = o.cursor + 1
  omega

theorem Valid.register (h : o.Valid) (hr : o.Registers topic) : (o.register topic).Valid := by
  have hnext := next_toNat hr.2
  have hother : ∀ {topic' a}, o.names topic' = some a → a ≠ UInt16.ofNat o.cursor + 1 := by
    intro topic' a ha heq
    have hle := (h.numbered ha).2
    rw [heq, hnext] at hle
    omega
  refine ⟨?_, hr.2, ?_⟩
  · intro topic' a ha
    show 1 ≤ a.toNat ∧ a.toNat ≤ o.cursor + 1
    rw [names_register] at ha
    split at ha
    · cases ha
      omega
    · have := h.numbered ha
      omega
  · intro k k' a hk hk'
    rw [names_register] at hk hk'
    split at hk <;> split at hk'
    · rename_i heq heq'
      rw [heq, heq']
    · cases hk
      exact absurd rfl (hother hk')
    · cases hk'
      exact absurd rfl (hother hk)
    · exact h.unique hk hk'

theorem names_register_of_names (hnone : o.names topic = none) {topic' : Bytes} {a : UInt16}
    (ha : o.names topic' = some a) : (o.register topic).names topic' = some a := by
  rw [names_register, if_neg]
  · exact ha
  · rintro rfl
    rw [hnone] at ha
    cases ha

theorem set_cases (h : o.Valid) (topic : Bytes) :
    (∃ a, o.names topic = some a ∧ 0 < a ∧ o.set topic = ((a, true), o)) ∨
      (¬ o.Registers topic ∧ o.set topic = ((0, false), o)) ∨
      (o.Registers topic ∧ 0 < UInt16.ofNat o.cursor + 1 ∧
        o.set topic = ((UInt16.ofNat o.cursor + 1, false), o.register topic)) := by
  unfold OutboundTopicAliases.set
  split
  · rename_i hzero
    refine .inr (.inl ⟨?_, rfl⟩)
    rintro ⟨-, hlt⟩
    rw [hzero] at hlt
    exact absurd hlt (Nat.not_lt_zero _)
  · cases hlook : o.internal.lookup topic with
    | some a =>
      have hpos : 0 < a := UInt16.lt_iff_toNat_lt.mpr (h.numbered hlook).1
      exact .inl ⟨a, hlook, hpos, rfl⟩
    | none =>
      dsimp only
      split
      · rename_i hfull
        exact .inr (.inl ⟨fun hr => absurd hr.2 (by omega), rfl⟩)
      · rename_i hroom
        have hlt : o.cursor < o.maximum.toNat := by omega
        have hpos : 0 < UInt16.ofNat o.cursor + 1 := by
          rw [UInt16.lt_iff_toNat_lt, next_toNat hlt]
          exact Nat.succ_pos _
        exact .inr (.inr ⟨⟨hlook, hlt⟩, hpos, rfl⟩)

end OutboundTopicAliases

namespace Session

/-! ### What the client sees -/

/-- A PUBLISH as the client sees it. Its key is the topic that it spells out, or else the topic on
which the message was published. -/
def frameOf (pk : Packet) (topic : Bytes) : Aliasing.Frame Bytes UInt16 where
  key := if pk.topicName = [] then topic else pk.topicName
  name := pk.carriedAlias
  spelled := pk.topicName ≠ []

def seen : Event → Option (Aliasing.Frame Bytes UInt16)
  | .wrote pk topic => if pk.fixedHeader.type = .publish then some (frameOf pk topic) else none
  | _ => none

def written (log : List Event) : List (Aliasing.Frame Bytes UInt16) := log.filterMap seen

def aliasTable (log : List Event) : UInt16 → Option Bytes := Aliasing.learnAll (fun _ => none) (written log)

variable {env : Env} {s t : Session} {pk out : Packet} {sub : Subscription} {e : Event}

theorem written_emit_none (h : seen e = none) : written (s.emit e).log = written s.log := by
  show (s.log ++ [e]).filterMap seen = _
  rw [List.filterMap_append, List.filterMap_cons, h]
  exact List.append_nil _

variable {f : Aliasing.Frame Bytes UInt16}

theorem written_emit_some (h : seen e = some f) : written (s.emit e).log = written s.log ++ [f] := by
  show (s.log ++ [e]).filterMap seen = _
  rw [List.filterMap_append, List.filterMap_cons, h]
  rfl

theorem carriedAlias_outgoing (env : Env) (s : Session) (pk : Packet) :
    (s.outgoing env pk).carriedAlias = pk.carriedAlias := by
  unfold outgoing Packet.carriedAlias
  dsimp only
  split <;> rfl

theorem frameOf_outgoing (env : Env) (s : Session) (pk : Packet) (topic : Bytes) :
    frameOf (s.outgoing env pk) topic = frameOf pk topic := by
  unfold frameOf
  rw [carriedAlias_outgoing]
  rfl

theorem seen_wrote_outgoing (hpk : pk.fixedHeader.type = .publish) (topic : Bytes) :
    seen (.wrote (s.outgoing env pk) topic) = some (frameOf pk topic) := by
  rw [← frameOf_outgoing env s]
  exact if_pos hpk

theorem seen_wrote_of_ne (hpk : pk.fixedHeader.type ≠ .publish) (topic : Bytes) :
    seen (.wrote (s.outgoing env pk) topic) = none := if_neg hpk

theorem frameOf_key (h : pk.topicName ≠ []) (topic : Bytes) : (frameOf pk topic).key = pk.topicName := if_neg h

theorem frameOf_spelled {topic : Bytes} : (frameOf pk topic).spelled = true ↔ pk.topicName ≠ [] := decide_eq_true_iff

/-! ### The invariant -/

def Live (s : Session) : Prop := s.client.conn = true ∧ s.client.closed = false

def Carries (o : OutboundTopicAliases) (e : Packet) : Prop :=
  e.fixedHeader.type = .publish → e.topicName ≠ [] ∧ Aliasing.Agrees o.names (frameOf e e.topicName)

/-- The client reads what was written, and while packets can be written it will read what is queued.
The topics that are owed have an alias that no message was queued for. -/
structure AliasSound (limit : UInt16) (owed : Bytes → Prop) (s : Session) : Prop where
  allowed : s.client.props.topicAliasMaximum = limit
  maximum : s.client.outbound.maximum = limit
  valid : s.client.outbound.Valid
  entries : s.client.inflight.All (Carries s.client.outbound)
  reads : Aliasing.Reads (fun _ => none) (written s.log)
  bounded : ∀ f ∈ written s.log, ∀ a, f.name = some a → 1 ≤ a ∧ a ≤ limit
  queue : ∀ q ∈ s.client.queue, q.packet.fixedHeader.type = .publish
  sync : Live s → Aliasing.Sync s.client.outbound.names owed (aliasTable s.log)
    (s.client.queue.map fun q => frameOf q.packet q.topic)

variable {limit : UInt16} {owed : Bytes → Prop}

theorem AliasSound.settle (h : AliasSound limit owed s) (hnone : Live s → ∀ topic, ¬ owed topic) :
    AliasSound limit (fun _ => False) s := by
  refine { h with sync := fun hlive => (h.sync hlive).owe ?_ }
  intro topic howed
  exact hnone hlive topic howed

theorem AliasSound.onInflight {f : Inflight → Inflight} (h : AliasSound limit owed s)
    (hf : (f s.client.inflight).All (Carries s.client.outbound)) : AliasSound limit owed (s.onInflight f) :=
  ⟨h.allowed, h.maximum, h.valid, hf, h.reads, h.bounded, h.queue, h.sync⟩

theorem AliasSound.onServer (h : AliasSound limit owed s) (server : Shared) :
    AliasSound limit owed { s with server := server } :=
  ⟨h.allowed, h.maximum, h.valid, h.entries, h.reads, h.bounded, h.queue, h.sync⟩

theorem AliasSound.emit (h : AliasSound limit owed s) (he : seen e = none) : AliasSound limit owed (s.emit e) := by
  have hlog : written (s.emit e).log = written s.log := written_emit_none he
  have htable : aliasTable (s.emit e).log = aliasTable s.log := by
    unfold aliasTable
    rw [hlog]
  refine ⟨h.allowed, h.maximum, h.valid, h.entries, ?_, ?_, h.queue, ?_⟩
  · rw [hlog]
    exact h.reads
  · rw [hlog]
    exact h.bounded
  · rw [htable]
    exact h.sync

theorem AliasSound.le_limit (h : AliasSound limit owed s) {topic : Bytes} {a : UInt16}
    (ha : s.client.outbound.names topic = some a) : 1 ≤ a ∧ a ≤ limit := by
  obtain ⟨hpos, hle⟩ := h.valid.numbered ha
  have hmax := h.valid.bounded
  rw [h.maximum] at hmax
  exact ⟨UInt16.le_iff_toNat_le.mpr hpos, UInt16.le_iff_toNat_le.mpr (hle.trans hmax)⟩

theorem AliasSound.see (h : AliasSound limit owed s) (he : seen e = some f)
    (hagrees : Aliasing.Agrees s.client.outbound.names f) (hread : Aliasing.Readable (aliasTable s.log) f)
    {queue : List Queued} (hqueue : ∀ q ∈ queue, q.packet.fixedHeader.type = .publish)
    (hsync : Aliasing.Sync s.client.outbound.names owed (Aliasing.learn (aliasTable s.log) f)
      (queue.map fun q => frameOf q.packet q.topic)) :
    AliasSound limit owed ({ s with client := { s.client with queue := queue } }.emit e) := by
  have hlog : written (s.log ++ [e]) = written s.log ++ [f] := written_emit_some (s := s) he
  refine ⟨h.allowed, h.maximum, h.valid, h.entries, ?_, ?_, hqueue, ?_⟩
  · show Aliasing.Reads _ (written (s.log ++ [e]))
    rw [hlog]
    exact Aliasing.reads_append.mpr ⟨h.reads, hread, trivial⟩
  · show ∀ g ∈ written (s.log ++ [e]), _
    rw [hlog]
    intro g hg a ha
    rcases List.mem_append.mp hg with hg | hg
    · exact h.bounded g hg a ha
    · rw [List.mem_singleton.mp hg] at ha
      exact h.le_limit (hagrees ha)
  · intro _
    show Aliasing.Sync _ owed (Aliasing.learnAll _ (written (s.log ++ [e]))) _
    rw [hlog, Aliasing.learnAll_append]
    exact hsync

/-! ### Writing -/

theorem AliasSound.wrote (h : AliasSound limit owed s) (hlive : Live s) (hpk : Carries s.client.outbound pk) :
    AliasSound limit owed (s.emit (.wrote (s.outgoing env pk) pk.topicName)) := by
  by_cases htype : pk.fixedHeader.type = .publish
  · obtain ⟨hspelled, hagrees⟩ := hpk htype
    exact h.see (seen_wrote_outgoing htype _) hagrees (.inl (frameOf_spelled.mpr hspelled)) h.queue
      ((h.sync hlive).overtake h.valid.unique hagrees)
  · exact h.emit (seen_wrote_of_ne htype _)

theorem AliasSound.writePacket (env : Env) (h : AliasSound limit owed s) (hpk : Carries s.client.outbound pk) :
    AliasSound limit owed (s.writePacket env pk).2 := by
  obtain ⟨hclosed, hconn, hw⟩ | ⟨-, -, hw⟩ | ⟨-, _, _, hw⟩ := writePacketOn_cases env s pk.topicName pk
  · rw [Session.writePacket, hw]
    exact h.wrote ⟨hconn, hclosed⟩ hpk
  · rw [Session.writePacket, hw]
    exact h
  · rw [Session.writePacket, hw]
    exact h.emit rfl

def TeachesNext (env : Env) (s : Session) : Prop :=
  ∀ ⦃q rest⦄, s.client.queue = q :: rest → q.packet.topicName ≠ [] → q.packet.carriedAlias ≠ none → Live s →
    writeError env s.log (s.outgoing env q.packet) = none

theorem AliasSound.writeNext (h : AliasSound limit owed s) (hnext : TeachesNext env s) :
    AliasSound limit owed (s.writeNext env) := by
  unfold Session.writeNext
  split
  · exact h
  · rename_i q rest hqueue
    have hpublish : q.packet.fixedHeader.type = .publish := h.queue q (by rw [hqueue]; exact List.mem_cons_self)
    have hrest : ∀ q' ∈ rest, q'.packet.fixedHeader.type = .publish :=
      fun q' hq' => h.queue q' (by rw [hqueue]; exact List.mem_cons_of_mem _ hq')
    have hsync : Live s → Aliasing.Sync s.client.outbound.names owed (aliasTable s.log)
        (frameOf q.packet q.topic :: rest.map fun q => frameOf q.packet q.topic) := by
      intro hlive
      have := h.sync hlive
      rwa [hqueue] at this
    generalize hs : ({ s with client := { s.client with queue := rest } } : Session) = u
    have hlost : (Live s → Aliasing.learn (aliasTable s.log) (frameOf q.packet q.topic) = aliasTable s.log) →
        AliasSound limit owed u := by
      intro hsame
      subst hs
      exact ⟨h.allowed, h.maximum, h.valid, h.entries, h.reads, h.bounded, hrest,
        fun hlive => (hsync hlive).lose (hsame hlive)⟩
    obtain ⟨hclosed, hconn, hw⟩ | ⟨-, hconn, hw⟩ | ⟨-, out, err, hw⟩ := writePacketOn_cases env u q.topic q.packet
    · subst hs
      rw [hw]
      have hlive : Live s := ⟨hconn, hclosed⟩
      obtain ⟨hread, harrived⟩ := (hsync hlive).arrive
      exact h.see (seen_wrote_outgoing hpublish _) ((hsync hlive).agrees _ List.mem_cons_self) hread hrest harrived
    · rw [hw]
      refine hlost fun hlive => ?_
      subst hs
      exact absurd (hconn.symm.trans hlive.1) Bool.false_ne_true
    · rw [hw]
      refine AliasSound.emit (hlost fun hlive => ?_) rfl
      -- a message that is lost on an open connection teaches nothing
      obtain hsame | ⟨a, hspelled, hname, -⟩ :=
        Aliasing.learn_cases (aliasTable s.log) (frameOf q.packet q.topic)
      · exact hsame
      · subst hs
        have hok := hnext hqueue (frameOf_spelled.mp hspelled)
          (by rw [show q.packet.carriedAlias = some a from hname]; simp) hlive
        have hnone := (writePacketOn_eq_none_iff env { s with client := { s.client with queue := rest } } q.topic
          q.packet).mpr ?_
        · rw [hw] at hnone
          cases hnone
        · rintro (hclosed | ⟨-, herr⟩)
          · exact absurd (hclosed.symm.trans hlive.2) (by decide)
          · exact herr hok

theorem Carries.expiry {o : OutboundTopicAliases} (h : Carries o pk) (expiry : Int) :
    Carries o { pk with expiry := expiry } := h

theorem AliasSound.resume (h : AliasSound limit owed s) : AliasSound limit owed (s.resumeDeferredPublishes env).2 := by
  have htake : ∀ {u : Session} {pk : Packet}, AliasSound limit owed u → u.client.inflight.get pk.packetID = some pk →
      AliasSound limit owed (u.takeDeferred pk) := by
    intro u pk hu hget
    exact hu.onInflight (hu.entries.put ((hu.entries hget).expiry 0))
  have hagain : ∀ {u : Session} {pk : Packet}, AliasSound limit owed u → Carries u.client.outbound pk →
      AliasSound limit owed (u.deferAgain pk) := by
    intro u pk hu hpk
    exact hu.onInflight ((hu.entries.put (hpk.expiry _)).of_get (Inflight.get_increaseSendQuota _))
  apply resume_invariant
  · intro v pk hv _ hget _ _ hclosed hconn
    exact (htake hv hget).wrote ⟨hconn, hclosed⟩ ((hv.entries hget).expiry 0)
  · intro v pk hv _ hget _
    have hcarries := (hv.entries hget).expiry 0
    exact ⟨hagain (htake hv hget) hcarries, fun out err => hagain ((htake hv hget).emit rfl) hcarries⟩
  · exact fun hv => hv.onInflight (hv.entries.of_get (Inflight.get_resetSendQuotaIfEmpty _))
  · exact h.onInflight (h.entries.of_get (Inflight.get_recoverStarvedSendQuota _))

/-! ### Queueing -/

theorem AliasSound.dropStored (h : AliasSound limit owed s) (id : UInt16) :
    AliasSound limit owed (s.dropStored id) := by
  unfold Session.dropStored
  split
  · have hentries := (h.entries.remove id).of_get (Inflight.get_increaseSendQuota _)
    exact (h.onInflight (f := fun f => (f.remove id).increaseSendQuota.2) hentries).onServer _
  · exact h

def HasRoom (s : Session) : Prop := s.client.queue.length < s.server.caps.maximumClientWritesPending

theorem AliasSound.enqueue (h : AliasSound limit owed s) (htype : out.fixedHeader.type = .publish)
    (hagrees : Aliasing.Agrees s.client.outbound.names (frameOf out pk.topicName))
    (hreads : out.topicName ≠ [] ∨ out.carriedAlias ≠ none ∧ ¬ owed (frameOf out pk.topicName).key)
    (howed : ∀ ⦃topic⦄, owed topic → out.topicName = topic ∧ out.topicName ≠ [] ∧ out.carriedAlias ≠ none)
    (hroom : Live s → ∀ ⦃topic⦄, owed topic → HasRoom s) :
    AliasSound limit (fun _ => False) (s.enqueue pk out).2 := by
  have hrefused : ¬s.CanQueue → ∀ u, u = s ∨ u = s.dropMessage pk → AliasSound limit (fun _ => False) u := by
    intro hfull u hu
    have hsettled := h.settle fun hlive topic ht => hfull ⟨hlive.1, hlive.2, hroom hlive ht⟩
    rcases hu with rfl | rfl
    · exact hsettled
    · exact (hsettled.onServer _).emit (e := .publishDropped pk) rfl
  obtain ⟨-, heq⟩ | ⟨hfull, err, u, hu, ⟨-, heq⟩ | ⟨-, heq⟩⟩ := s.enqueue_cases pk out
  · rw [heq]
    refine ⟨h.allowed, h.maximum, h.valid, h.entries, h.reads, h.bounded, ?_, ?_⟩
    · intro q hq
      rcases List.mem_append.mp hq with hq | hq
      · exact h.queue q hq
      · rw [List.mem_singleton.mp hq]
        exact htype
    · intro hlive
      show Aliasing.Sync _ _ _ ((s.client.queue ++ [(⟨out, pk.topicName⟩ : Queued)]).map _)
      rw [List.map_append]
      refine (h.sync hlive).send h.valid.unique hagrees ?_ ?_
      · exact hreads.imp_left frameOf_spelled.mpr
      · intro topic ht
        obtain ⟨htopic, hspelled, hname⟩ := howed ht
        exact ⟨frameOf_spelled.mpr hspelled, (frameOf_key hspelled _).trans htopic, hname⟩
  · rw [heq]
    exact (hrefused hfull u hu).dropStored _
  · rw [heq]
    exact hrefused hfull u hu

def Defers (s : Session) : Prop :=
  5 ≤ s.client.protocolVersion ∧ 0 < s.client.inflight.maximumSendQuota ∧ s.client.inflight.sendQuota ≤ 0

theorem AliasSound.sendQos (h : AliasSound limit owed s) {r : Packet}
    (hget : s.client.inflight.get out.packetID = some r) (hr : r.expiry = inflightExpiryReserved)
    (htype : out.fixedHeader.type = .publish) (hout : Carries s.client.outbound out)
    (howed : ∀ ⦃topic⦄, owed topic → out.topicName = topic ∧ out.carriedAlias ≠ none)
    (hroom : Live s → ∀ ⦃topic⦄, owed topic → HasRoom s ∧ ¬ Defers s) :
    AliasSound limit (fun _ => False) (s.sendQos env pk out).2 := by
  obtain ⟨hspelled, hagrees⟩ := hout htype
  have hframe : Aliasing.Agrees s.client.outbound.names (frameOf out pk.topicName) := by
    have hkey : frameOf out pk.topicName = frameOf out out.topicName := by
      unfold frameOf
      rw [if_neg hspelled, if_neg hspelled]
    rw [hkey]
    exact hagrees
  have hpays : ∀ ⦃topic⦄, owed topic → out.topicName = topic ∧ out.topicName ≠ [] ∧ out.carriedAlias ≠ none :=
    fun topic ht => ⟨(howed ht).1, hspelled, (howed ht).2⟩
  obtain ⟨hparks, heq⟩ | ⟨-, quota, maximum, -, heq⟩ := sendQos_cases env pk hget hr
  · have hput := h.onInflight (f := fun f => f.put { out with expiry := inflightExpiryDeferred })
      (h.entries.put (hout.expiry _))
    have hparked : AliasSound limit owed (s.park out) := (hput.onServer _).emit rfl
    rw [heq]
    refine AliasSound.resume (hparked.settle fun hlive topic hto => ?_)
    exact (hroom hlive hto).2 hparks
  · have hput := h.onInflight (f := fun f => { f.put out with sendQuota := quota, maximumSendQuota := maximum })
      (h.entries.put hout)
    have hstored : AliasSound limit owed (s.storeQos out quota maximum) := (hput.onServer _).emit rfl
    rw [heq]
    exact hstored.enqueue htype hframe (.inl hspelled) hpays fun hlive topic hto => (hroom hlive hto).1

/-! ### `publishToClient` -/

theorem copyFor_carriedAlias : (s.copyFor sub pk).carriedAlias = none := rfl

theorem withAlias_carriedAlias {given : UInt16 × Bool} (h : 0 < given.1) :
    (withAlias out given).carriedAlias = some given.1 := by
  unfold withAlias Packet.carriedAlias
  simp [h]

theorem withAlias_none : (withAlias out (0, false)).carriedAlias = none := by
  unfold withAlias Packet.carriedAlias
  simp

theorem AliasSound.prepare_cases (h : AliasSound limit owed s) (sub : Subscription) (pk : Packet) :
    ((s.prepare sub pk).2 = s ∧
        ((s.prepare sub pk).1.topicName = pk.topicName ∧ (s.prepare sub pk).1.carriedAlias = none ∨
          ∃ a, (s.prepare sub pk).1.topicName = [] ∧ (s.prepare sub pk).1.carriedAlias = some a ∧
            s.client.outbound.names pk.topicName = some a)) ∨
      (s.client.outbound.Registers pk.topicName ∧
        (s.prepare sub pk).2 =
          { s with client := { s.client with outbound := s.client.outbound.register pk.topicName } } ∧
        (s.prepare sub pk).1.topicName = pk.topicName ∧
        (s.prepare sub pk).1.carriedAlias = (s.client.outbound.register pk.topicName).names pk.topicName) := by
  unfold prepare
  dsimp only
  split
  · obtain ⟨a, hname, hpos, hset⟩ | ⟨-, hset⟩ | ⟨hreg, hpos, hset⟩ :=
      OutboundTopicAliases.set_cases h.valid pk.topicName
    · rw [hset]
      refine .inl ⟨rfl, .inr ⟨a, ?_, withAlias_carriedAlias hpos, hname⟩⟩
      unfold withAlias
      simp [hpos]
    · rw [hset]
      exact .inl ⟨rfl, .inl ⟨rfl, withAlias_none⟩⟩
    · rw [hset]
      refine .inr ⟨hreg, rfl, ?_, ?_⟩
      · unfold withAlias
        simp
        rfl
      · rw [OutboundTopicAliases.names_register, if_pos rfl]
        exact withAlias_carriedAlias hpos
  · exact .inl ⟨rfl, .inl ⟨rfl, copyFor_carriedAlias⟩⟩

theorem AliasSound.register (h : AliasSound limit (fun _ => False) s) {topic : Bytes}
    (hr : s.client.outbound.Registers topic) :
    AliasSound limit (· = topic)
      { s with client := { s.client with outbound := s.client.outbound.register topic } } := by
  have hgrow : ∀ ⦃topic' a⦄, s.client.outbound.names topic' = some a →
      (s.client.outbound.register topic).names topic' = some a :=
    fun _ _ ha => OutboundTopicAliases.names_register_of_names hr.1 ha
  refine ⟨h.allowed, h.maximum, h.valid.register hr, ?_, h.reads, h.bounded, h.queue, ?_⟩
  · intro id e he htype
    obtain ⟨hspelled, hagrees⟩ := h.entries he htype
    exact ⟨hspelled, fun _ ha => hgrow (hagrees ha)⟩
  · intro hlive
    refine Aliasing.Sync.grow ((h.sync hlive).owe fun _ hf => hf.elim) hgrow ?_
    intro topic' a ha hne
    dsimp only at ha
    rw [OutboundTopicAliases.names_register, if_neg hne] at ha
    exact ha

def deliveredQos (s : Session) (sub : Subscription) (pk : Packet) : UInt8 :=
  let qos := if sub.qos < pk.fixedHeader.qos then sub.qos else pk.fixedHeader.qos
  if s.server.caps.maximumQos < qos then s.server.caps.maximumQos else qos

theorem prepare_qos (s : Session) (sub : Subscription) (pk : Packet) :
    (s.prepare sub pk).1.fixedHeader.qos = s.deliveredQos sub pk := by
  unfold prepare
  split
  · rfl
  · rfl

/-- A message that gives its topic an alias on an open connection is queued at once: there is room,
and if it is sent at QoS 1 or 2 there is an id and send quota for it. -/
def Announces (env : Env) (s : Session) (sub : Subscription) (pk : Packet) : Prop :=
  Live s → s.client.outbound.Registers pk.topicName →
    (sub.noLocal && pk.origin == s.client.id) = false → env.onACLCheck s.client.id pk.topicName false = true →
    HasRoom s ∧ (0 < s.deliveredQos sub pk →
      ¬ Defers s ∧ (s.nextPacketID env s.server.caps.maximumInflight.toNat).1 ≠ none)

theorem nextPacketID_outbound (env : Env) (s : Session) (outbound : OutboundTopicAliases) (max : Int) :
    ({ s with client := { s.client with outbound := outbound } }.nextPacketID env max).1 =
      (s.nextPacketID env max).1 := by
  unfold nextPacketID
  dsimp only
  generalize nextPacketIDLoop s.client.inflight env.now s.server.caps.maximumPacketID s.client.packetID max
    s.client.packetID false = found
  obtain ⟨_ | i, f⟩ := found <;> rfl

theorem Carries.reservation (o : OutboundTopicAliases) (now : Int) (id : UInt16) :
    Carries o (Inflight.reservation now id) := nofun

theorem AliasSound.reserve (h : AliasSound limit owed s) (now : Int) (j : Nat) (id : UInt16) :
    AliasSound limit owed { s with
      client := { s.client with packetID := j, inflight := s.client.inflight.put (Inflight.reservation now id) } } :=
  ⟨h.allowed, h.maximum, h.valid, h.entries.put (.reservation _ _ _), h.reads, h.bounded, h.queue, h.sync⟩

theorem AliasSound.sendCopy (h : AliasSound limit owed s) (htopic : pk.topicName ≠ [])
    (htype : out.fixedHeader.type = .publish)
    (hout : out.topicName = pk.topicName ∨ out.topicName = [] ∧ out.carriedAlias ≠ none ∧ ¬ owed pk.topicName)
    (hname : ∀ ⦃a⦄, out.carriedAlias = some a → s.client.outbound.names pk.topicName = some a)
    (howed : ∀ ⦃topic⦄, owed topic → topic = pk.topicName ∧ out.topicName = pk.topicName ∧ out.carriedAlias ≠ none)
    (hroom : Live s → ∀ ⦃topic⦄, owed topic → HasRoom s ∧ (0 < out.fixedHeader.qos →
      ¬ Defers s ∧ (s.nextPacketID env s.server.caps.maximumInflight.toNat).1 ≠ none)) :
    AliasSound limit (fun _ => False)
      (if out.fixedHeader.qos > 0 then
        match s.nextPacketID env s.server.caps.maximumInflight.toNat with
        | (some i, s) => s.sendQos env pk ({ out with packetID := UInt16.ofNat i }.fillFrom pk)
        | (none, s) => (some (.code .quotaExceeded), (s.emit (.packetIDExhausted pk)).dropInflight)
      else s.enqueue pk out).2 := by
  have hkey : (frameOf out pk.topicName).key = pk.topicName := by
    rcases hout with heq | ⟨hempty, -⟩
    · show (if out.topicName = [] then _ else _) = _
      rw [heq]
      exact if_neg htopic
    · exact if_pos hempty
  split
  · rename_i hqos
    obtain hnone | ⟨j, -, hsome⟩ := nextPacketID_cases env s s.server.caps.maximumInflight.toNat
    · rw [hnone]
      refine (AliasSound.emit (h.settle fun hlive topic ht => ?_) rfl).onServer _
      exact ((hroom hlive ht).2 hqos).2 (by rw [hnone])
    · rw [hsome]
      have hreserved := h.reserve env.now j (UInt16.ofNat j)
      have hfilled : ({ out with packetID := UInt16.ofNat j }.fillFrom pk).topicName = pk.topicName := by
        unfold Packet.fillFrom
        rcases hout with heq | ⟨hempty, -⟩
        · rw [if_neg]
          · exact heq
          · rintro ⟨hlen, -⟩
            exact htopic (heq ▸ List.length_eq_zero_iff.mp hlen)
        · rw [if_pos ⟨List.length_eq_zero_iff.mpr hempty, List.length_pos_iff.mpr htopic, rfl⟩]
      have hsame : ({ out with packetID := UInt16.ofNat j }.fillFrom pk).carriedAlias = out.carriedAlias := by
        unfold Packet.carriedAlias
        rw [Packet.fillFrom_properties]
      refine AliasSound.sendQos (r := Inflight.reservation env.now (UInt16.ofNat j)) hreserved ?_ rfl ?_ ?_ ?_ ?_
      · rw [Packet.fillFrom_packetID]
        exact (Inflight.get_put _ _ _).trans (if_pos rfl)
      · rw [Packet.fillFrom_fixedHeader]
        exact htype
      · intro _
        have hspelled : ({ out with packetID := UInt16.ofNat j }.fillFrom pk).topicName ≠ [] := by
          rw [hfilled]
          exact htopic
        refine ⟨hspelled, fun a ha => ?_⟩
        rw [frameOf_key hspelled, hfilled]
        exact hname (hsame.symm.trans ha)
      · intro topic ht
        obtain ⟨rfl, -, hne⟩ := howed ht
        rw [hsame]
        exact ⟨hfilled, hne⟩
      · intro hlive topic ht
        obtain ⟨hhas, hqos'⟩ := hroom hlive ht
        exact ⟨hhas, (hqos' hqos).1⟩
  · refine h.enqueue htype ?_ ?_ ?_ ?_
    · intro a ha
      rw [hkey]
      exact hname ha
    · rw [hkey]
      rcases hout with heq | ⟨-, ho⟩
      · rw [heq]
        exact .inl htopic
      · exact .inr ho
    · intro topic ht
      obtain ⟨heq, hspelled, hne⟩ := howed ht
      exact ⟨hspelled.trans heq.symm, hspelled ▸ htopic, hne⟩
    · exact fun hlive topic ht => (hroom hlive ht).1

theorem AliasSound.publishToClient (h : AliasSound limit (fun _ => False) s) (htopic : pk.topicName ≠ [])
    (htype : pk.fixedHeader.type = .publish) (hann : Announces env s sub pk) :
    AliasSound limit (fun _ => False) (s.publishToClient env sub pk).2 := by
  unfold Session.publishToClient
  split
  · exact h
  · rename_i hlocal
    split
    · exact h
    · rename_i hacl
      rw [Bool.not_eq_true] at hlocal
      rw [Bool.not_eq_true', Bool.not_eq_false] at hacl
      have hkind := (prepare_type s sub pk).trans htype
      have hqos := prepare_qos s sub pk
      have hcases := h.prepare_cases sub pk
      generalize s.prepare sub pk = prepared at hkind hqos hcases
      obtain ⟨out, s'⟩ := prepared
      dsimp only at hkind hqos hcases ⊢
      rcases hcases with ⟨rfl, hout⟩ | ⟨hreg, rfl, hname, halias⟩
      · refine h.sendCopy htopic hkind ?_ ?_ (fun _ hf => hf.elim) (fun _ _ hf => hf.elim)
        · rcases hout with ⟨heq, -⟩ | ⟨a, hempty, ha, -⟩
          · exact .inl heq
          · exact .inr ⟨hempty, by rw [ha]; simp, fun hf => hf⟩
        · intro a ha
          rcases hout with ⟨-, hnone⟩ | ⟨b, -, hb, hnames⟩
          · rw [hnone] at ha
            cases ha
          · rw [hb] at ha
            cases ha
            exact hnames
      · refine (h.register hreg).sendCopy htopic hkind (.inl hname) ?_ ?_ ?_
        · intro a ha
          exact halias.symm.trans ha
        · rintro topic rfl
          refine ⟨rfl, hname, ?_⟩
          rw [halias, OutboundTopicAliases.names_register, if_pos rfl]
          simp
        · intro hlive topic _
          obtain ⟨hhas, hsend⟩ := hann hlive hreg hlocal hacl
          refine ⟨hhas, fun hpos => ?_⟩
          rw [hqos] at hpos
          rw [nextPacketID_outbound]
          exact hsend hpos

end Session
end Mqtt
