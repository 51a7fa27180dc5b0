import MqttBroker.Broker.State
import MqttBroker.Session.Cases
import MqttBroker.Session.Delivery

/-! Write authorisation. A PUBLISH is checked before its alias is resolved, and the
topics that aliases stand for were checked when they were registered. Wills are
checked nowhere: they are authorised if the CONNECT that set them asks for a topic
that the client may write. -/

namespace Mqtt
open FiniteMap

variable {acl : Bytes → Bytes → Bool → Bool}

def Allowed (acl : Bytes → Bytes → Bool → Bool) (client topic : Bytes) : Prop :=
  acl client topic true = true ∧ isValidFilter topic true = true

def Event.Allowed (acl : Bytes → Bytes → Bool → Bool) : Event → Prop
  | .forward pk => Mqtt.Allowed acl pk.origin pk.topicName
  | .retain pk => Mqtt.Allowed acl pk.origin pk.topicName
  | _ => True

structure Env.Plain (acl : Bytes → Bytes → Bool → Bool) (env : Env) : Prop where
  acl : env.onACLCheck = acl
  publish : env.onPublish = .accept
  will : ∀ will, env.onWill will = will

structure Client.Authorised (acl : Bytes → Bytes → Bool → Bool) (cl : Client) : Prop where
  inline : cl.inline = false
  will : cl.will.flag = true → Allowed acl cl.id cl.will.topicName
  aliases : ∀ ⦃a topic⦄, cl.inbound.internal.lookup a = some topic → Allowed acl cl.id topic

namespace Session

structure Authorised (acl : Bytes → Bytes → Bool → Bool) (s : Session) : Prop where
  client : s.client.Authorised acl
  delayed : ∀ ⦃id pk⦄, s.server.willDelayed.lookup id = some pk → Allowed acl pk.origin pk.topicName
  log : ∀ e ∈ s.log, e.Allowed acl

variable {env : Env} {s t u : Session} {pk : Packet}

/-! ### Steps that publish nothing -/

structure Silent (s t : Session) : Prop where
  id : t.client.id = s.client.id
  inline : t.client.inline = s.client.inline
  will : t.client.will = s.client.will
  inbound : t.client.inbound = s.client.inbound
  delayed : t.server.willDelayed = s.server.willDelayed
  log : ∃ es, t.log = s.log ++ es ∧ ∀ e ∈ es, passesOn e = false

theorem Silent.of_log (hclient : t.client.id = s.client.id ∧ t.client.inline = s.client.inline ∧
    t.client.will = s.client.will ∧ t.client.inbound = s.client.inbound)
    (hdelayed : t.server.willDelayed = s.server.willDelayed) (hlog : t.log = s.log) : Silent s t :=
  ⟨hclient.1, hclient.2.1, hclient.2.2.1, hclient.2.2.2, hdelayed, [], by rw [hlog, List.append_nil],
    fun _ he => absurd he List.not_mem_nil⟩

theorem Silent.refl (s : Session) : Silent s s := .of_log ⟨rfl, rfl, rfl, rfl⟩ rfl rfl

theorem Silent.trans (h : Silent s t) (h' : Silent t u) : Silent s u := by
  obtain ⟨es, hes, hpass⟩ := h.log
  obtain ⟨es', hes', hpass'⟩ := h'.log
  refine ⟨h'.id.trans h.id, h'.inline.trans h.inline, h'.will.trans h.will, h'.inbound.trans h.inbound,
    h'.delayed.trans h.delayed, es ++ es', by rw [hes', hes, List.append_assoc], ?_⟩
  intro e he
  exact (List.mem_append.mp he).elim (hpass e) (hpass' e)

variable {e : Event}

theorem passesOn_of_inert (h : inert e = true) : passesOn e = false := by
  cases e <;> first | rfl | cases h

theorem Frame.silent (h : Frame s t) : Silent s t := by
  obtain ⟨_, _, _, _, _, es, hes, rfl⟩ := h
  exact ⟨rfl, rfl, rfl, rfl, rfl, es, rfl, fun e he => passesOn_of_inert (hes e he)⟩

theorem Delivers.silent (h : Delivers s t) : Silent s t := by
  obtain ⟨_, _, _, _, _, es, -, hes, rfl⟩ := h
  exact ⟨rfl, rfl, rfl, rfl, rfl, es, rfl, fun e he => passesOn_of_ofDelivery (hes e he)⟩

theorem Indexes.silent (h : Indexes s t) : Silent s t := by
  obtain ⟨_, _, _, -, rfl⟩ := h
  exact .of_log ⟨rfl, rfl, rfl, rfl⟩ rfl rfl

theorem silent_emit (he : passesOn e = false) : Silent s (s.emit e) :=
  ⟨rfl, rfl, rfl, rfl, rfl, [e], rfl, fun e' he' => by rw [List.mem_singleton.mp he', he]⟩

theorem allowed_of_not_passesOn (h : passesOn e = false) : e.Allowed acl := by
  cases e <;> trivial

theorem Authorised.silent (h : s.Authorised acl) (hst : Silent s t) : t.Authorised acl := by
  obtain ⟨es, hes, hpass⟩ := hst.log
  refine ⟨⟨?_, ?_, ?_⟩, ?_, ?_⟩
  · rw [hst.inline]
    exact h.client.inline
  · rw [hst.will, hst.id]
    exact h.client.will
  · rw [hst.inbound, hst.id]
    exact h.client.aliases
  · rw [hst.delayed]
    exact h.delayed
  · rw [hes]
    intro e he
    rcases List.mem_append.mp he with he | he
    · exact h.log e he
    · exact allowed_of_not_passesOn (hpass e he)

theorem Authorised.emit (h : s.Authorised acl) (he : e.Allowed acl) : (s.emit e).Authorised acl := by
  refine ⟨h.client, h.delayed, ?_⟩
  intro e' he'
  rcases List.mem_append.mp he' with he' | he'
  · exact h.log e' he'
  · rw [List.mem_singleton.mp he']
    exact he

/-! ### PUBLISH -/

theorem Authorised.retained (h : s.Authorised acl) {q : Packet} (hq : Allowed acl q.origin q.topicName) :
    (s.retained q).Authorised acl := by
  unfold Session.retained retainMessage
  split
  · split
    · exact h
    · have hserver : ∀ topics info, ({ s with server := { s.server with topics := topics, info := info } } :
          Session).Authorised acl := fun topics info => ⟨h.client, h.delayed, h.log⟩
      exact (hserver _ _).emit hq
  · exact h

theorem Authorised.publishToSubscribers (env : Env) (h : s.Authorised acl) {q : Packet}
    (hq : Allowed acl q.origin q.topicName) : (s.publishToSubscribers env q).Authorised acl := by
  have hforward : (s.emit (.forward q)).Authorised acl := h.emit hq
  exact hforward.silent delivers_publishToSubscribers.silent

theorem Authorised.aliased (env : Env) (h : s.Authorised acl) (hpk : Allowed acl s.client.id pk.topicName) :
    (s.aliased env pk).Authorised acl ∧
      Allowed acl s.client.id (s.resolveAlias (s.stamp env pk)).1.topicName := by
  unfold Session.aliased resolveAlias
  split
  · have hinsert : ∀ id, ∀ ⦃a topic⦄, (s.client.inbound.internal.insert id pk.topicName).lookup a = some topic →
        Allowed acl s.client.id topic := by
      intro id a topic ha
      rw [lookup_insert_eq] at ha
      split at ha
      · cases ha
        exact hpk
      · exact h.client.aliases ha
    show Authorised acl { s with client := { s.client with inbound :=
      (s.client.inbound.set pk.properties.topicAlias pk.topicName).2 } } ∧
      Allowed acl s.client.id (s.client.inbound.set pk.properties.topicAlias pk.topicName).1
    unfold InboundTopicAliases.set
    split
    · exact ⟨h, hpk⟩
    · split
      · rename_i existing hexisting
        split
        · exact ⟨h, h.client.aliases hexisting⟩
        · exact ⟨⟨⟨h.client.inline, h.client.will, hinsert _⟩, h.delayed, h.log⟩, hpk⟩
      · exact ⟨⟨⟨h.client.inline, h.client.will, hinsert _⟩, h.delayed, h.log⟩, hpk⟩
  · exact ⟨h, hpk⟩

theorem Authorised.processPublish (h : s.Authorised acl) (henv : env.Plain acl) :
    (s.processPublish env pk).2.Authorised acl := by
  have hpassed : Admits env s pk → Allowed acl s.client.id pk.topicName := by
    intro hadmits
    have hinline : ¬ s.client.inline = true := by rw [h.client.inline]; decide
    refine ⟨?_, hadmits.topic.resolve_left hinline⟩
    rw [← henv.acl]
    exact hadmits.acl.resolve_left hinline
  unfold Session.processPublish
  obtain ⟨err, t, hret, hquiet⟩ | ⟨hadmits, q, hpass, hacc⟩ := receivePublish_cases env s pk
  · rw [hret]
    rcases hquiet with hquiet | ⟨hadmits, hquiet⟩
    · exact h.silent hquiet.toFrame.silent
    · exact (h.aliased env (hpassed hadmits)).1.silent hquiet.toFrame.silent
  · obtain ⟨haliased, hallowed⟩ := h.aliased env (hpassed hadmits)
    have hq : q = s.subject env pk := by
      unfold Passes at hpass
      rw [henv.publish] at hpass
      exact hpass
    have hmay : Allowed acl q.origin q.topicName := by
      obtain ⟨_, -, hsubject⟩ := subject_cases env s pk
      rw [hq, hsubject]
      exact hallowed
    have hretained := haliased.retained hmay
    have haccepted : ∀ {t : Session}, Silent ((s.aliased env pk).retained q) t →
        ((t.publishToSubscribers env q).emit (.published q)).Authorised acl :=
      fun hst => ((hretained.silent hst).publishToSubscribers env hmay).silent (silent_emit rfl)
    rw [hacc]
    obtain ⟨-, err, t, hret, hframe, -⟩ | ⟨-, -, -, err, t, hret, hframe, -⟩ | ⟨-, hret⟩ | ⟨-, -, t, hret, hframe, -⟩ :=
      acceptPublish_cases env (s.aliased env pk) q
    · rw [hret]
      exact hretained.silent hframe.silent
    · rw [hret]
      exact hretained.silent hframe.silent
    · rw [hret]
      exact haccepted (.refl _)
    · rw [hret]
      exact haccepted hframe.silent

/-! ### Wills -/

theorem Authorised.sendLWT (h : s.Authorised acl) (henv : env.Plain acl) : (s.sendLWT env).Authorised acl := by
  unfold Session.sendLWT
  split
  · exact h
  · rename_i hflag
    rw [Bool.not_eq_true', Bool.not_eq_false] at hflag
    have hwill : Allowed acl (s.willMessage env).origin (s.willMessage env).topicName := by
      unfold willMessage
      rw [henv.will]
      exact h.client.will hflag
    dsimp only
    split
    · refine ⟨h.client, ?_, h.log⟩
      intro id pk hpk
      dsimp only at hpk
      rw [lookup_insert_eq] at hpk
      split at hpk
      · cases hpk
        exact hwill
      · exact h.delayed hpk
    · have hretained : (s.retained (s.willMessage env)).Authorised acl := h.retained hwill
      have hsent := hretained.publishToSubscribers env hwill
      have hcleared : Authorised acl
          { (s.retained (s.willMessage env)).publishToSubscribers env (s.willMessage env) with
            client := { ((s.retained (s.willMessage env)).publishToSubscribers env (s.willMessage env)).client with
              will := { ((s.retained (s.willMessage env)).publishToSubscribers env
                (s.willMessage env)).client.will with flag := false } } } :=
        ⟨⟨hsent.client.inline, fun hf => absurd hf Bool.false_ne_true, hsent.client.aliases⟩, hsent.delayed, hsent.log⟩
      exact hcleared.silent (silent_emit rfl)

/-! ### The read loop -/

theorem silent_stop (env : Env) (s : Session) (err : Option Error) : Silent s (s.stop env err) :=
  (quiet_stop env s err).toFrame.silent

theorem silent_disconnectClient (env : Env) (s : Session) (code : Code) :
    Silent s (s.disconnectClient env code).2 := (quiet_disconnectClient env s code).toFrame.silent

theorem Authorised.eraseDelayed (h : s.Authorised acl) (id : Bytes) :
    Authorised acl { s with server := { s.server with willDelayed := s.server.willDelayed.erase id } } := by
  refine ⟨h.client, ?_, h.log⟩
  intro id' p hp
  dsimp only at hp
  rw [lookup_erase_eq] at hp
  split at hp
  · cases hp
  · exact h.delayed hp

theorem Authorised.processDisconnect (h : s.Authorised acl) : (s.processDisconnect env pk).2.Authorised acl :=
  processDisconnect_invariant (P := Authorised acl) h
    (fun _ => ⟨⟨h.client.inline, h.client.will, h.client.aliases⟩, h.delayed, h.log⟩)
    fun ht => (ht.eraseDelayed _).silent (silent_stop env _ _)

theorem silent_processSubscribe : Silent s (s.processSubscribe env pk).2 := by
  apply processSubscribe_steps
  · exact fun h => h.silent
  · exact fun _ _ h => h.trans (silent_emit rfl)
  · exact fun _ h => h.trans (delivers_writePacketOn _).silent
  · exact fun _ _ h => h.trans (delivers_publishRetainedToClient _).silent

theorem silent_processUnsubscribe : Silent s (s.processUnsubscribe env pk).2 := by
  have hunsubs := indexes_unsubscribeFilters (s.requestCode pk) (env.onUnsubscribe pk).filters s
  exact (hunsubs.silent.trans (silent_emit rfl)).trans (delivers_writePacketOn _).silent

theorem Authorised.validated (h : s.Authorised acl) {code : Code} {r : Option Error × Session}
    (hr : r.2.Authorised acl) : (Session.validated code s r).2.Authorised acl := by
  unfold Session.validated
  split
  · exact h
  · exact hr

theorem Authorised.handle (h : s.Authorised acl) (henv : env.Plain acl) : (s.handle env pk).2.Authorised acl := by
  unfold Session.handle
  split
  · exact h.sendLWT henv
  · exact h.processDisconnect
  · exact h.silent (delivers_writePacketOn _).silent
  · exact h.validated (h.processPublish henv)
  · exact h.silent frame_processPuback.silent
  · exact h.silent frame_processPubrec.silent
  · exact h.silent frame_processPubrel.silent
  · exact h.silent frame_processPubcomp.silent
  · exact h.validated (h.silent silent_processSubscribe)
  · exact h.validated (h.silent silent_processUnsubscribe)
  · exact h.validated h
  · exact h

theorem Authorised.receivePacket (h : s.Authorised acl) (henv : env.Plain acl) :
    (s.receivePacket env pk).2.Authorised acl :=
  receivePacket_invariant (P := Authorised acl) (h.handle henv) (fun ht => ht.silent delivers_resume.silent)
    fun code ht => ht.silent (silent_disconnectClient env _ code)

theorem Authorised.endRead (h : s.Authorised acl) (henv : env.Plain acl) (err : Option Error) :
    (s.endRead env err).Authorised acl := by
  cases err with
  | some err => exact (h.sendLWT henv).silent (silent_stop env _ _)
  | none => exact ⟨⟨h.client.inline, fun hf => absurd hf Bool.false_ne_true, h.client.aliases⟩, h.delayed, h.log⟩

/-! ### Taking a session over -/

theorem silent_unsubscribeClient : Silent s s.unsubscribeClient := by
  have hcleared : Silent s { s with client := { s.client with subscriptions := ∅ } } :=
    .of_log ⟨rfl, rfl, rfl, rfl⟩ rfl rfl
  unfold unsubscribeClient
  dsimp only
  split
  · exact hcleared
  · refine Silent.trans ?_ (silent_emit rfl)
    exact List.foldlRecOn _ _ hcleared fun t ht e _ => ht.trans (.of_log ⟨rfl, rfl, rfl, rfl⟩ rfl rfl)

theorem silent_clearInflights (env : Env) (s : Session) : Silent s (s.clearInflights env) := by
  refine clearInflights_invariant (fun {t tk} h _ => h.trans ?_) (.refl s)
  have hremoved : Delivers t ((t.onInflight fun f => f.remove tk.packetID).emit (.qosDropped tk)) :=
    (delivers_onInflight _).trans (delivers_emit rfl)
  split
  · exact (hremoved.trans (delivers_countInflight _)).silent
  · exact hremoved.silent

theorem Authorised.inheritClientSession (env : Env) (pk : Packet) (h : s.Authorised acl) {cl : Client}
    (hcl : cl.Authorised acl) :
    (s.inheritClientSession env pk cl).2.1.Authorised acl ∧ (s.inheritClientSession env pk cl).2.2.Authorised acl := by
  have hstopped := h.silent (silent_disconnectClient env s .sessionTakenOver)
  rw [Session.inheritClientSession_eq]
  dsimp only
  generalize (s.disconnectClient env .sessionTakenOver).2 = t at hstopped ⊢
  split
  · have hcleared := hstopped.silent (silent_unsubscribeClient.trans (silent_clearInflights env _))
    exact ⟨⟨hcleared.client.inline, hcleared.client.will, hcleared.client.aliases⟩,
      ⟨hcl, hcleared.delayed, hcleared.log⟩⟩
  · have hnew : ∀ inflight, Authorised acl { t with client := { cl with inflight := inflight } } :=
      fun inflight => ⟨⟨hcl.inline, hcl.will, hcl.aliases⟩, hstopped.delayed, hstopped.log⟩
    exact ⟨⟨hstopped.client.inline, hstopped.client.will, hstopped.client.aliases⟩,
      (hnew _).silent (indexes_addSubscriptions _ _ _).silent⟩

theorem Authorised.sendConnack (env : Env) (h : s.Authorised acl) (reason : Code) (present : Bool) :
    (s.sendConnack env reason present).2.Authorised acl := by
  have hcapped : s.capSessionExpiry.Authorised acl := by
    unfold capSessionExpiry
    dsimp only
    split
    · exact ⟨⟨h.client.inline, h.client.will, h.client.aliases⟩, h.delayed, h.log⟩
    · exact h
  unfold Session.sendConnack
  split
  · exact h.silent (delivers_writePacketOn _).silent
  · exact hcapped.silent (delivers_writePacketOn _).silent

theorem Authorised.establish (h : s.Authorised acl) (present : Bool) : (s.establish env present).2.Authorised acl := by
  have hconnack := h.sendConnack env .success present
  unfold Session.establish
  split
  · rename_i hc
    rw [hc] at hconnack
    exact hconnack
  · rename_i hc
    rw [hc] at hconnack
    dsimp only
    split
    · exact (hconnack.eraseDelayed _).silent delivers_resendInflightMessages.silent
    · exact hconnack.eraseDelayed _

end Session

/-! ### The server -/

namespace Broker

structure Authorised (acl : Bytes → Bytes → Bool → Bool) (b : Broker) : Prop where
  clients : ∀ cl ∈ b.connections, cl.Authorised acl
  delayed : ∀ ⦃id pk⦄, b.server.willDelayed.lookup id = some pk → Allowed acl pk.origin pk.topicName
  log : ∀ e ∈ b.log, e.Allowed acl

variable {env : Env} {b : Broker} {pk : Packet} {cl : Client}

theorem Authorised.session (h : b.Authorised acl) (hcl : cl.Authorised acl) : (b.session cl).Authorised acl :=
  ⟨hcl, h.delayed, h.log⟩

theorem Authorised.clients_set (h : b.Authorised acl) (hcl : cl.Authorised acl) (c : Nat) :
    ∀ cl' ∈ b.connections.set c cl, cl'.Authorised acl := by
  intro cl' hmem
  rcases List.mem_or_eq_of_mem_set hmem with hmem | rfl
  · exact h.clients cl' hmem
  · exact hcl

theorem Authorised.on (h : b.Authorised acl) (c : Nat) {f : Session → Session}
    (hf : ∀ s, s.Authorised acl → (f s).Authorised acl) : (b.on c f).Authorised acl := by
  unfold Broker.on
  split
  · exact h
  · rename_i cl hget
    have hs := hf _ (h.session (h.clients cl (List.mem_of_getElem? hget)))
    exact ⟨h.clients_set hs.client c, hs.delayed, hs.log⟩

theorem Authorised.turnAway (h : b.Authorised acl) {s : Session} (hs : s.Authorised acl) :
    (b.turnAway env s).Authorised acl := by
  have hstopped := hs.silent (Session.silent_stop env s none)
  refine ⟨?_, hs.delayed, hs.log⟩
  intro cl hcl
  rcases List.mem_append.mp hcl with hcl | hcl
  · exact h.clients cl hcl
  · rw [List.mem_singleton.mp hcl]
    exact hstopped.client

def WillAllowed (acl : Bytes → Bytes → Bool → Bool) (assigned : Bytes) (pk : Packet) : Prop :=
  pk.connect.willFlag = true →
    Allowed acl (if pk.connect.clientIdentifier = [] then assigned else pk.connect.clientIdentifier)
      pk.connect.willTopic

variable {assigned : Bytes}

theorem authorised_parse (h : WillAllowed acl assigned pk) : (b.parse assigned pk).Authorised acl := by
  refine ⟨rfl, ?_, fun a topic ha => absurd ha nofun⟩
  intro hflag
  have hwill : pk.connect.willFlag = true := by
    by_contra hno
    have hnone : (b.parse assigned pk).will = {} := if_neg hno
    rw [hnone] at hflag
    cases hflag
  have hset : (b.parse assigned pk).will = pk.will := if_pos hwill
  rw [hset]
  exact h hwill

theorem Authorised.inherit (env : Env) (pk : Packet) (h : b.Authorised acl) (hcl : cl.Authorised acl) :
    (b.inherit env pk cl).2.Authorised acl := by
  have happend : ∀ {cls : List Client}, (∀ cl ∈ cls, cl.Authorised acl) → ∀ {cl}, cl.Authorised acl →
      ∀ cl' ∈ cls ++ [cl], cl'.Authorised acl := by
    intro cls hcls cl hcl cl' hmem
    rcases List.mem_append.mp hmem with hmem | hmem
    · exact hcls cl' hmem
    · rw [List.mem_singleton.mp hmem]
      exact hcl
  unfold Broker.inherit
  split
  · exact ⟨happend h.clients hcl, h.delayed, h.log⟩
  · rename_i c existing hget
    have hexisting : existing.Authorised acl := by
      obtain ⟨c', -, hc'⟩ := Option.bind_eq_some_iff.mp hget
      obtain ⟨cl', hmem, heq⟩ := Option.map_eq_some_iff.mp hc'
      cases heq
      exact h.clients existing (List.mem_of_getElem? hmem)
    obtain ⟨hold, hnew⟩ := (h.session hexisting).inheritClientSession env pk hcl
    exact ⟨happend (h.clients_set hold c) hnew.client, hnew.delayed, hnew.log⟩

theorem authorised_establish {s : Session} (h : s.Authorised acl) (present : Bool) :
    (Broker.establish env present s).Authorised acl := by
  have hest : (s.establish env present).2.Authorised acl := h.establish present
  unfold Broker.establish
  split
  · rename_i he
    rw [he] at hest
    exact hest.silent (Session.silent_stop env _ _)
  · rename_i he
    rw [he] at hest
    exact hest

theorem Authorised.attach (h : b.Authorised acl) (hwill : WillAllowed acl assigned pk)
    (admission : Admission) : (b.attach env assigned pk admission).Authorised acl := by
  have hcl : (b.parse assigned pk).Authorised acl := authorised_parse hwill
  have hrefused : ∀ code, (b.turnAway env
      ((b.session (b.parse assigned pk)).sendConnack env code false).2).Authorised acl :=
    fun code => h.turnAway ((h.session hcl).sendConnack env code false)
  unfold Broker.attach
  dsimp only
  split
  · exact hrefused _
  · cases admission with
    | refuse code => exact hrefused code
    | drop => exact h.turnAway (h.session hcl)
    | accept => exact (h.inherit env pk hcl).on _ fun s hs => authorised_establish hs _

theorem Authorised.detach (h : b.Authorised acl) (henv : env.Plain acl) (c : Nat) (err : Option Error) :
    (b.detach env c err).Authorised acl := by
  unfold Broker.detach
  split
  · exact h
  · rename_i cl hget
    have hread := (h.session (h.clients cl (List.mem_of_getElem? hget))).endRead henv err
    generalize (b.session cl).endRead env err = s at hread ⊢
    have hended : (if s.client.expires && !s.client.isTakenOver then endSession env s else s).Authorised acl := by
      split
      · exact hread.silent ((Session.silent_clearInflights env s).trans Session.silent_unsubscribeClient)
      · exact hread
    have hstopped := hended.silent (Session.silent_stop env _ none)
    exact ⟨h.clients_set hstopped.client c, hstopped.delayed, hstopped.log⟩

/-! ### Sweeps -/

theorem Authorised.clearExpiredClients (h : b.Authorised acl) (dt : Int) :
    (b.clearExpiredClients dt).Authorised acl := by
  have hone : ∀ (b : Broker) (id : Bytes), b.Authorised acl → (clearExpiredClient dt b id).Authorised acl := by
    intro b id hb
    unfold clearExpiredClient
    split
    · exact hb
    · split
      · exact ⟨hb.clients, hb.delayed, hb.log⟩
      · exact hb
  exact List.foldlRecOn _ _ h fun b hb id _ => hone b id hb

theorem delivers_sweepInflights (env : Env) (now : Int) (s : Session) :
    Session.Delivers s (sweepInflights env now s) := by
  have hcleared : Session.Delivers s (s.clearExpiredInflights env now s.server.caps.maximumMessageExpiryInterval).2 :=
    Session.delivers_clearExpiredInflights _ _
  unfold sweepInflights
  generalize s.clearExpiredInflights env now s.server.caps.maximumMessageExpiryInterval = cleared at hcleared ⊢
  obtain ⟨deleted, t⟩ := cleared
  dsimp only at hcleared ⊢
  split
  · refine Session.Delivers.trans ?_ Session.delivers_resume
    exact List.foldlRecOn _ _ hcleared fun _ h id _ => h.trans (Session.delivers_emit rfl)
  · exact hcleared

theorem Authorised.clearExpiredInflights (h : b.Authorised acl) (now : Int) :
    (b.clearExpiredInflights env now).Authorised acl :=
  List.foldlRecOn _ _ h fun _ hb e _ => hb.on e.2 fun s hs => hs.silent (delivers_sweepInflights env now s).silent

theorem Authorised.sendDelayed (h : b.Authorised acl) (hpk : Allowed acl pk.origin pk.topicName) (dt : Int)
    (id : Bytes) : (sendDelayed dt b id pk).Authorised acl := by
  have hforward : Broker.Authorised acl { b with log := b.log ++ [Event.forward pk] } := by
    refine ⟨h.clients, h.delayed, ?_⟩
    intro e he
    rcases List.mem_append.mp he with he | he
    · exact h.log e he
    · rw [List.mem_singleton.mp he]
      exact hpk
  have hfinish : ∀ s : Session, s.Authorised acl → (finishWill pk s).Authorised acl := by
    intro s hs
    have hretained : (s.retained pk).Authorised acl := hs.retained hpk
    have hcleared : Session.Authorised acl
        { s.retained pk with client := { (s.retained pk).client with will := {} } } :=
      ⟨⟨hretained.client.inline, fun hf => absurd hf Bool.false_ne_true, hretained.client.aliases⟩,
        hretained.delayed, hretained.log⟩
    exact hcleared.silent (Session.silent_emit rfl)
  have herase : ∀ {b : Broker}, b.Authorised acl → Broker.Authorised acl
      { b with server := { b.server with willDelayed := b.server.willDelayed.erase id } } := by
    intro b hb
    refine ⟨hb.clients, ?_, hb.log⟩
    intro id' pk' hpk'
    dsimp only at hpk'
    rw [lookup_erase_eq] at hpk'
    split at hpk'
    · cases hpk'
    · exact hb.delayed hpk'
  unfold Broker.sendDelayed
  split
  · refine herase ?_
    split
    · exact hforward
    · exact hforward.on _ hfinish
  · exact h

theorem Authorised.sendDelayedLWT (h : b.Authorised acl) (dt : Int) : (b.sendDelayedLWT dt).Authorised acl := by
  refine List.foldlRecOn _ _ h fun b' hb' e he => ?_
  exact hb'.sendDelayed (h.delayed (AList.mem_lookup_iff.mpr he)) dt e.1

/-! ### Runs -/

def Action.Checked (acl : Bytes → Bytes → Bool → Bool) (action : Env × Action) : Prop :=
  action.1.Plain acl ∧
    match action.2 with
    | .attach assigned pk _ => WillAllowed acl assigned pk
    | _ => True

theorem Authorised.run (h : b.Authorised acl) {action : Action} (hchecked : Action.Checked acl (env, action)) :
    (action.run env b).Authorised acl := by
  obtain ⟨henv, hwill⟩ := hchecked
  cases action with
  | attach assigned pk admission => exact h.attach hwill admission
  | receive c pk => exact h.on c fun s hs => hs.receivePacket henv
  | detach c err => exact h.detach henv c err
  | deliver c sub pk => exact h.on c fun s hs => hs.silent Session.delivers_publishToClient.silent
  | writeNext c => exact h.on c fun s hs => hs.silent Session.delivers_writeNext.silent
  | resume c => exact h.on c fun s hs => hs.silent Session.delivers_resume.silent
  | disconnect c code => exact h.on c fun s hs => hs.silent (Session.silent_disconnectClient env s code)
  | clearExpiredClients dt => exact h.clearExpiredClients dt
  | clearExpiredInflights now => exact h.clearExpiredInflights now
  | sendDelayedLWT dt => exact h.sendDelayedLWT dt

/-- In every run of a server in which clients ask only for wills that they may publish, every message
that is passed on or retained is one that its client may publish. -/
theorem published_allowed_of_wills {server : Shared} (hstart : server.willDelayed = ∅)
    (hr : Runs.Reach Action.Step (fun _ action => Action.Checked acl action) { server := server } b) :
    ∀ e ∈ b.log, e.Allowed acl := by
  have hempty : Broker.Authorised acl { server := server } := by
    refine ⟨fun cl hcl => absurd hcl List.not_mem_nil, ?_, fun e he => absurd he List.not_mem_nil⟩
    intro id pk hpk
    rw [hstart] at hpk
    cases hpk
  have hb : b.Authorised acl := by
    refine hr.invariant hempty ?_
    intro u action v hu hchecked hstep
    rw [hstep]
    exact hu.run hchecked
  exact hb.log

def checking (acl : Bytes → Bytes → Bool → Bool) : Env := { Env.accepting 100 with onACLCheck := acl }

theorem plain_checking (acl : Bytes → Bytes → Bool → Bool) : (checking acl).Plain acl := ⟨rfl, rfl, fun _ => rfl⟩

def willConnect : Packet :=
  { fixedHeader := { type := .connect }
    protocolVersion := 5
    properties := { sessionExpiryInterval := 60, sessionExpiryIntervalFlag := true }
    connect :=
      { protocolName := [77, 81, 84, 84], clean := true, clientIdentifier := [99], willFlag := true
        willTopic := [97], willPayload := [1] } }

def broken (acl : Bytes → Bytes → Bool → Bool) : Broker :=
  (Action.detach 0 (some .connectionClosed)).run (checking acl)
    ((Action.attach [] willConnect .accept).run (checking acl) {})

/-- Client `c` may write topic `a` only. -/
def onlyA (_ topic : Bytes) (_ : Bool) : Bool := topic == [97]

/-- The client asks for a will on `a` and publishes to `b`, and its connection breaks. -/
def tried : List Action :=
  [.attach [] willConnect .accept,
    .receive 0
      { fixedHeader := { type := .publish, qos := 1 }, protocolVersion := 5, topicName := [98], packetID := 1 },
    .detach 0 (some .connectionClosed)]

/-- The will is published, and what the client sent to `b` is refused. -/
theorem published_allowed_of_tried :
    let b := tried.foldl (Action.run (checking onlyA)) {}
    onlyA [99] [98] true = false ∧ b.log.any (fun | .forward pk => pk.topicName == [97] | _ => false) = true ∧
      ∀ e ∈ b.log, e.Allowed onlyA := by
  have hplain := plain_checking onlyA
  have hreach : Runs.Reach Action.Step (fun _ action => Action.Checked onlyA action) {}
      (tried.foldl (Action.run (checking onlyA)) {}) := Runs.Reach.replay Action.run (checking onlyA) tried
    ⟨⟨⟨hplain, fun _ => ⟨rfl, by decide⟩⟩, rfl⟩, ⟨⟨hplain, trivial⟩, rfl⟩, ⟨⟨hplain, trivial⟩, rfl⟩, trivial⟩
  exact ⟨by decide, by decide +kernel, published_allowed_of_wills rfl hreach⟩

/-- A will is published on a topic that the client may not write. -/
theorem will_published_unchecked :
    (checking fun _ _ _ => false).Plain (fun _ _ _ => false) ∧
      ∃ pk, Event.forward pk ∈ (broken fun _ _ _ => false).log ∧ pk.origin = [99] ∧ pk.topicName = [97] ∧
        ¬ (Event.forward pk).Allowed fun _ _ _ => false := by
  refine ⟨plain_checking _, _, List.Mem.tail _ (List.Mem.head _), ?_⟩
  exact ⟨rfl, rfl, fun h => absurd h.1 Bool.false_ne_true⟩

end Broker
end Mqtt
