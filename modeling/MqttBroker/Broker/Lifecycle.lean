import MqttBroker.Broker.Authorised
import MqttBroker.Session.Collisions
import MqttBroker.Session.Ownership

/-! The life of a connection from `Clients.Add` to the return of `attachClient`.
The connection takes its steps one by one, and between any two of them other
goroutines stop it, take its session over or deliver to it. Whether the will is
sent hangs on the error with which the read loop ends, and that it ends without one
does not mean that the client has left gracefully. -/

namespace Mqtt
open FiniteMap

/-- Where `attachClient` is. -/
inductive Phase where
  /-- the client is in the clients map -/
  | added
  /-- the CONNACK is written -/
  | acked
  /-- at the start of a turn of the read loop -/
  | top
  /-- waiting for a packet -/
  | waiting
  /-- the read loop has returned -/
  | ended (err : Option Error)
  /-- the will is dealt with -/
  | settled
  /-- the session ends with the connection -/
  | clearing
  | unsubscribing
  | deleting
  | returned
  deriving DecidableEq

/-- A connection, with a history: whether a DISCONNECT with reason code 0 was accepted, the messages that
`sendLWT` passed to the subscribers, whether the will was dealt with, and the calls of `OnDisconnect`. -/
structure Attachment where
  session : Session
  phase : Phase := .added
  present : Bool := false
  registered : Bool := true
  accepted : Bool := false
  wills : List Packet := []
  willDone : Bool := false
  disconnects : Nat := 0

namespace Attachment
open Session

def passed (s t : Session) : List Packet := t.visible.forwarded.drop s.visible.forwarded.length

def isSettled (s : Session) : Bool :=
  !s.client.will.flag || (s.server.willDelayed.lookup s.client.id).isSome

/-- The return of `attachClient`, which stops the client. -/
def leave (env : Env) (x : Attachment) : Attachment :=
  { x with session := x.session.stop env none, phase := .returned }

def advance (env : Env) (x : Attachment) : Attachment :=
  match x.phase with
  | .added =>
    match x.session.sendConnack env .success x.present with
    | (some _, s) => leave env { x with session := s }
    | (none, s) =>
      { x with
        session := { s with server := { s.server with willDelayed := s.server.willDelayed.erase s.client.id } }
        phase := .acked }
  | .acked =>
    if x.present then
      match x.session.resendInflightMessages env with
      | (some _, s) => leave env { x with session := s }
      | (none, s) => { x with session := s, phase := .top }
    else { x with phase := .top }
  | .top => { x with phase := if x.session.client.closed then .ended none else .waiting }
  | .waiting => x
  | .ended err =>
    let s := x.session.endRead env err
    { x with session := s, wills := x.wills ++ passed x.session s, willDone := isSettled s, phase := .settled }
  | .settled =>
    let x := { x with disconnects := x.disconnects + 1 }
    if x.session.client.expires && !x.session.client.isTakenOver then { x with phase := .clearing }
    else leave env x
  | .clearing => { x with session := x.session.clearInflights env, phase := .unsubscribing }
  | .unsubscribing => { x with session := x.session.unsubscribeClient, phase := .deleting }
  | .deleting => leave env { x with registered := false }
  | .returned => x

def receive (env : Env) (x : Attachment) (pk : Packet) : Attachment :=
  match x.session.receivePacket env pk with
  | (some err, s) =>
    { x with
      session := s
      wills := x.wills ++ if pk.fixedHeader.type = .connect then passed x.session s else []
      phase := .ended (some err) }
  | (none, s) =>
    { x with
      session := s
      accepted := x.accepted || (pk.fixedHeader.type == .disconnect && pk.reasonCode == Code.success.code)
      phase := .top }

def takeOver (env : Env) (s : Session) (pk : Packet) (cl : Client) : Session :=
  let (_, existing, t) := s.inheritClientSession env pk cl
  { client := existing, server := t.server, log := t.log }

/-- `sendDelayedLWT` for a delayed will under the client's id. -/
def sendDelayed (dt : Int) (s : Session) : Session :=
  match s.server.willDelayed.lookup s.client.id with
  | none => s
  | some pk =>
    if pk.expiry < dt then
      let s := Broker.finishWill pk (s.emit (.forward pk))
      { s with server := { s.server with willDelayed := s.server.willDelayed.erase s.client.id } }
    else s

inductive Call where
  | advance
  | fail (err : Error)
  | packet (pk : Packet)
  | stop (err : Option Error)
  | disconnect (code : Code)
  | takeOver (pk : Packet) (cl : Client)
  | deliver (sub : Subscription) (pk : Packet)
  | writeNext
  | resume
  | sweep (now : Int)
  | sendDelayed (dt : Int)
  /-- the handlers of other clients leave the server as it is given -/
  | others (server : Shared)

def run (env : Env) (x : Attachment) : Call → Attachment
  | .advance => x.advance env
  | .fail err => if x.phase = .waiting then { x with phase := .ended (some err) } else x
  | .packet pk => if x.phase = .waiting then x.receive env pk else x
  | .stop err => { x with session := x.session.stop env err }
  | .disconnect code => { x with session := (x.session.disconnectClient env code).2 }
  | .takeOver pk cl => { x with session := takeOver env x.session pk cl }
  | .deliver sub pk => { x with session := (x.session.publishToClient env sub pk).2 }
  | .writeNext => { x with session := x.session.writeNext env }
  | .resume => { x with session := (x.session.resumeDeferredPublishes env).2 }
  | .sweep now => { x with session := Broker.sweepInflights env now x.session }
  | .sendDelayed dt => { x with session := sendDelayed dt x.session }
  | .others server => { x with session := { x.session with server := server } }

def Step (x : Attachment) (call : Env × Call) (y : Attachment) : Prop := y = x.run call.1 call.2

def after (x : Attachment) (calls : List Call) : Attachment := calls.foldl (run (.encoding 100)) x

variable {env : Env} {x y : Attachment} {s t u : Session} {pk : Packet}

/-! ### What the handlers leave alone -/

structure Stays (s t : Session) : Prop where
  id : t.client.id = s.client.id
  will : t.client.will = s.client.will
  closed : t.client.closed = s.client.closed

theorem Stays.refl (s : Session) : Stays s s := ⟨rfl, rfl, rfl⟩

theorem Stays.trans (h : Stays s t) (h' : Stays t u) : Stays s u :=
  ⟨h'.id.trans h.id, h'.will.trans h.will, h'.closed.trans h.closed⟩

theorem Stays.of_client (h : t.client = s.client) : Stays s t := by
  refine ⟨?_, ?_, ?_⟩ <;> rw [h]

theorem stays_delivers (h : Delivers s t) : Stays s t := by
  obtain ⟨_, _, _, _, _, _, -, -, rfl⟩ := h
  exact ⟨rfl, rfl, rfl⟩

theorem stays_indexes (h : Indexes s t) : Stays s t := by
  obtain ⟨_, _, _, -, rfl⟩ := h
  exact ⟨rfl, rfl, rfl⟩

theorem stays_onInflight (f : Inflight → Inflight) : Stays s (s.onInflight f) := ⟨rfl, rfl, rfl⟩

theorem stays_writePacket : Stays s (s.writePacket env pk).2 := .of_client (writePacket_client _ _ _)

theorem stays_processPuback : Stays s (s.processPuback pk).2 := by
  unfold processPuback
  split
  · exact .refl s
  · split <;> exact ⟨rfl, rfl, rfl⟩

theorem stays_processPubrec : Stays s (s.processPubrec env pk).2 := by
  apply processPubrec_invariant
  · exact fun _ hu => hu.trans stays_writePacket
  · exact fun _ => ⟨rfl, rfl, rfl⟩
  · exact fun _ _ _ _ => stays_onInflight _
  · exact .refl s

theorem stays_processPubrel : Stays s (s.processPubrel env pk).2 := by
  apply processPubrel_invariant
  · exact fun _ hu => hu.trans stays_writePacket
  · exact fun _ => ⟨rfl, rfl, rfl⟩
  · exact fun _ _ _ _ => stays_onInflight _
  · exact fun ht _ _ _ => ht.trans ⟨rfl, rfl, rfl⟩
  · exact .refl s

theorem stays_processPubcomp : Stays s (s.processPubcomp pk).2 := by
  unfold processPubcomp
  dsimp only
  split <;> exact ⟨rfl, rfl, rfl⟩

theorem stays_emit (e : Event) : Stays s (s.emit e) := ⟨rfl, rfl, rfl⟩

theorem stays_processSubscribe : Stays s (s.processSubscribe env pk).2 := by
  have hsubs := stays_indexes (@indexes_subscribeFilters env (s.requestCode (env.onSubscribe pk))
    (env.onSubscribe pk).filters s)
  have hwritten : Stays s (s.answerSubscribe env pk).2.2 := (hsubs.trans (stays_emit _)).trans stays_writePacket
  exact hwritten.trans (stays_delivers delivers_answerSubscribe)

theorem stays_processUnsubscribe : Stays s (s.processUnsubscribe env pk).2 := by
  have hsubs := stays_indexes (indexes_unsubscribeFilters (s.requestCode pk) (env.onUnsubscribe pk).filters s)
  exact (hsubs.trans (stays_emit _)).trans stays_writePacket

/-- A handler that returns without an error leaves the connection open or closed; it never touches the will. -/
structure KeepsWill (err : Option Error) (s t : Session) : Prop where
  id : t.client.id = s.client.id
  will : t.client.will = s.client.will
  closed : err = none → t.client.closed = s.client.closed

theorem Stays.keepsWill (h : Stays s t) (err : Option Error) : KeepsWill err s t := ⟨h.id, h.will, fun _ => h.closed⟩

variable {err : Option Error}

theorem Stays.trans_keepsWill (h : Stays s t) (h' : KeepsWill err t u) : KeepsWill err s u :=
  ⟨h'.id.trans h.id, h'.will.trans h.will, fun herr => (h'.closed herr).trans h.closed⟩

theorem KeepsWill.trans_stays (h : KeepsWill err s t) (h' : Stays t u) : KeepsWill err s u :=
  ⟨h'.id.trans h.id, h'.will.trans h.will, fun herr => h'.closed.trans (h.closed herr)⟩

theorem keepsWill_disconnectClient {code : Code} (hcode : code.isError = true) :
    KeepsWill (s.disconnectClient env code).1 s (s.disconnectClient env code).2 := by
  have hwritten : Stays s (s.writePacket env (disconnectPacket code)).2 := stays_writePacket
  unfold disconnectClient
  dsimp only
  split
  · exact hwritten.keepsWill _
  · refine ⟨?_, ?_, nofun⟩
    · unfold Session.stop
      split <;> exact hwritten.id
    · unfold Session.stop
      split <;> exact hwritten.will

/-! ### PUBLISH -/

def error : PublishResult → Option Error
  | .returned err _ => err
  | .accepted _ _ => none

theorem keepsWill_of_halts {r : PublishResult} (h : Halts env s r) : KeepsWill (error r) s r.session := by
  cases h with
  | dropped => exact (Stays.refl s).keepsWill _
  | disconnected hcode => exact keepsWill_disconnectClient hcode
  | answered => exact stays_writePacket.keepsWill _

theorem stays_retained (q : Packet) : Stays s (s.retained q) := .of_client (retained_cases s q).1

theorem stays_acceptPublish (q : Packet) : Stays s (s.acceptPublish env q).session := by
  obtain ⟨⟨f, hclient⟩, -⟩ := @onlyInflight_acceptPublish env s q
  refine ⟨?_, ?_, ?_⟩ <;> rw [hclient]

theorem keepsWill_receivePublish : KeepsWill (error (s.receivePublish env pk)) s (s.receivePublish env pk).session := by
  have halias : Stays s (s.aliased env pk) := by
    rw [aliased_eq]
    exact ⟨rfl, rfl, rfl⟩
  obtain (hhalts | ⟨-, hhalts⟩) | ⟨-, q, -, hacc⟩ := receivePublish_halts env s pk
  · exact keepsWill_of_halts hhalts
  · exact halias.trans_keepsWill (keepsWill_of_halts hhalts)
  · rw [hacc]
    exact (halias.trans (stays_acceptPublish q)).keepsWill _

theorem stays_publishToSubscribers : Stays s (s.publishToSubscribers env pk) :=
  (stays_emit _).trans (stays_delivers delivers_publishToSubscribers)

theorem keepsWill_processPublish : KeepsWill (s.processPublish env pk).1 s (s.processPublish env pk).2 := by
  have hreceived := @keepsWill_receivePublish env s pk
  unfold processPublish
  generalize s.receivePublish env pk = received at hreceived
  cases received with
  | returned err t => exact hreceived
  | accepted q t => exact hreceived.trans_stays (stays_publishToSubscribers.trans (stays_emit _))

/-! ### Packets -/

theorem keepsWill_validated {code : Code} {r : Option Error × Session} (h : KeepsWill r.1 s r.2) :
    KeepsWill (validated code s r).1 s (validated code s r).2 := by
  unfold validated
  split
  · exact (Stays.refl s).keepsWill _
  · exact h

theorem keepsWill_handle (hconnect : pk.fixedHeader.type ≠ .connect) (hdisconnect : pk.fixedHeader.type ≠ .disconnect) :
    KeepsWill (s.handle env pk).1 s (s.handle env pk).2 := by
  unfold handle
  split
  · rename_i htype
    exact absurd htype hconnect
  · rename_i htype
    exact absurd htype hdisconnect
  · exact stays_writePacket.keepsWill _
  · exact keepsWill_validated keepsWill_processPublish
  · exact stays_processPuback.keepsWill _
  · exact stays_processPubrec.keepsWill _
  · exact stays_processPubrel.keepsWill _
  · exact stays_processPubcomp.keepsWill _
  · exact keepsWill_validated (stays_processSubscribe.keepsWill _)
  · exact keepsWill_validated (stays_processUnsubscribe.keepsWill _)
  · exact keepsWill_validated ((Stays.refl s).keepsWill _)
  · exact (Stays.refl s).keepsWill _

theorem keepsWill_stop (env : Env) (s : Session) (err : Option Error) {e : Error} :
    KeepsWill (some e) s (s.stop env err) := by
  refine ⟨?_, ?_, nofun⟩
  · unfold Session.stop
    split <;> rfl
  · unfold Session.stop
    split <;> rfl

theorem keepsWill_receivePacket (h : KeepsWill (s.handle env pk).1 s (s.handle env pk).2) :
    KeepsWill (s.receivePacket env pk).1 s (s.receivePacket env pk).2 := by
  have hprocessed : KeepsWill (s.processPacket env pk).1 s (s.processPacket env pk).2 := by
    unfold processPacket
    generalize s.handle env pk = handled at h
    obtain ⟨err, t⟩ := handled
    cases err with
    | some err => exact h
    | none =>
      have hstays : Stays s t := ⟨h.id, h.will, h.closed rfl⟩
      exact (hstays.trans (stays_delivers delivers_resume)).keepsWill _
  unfold receivePacket
  generalize s.processPacket env pk = processed at hprocessed
  obtain ⟨err, t⟩ := processed
  split
  · rename_i code u heq
    cases heq
    split
    · rename_i hcode
      have hstopped := @keepsWill_disconnectClient env t code (by simpa using (Bool.and_eq_true_iff.mp hcode).2)
      exact ⟨hstopped.id.trans hprocessed.id, hstopped.will.trans hprocessed.will, nofun⟩
    · exact hprocessed
  · rename_i heq
    cases heq
    exact hprocessed
  · rename_i heq
    cases heq
    exact hprocessed

theorem processDisconnect_cases (env : Env) (s : Session) (pk : Packet) :
    (∃ err, (s.processDisconnect env pk).1 = some err ∧
        Stays s (s.processDisconnect env pk).2) ∨
      (s.processDisconnect env pk).1 = none ∧ (s.processDisconnect env pk).2.client.id = s.client.id ∧
        (s.processDisconnect env pk).2.client.will = s.client.will ∧
        (s.processDisconnect env pk).2.client.closed = true ∧ pk.reasonCode ≠ Code.disconnectWillMessage.code := by
  unfold processDisconnect
  dsimp only
  split
  · exact .inl ⟨_, rfl, .refl s⟩
  · have hprops : ∀ t : Session, t = (if pk.properties.sessionExpiryIntervalFlag then
        { s with client := { s.client with props := { s.client.props with
          sessionExpiryInterval := pk.properties.sessionExpiryInterval, sessionExpiryIntervalFlag := true } } }
        else s) → Stays s t := by
      rintro t rfl
      split <;> exact ⟨rfl, rfl, rfl⟩
    split
    · exact .inl ⟨_, rfl, hprops _ rfl⟩
    · rename_i hcode
      have hstays := hprops _ rfl
      refine .inr ⟨rfl, ?_, ?_, closed_stop env _ _, hcode⟩
      · exact (@keepsWill_stop env _ _ .eof).id.trans hstays.id
      · exact (@keepsWill_stop env _ _ .eof).will.trans hstays.will

theorem resume_of_closed (h : s.client.closed = true) : (s.resumeDeferredPublishes env).1 = none := by
  have hsend : ∀ (t : Session) (next : Packet), t.client.closed = true →
      sendDeferred env t next = .stop none (t.deferAgain next) := by
    intro t next ht
    unfold sendDeferred
    rw [ht, Bool.or_true, if_pos rfl]
  have hloop : ∀ t : Session, t.client.closed = true → (resumeLoop env t).1 = none := by
    intro t ht
    rw [resumeLoop]
    split
    · rename_i hquota
      obtain ⟨hstop, -⟩ | ⟨pk, -, -, -, hturn⟩ := resumeTurn_cases env t hquota
      · split <;> rename_i heq <;> rw [hstop] at heq <;> cases heq
        rfl
      · rw [hsend (t.takeDeferred pk) _ ht] at hturn
        split <;> rename_i heq <;> rw [hturn] at heq <;> cases heq
        rfl
    · rfl
  exact hloop _ h

theorem receivePacket_disconnect (htype : pk.fixedHeader.type = .disconnect) :
    (∃ err, (s.receivePacket env pk).1 = some err ∧ KeepsWill (some err) s (s.receivePacket env pk).2) ∨
      (s.receivePacket env pk).1 = none ∧ (s.receivePacket env pk).2.client.id = s.client.id ∧
        (s.receivePacket env pk).2.client.will = s.client.will ∧
        (s.receivePacket env pk).2.client.closed = true ∧ pk.reasonCode ≠ Code.disconnectWillMessage.code := by
  have hhandle : s.handle env pk = s.processDisconnect env pk := by
    unfold handle
    rw [htype]
  obtain ⟨err, herr, hstays⟩ | ⟨hnone, hid, hwill, hclosed, hcode⟩ := processDisconnect_cases env s pk
  · have hkeeps := keepsWill_receivePacket (by rw [hhandle]; exact hstays.keepsWill _)
    have hsome : ∃ err, (s.receivePacket env pk).1 = some err := by
      have hprocessed : (s.processPacket env pk).1 = some err := by
        unfold processPacket
        rw [hhandle]
        generalize s.processDisconnect env pk = handled at herr
        obtain ⟨e, t⟩ := handled
        cases herr
        rfl
      unfold receivePacket
      generalize s.processPacket env pk = processed at hprocessed
      obtain ⟨e, t⟩ := processed
      cases hprocessed
      split
      · split <;> exact ⟨_, rfl⟩
      · exact ⟨_, rfl⟩
      · rename_i heq
        cases heq
    obtain ⟨err', herr'⟩ := hsome
    rw [herr'] at hkeeps
    exact .inl ⟨err', herr', hkeeps⟩
  · have hprocessed :
        s.processPacket env pk = (none, ((s.processDisconnect env pk).2.resumeDeferredPublishes env).2) := by
      unfold processPacket
      rw [hhandle]
      generalize s.processDisconnect env pk = handled at hnone hclosed
      obtain ⟨e, t⟩ := handled
      cases hnone
      exact Prod.ext (resume_of_closed hclosed) rfl
    have hreceived :
        s.receivePacket env pk = (none, ((s.processDisconnect env pk).2.resumeDeferredPublishes env).2) := by
      unfold receivePacket
      rw [hprocessed]
    have hresumed := stays_delivers (@delivers_resume env (s.processDisconnect env pk).2)
    rw [hreceived]
    exact .inr ⟨rfl, hresumed.id.trans hid, hresumed.will.trans hwill, hresumed.closed.trans hclosed, hcode⟩

/-! ### The will -/

structure IsWillOf (cl : Client) (pk : Packet) : Prop where
  topicName : pk.topicName = cl.will.topicName
  payload : pk.payload = cl.will.payload
  qos : pk.fixedHeader.qos = cl.will.qos
  retain : pk.fixedHeader.retain = cl.will.retain
  user : pk.properties.user = cl.will.user
  origin : pk.origin = cl.id

theorem passed_of_forwarded {l : List Packet} (h : t.visible.forwarded = s.visible.forwarded ++ l) :
    passed s t = l := by
  unfold passed
  rw [h, List.drop_left]

theorem sendLWT_of_flag (hflag : s.client.will.flag = true) (hdelay : s.client.will.willDelayInterval = 0) :
    (s.sendLWT env).visible.forwarded = s.visible.forwarded ++ [s.willMessage env] ∧
      (s.sendLWT env).client.will.flag = false ∧ (s.sendLWT env).client.id = s.client.id := by
  unfold sendLWT
  rw [hflag, hdelay]
  have hstays : Stays s ((s.retained (s.willMessage env)).publishToSubscribers env (s.willMessage env)) :=
    (stays_retained _).trans stays_publishToSubscribers
  refine ⟨?_, rfl, hstays.id⟩
  have hsent : ∀ (t : Session) (will : Will) (pk : Packet), ({ t with client := { t.client with will := will } }.emit
      (.willSent pk)).visible.forwarded = t.visible.forwarded :=
    fun t will pk => congrArg Outcome.forwarded (visible_emit rfl rfl rfl)
  refine (hsent ((s.retained (s.willMessage env)).publishToSubscribers env (s.willMessage env)) _ _).trans ?_
  rw [messages_publishToSubscribers.1, messages_retained.1]

theorem sendLWT_of_not_flag (hflag : s.client.will.flag = false) : s.sendLWT env = s := by
  unfold sendLWT
  rw [hflag]
  rfl

theorem isWillOf_willMessage {cl : Client} (henv : ∀ will, env.onWill will = will) (hid : s.client.id = cl.id)
    (hwill : s.client.will = cl.will) : IsWillOf cl (s.willMessage env) := by
  unfold willMessage
  rw [henv, hwill]
  exact ⟨rfl, rfl, rfl, rfl, rfl, hid⟩

theorem receivePacket_connect (htype : pk.fixedHeader.type = .connect) :
    ∃ err, (s.receivePacket env pk).1 = some err ∧
      (s.receivePacket env pk).2.visible.forwarded = (s.sendLWT env).visible.forwarded ∧
      KeepsWill (some err) (s.sendLWT env) (s.receivePacket env pk).2 := by
  have hprocessed : s.processPacket env pk = (some (.code .protocolViolationSecondConnect), s.sendLWT env) := by
    unfold processPacket handle
    rw [htype]
    rfl
  unfold receivePacket
  rw [hprocessed]
  dsimp only
  split
  · have hstopped := @keepsWill_disconnectClient env (s.sendLWT env) .protocolViolationSecondConnect rfl
    exact ⟨_, rfl, congrArg Outcome.forwarded (visible_disconnectClient _), hstopped.id, hstopped.will, nofun⟩
  · exact ⟨_, rfl, rfl, rfl, rfl, nofun⟩

theorem visible_stop (err : Option Error) : (s.stop env err).visible = s.visible := by
  unfold Session.stop
  split <;> rfl

theorem keepsWill_takeOver {cl : Client} (pk : Packet) :
    (takeOver env s pk cl).client.id = s.client.id ∧ (takeOver env s pk cl).client.will = s.client.will := by
  have hstopped := @keepsWill_disconnectClient env s .sessionTakenOver rfl
  unfold takeOver
  rw [inheritClientSession_eq]
  dsimp only
  generalize (s.disconnectClient env .sessionTakenOver).2 = t at hstopped
  split
  · have hsilent : Silent t (t.unsubscribeClient.clearInflights env) :=
      silent_unsubscribeClient.trans (silent_clearInflights env _)
    exact ⟨hsilent.id.trans hstopped.id, hsilent.will.trans hstopped.will⟩
  · exact ⟨hstopped.id, hstopped.will⟩

theorem fails_delivers (h : Delivers s t) : Fails env t pk ↔ Fails env s pk := by
  obtain ⟨_, _, _, _, _, _, -, -, rfl⟩ := h
  exact Iff.rfl

/-- The messages that `ResendInflightMessages` writes can be written. -/
def Resendable (env : Env) (s : Session) : Prop :=
  ∀ id tk, s.client.inflight.get id = some tk → tk.expiry ≠ inflightExpiryDeferred →
    tk.expiry ≠ inflightExpiryReserved → ¬ Fails env s (asResent tk)

theorem resendLoop_of_resendable (tks : List Packet) : ∀ s : Session,
    (∀ tk ∈ tks, tk.expiry ≠ inflightExpiryDeferred → tk.expiry ≠ inflightExpiryReserved →
      ¬ Fails env s (asResent tk)) → (resendLoop env tks s).1 = none := by
  induction tks with
  | nil => exact fun s _ => rfl
  | cons tk tks ih =>
    intro s h
    obtain ⟨hfirst, hrest⟩ := List.forall_mem_cons.mp h
    unfold resendLoop
    split
    · exact ih s hrest
    · rename_i hmark
      obtain ⟨hdeferred, hreserved⟩ := not_or.mp hmark
      have hwritten : Delivers s ((s.emit (.qosPublish (asResent tk))).writePacket env (asResent tk)).2 :=
        (delivers_emit rfl).trans delivers_writePacket
      split
      · rename_i err t hw
        have hfails := (fails_delivers (delivers_emit rfl)).mp (writePacket_fails hw)
        exact absurd hfails (hfirst hdeferred hreserved)
      · rename_i t hw
        rw [hw] at hwritten
        have hnext := hwritten.trans (delivers_completeResent (asResent tk))
        refine ih _ fun tk' htk' hdeferred' hreserved' hfails => ?_
        exact hrest tk' htk' hdeferred' hreserved' ((fails_delivers hnext).mp hfails)

theorem resend_of_resendable (h : Resendable env s) : (s.resendInflightMessages env).1 = none := by
  unfold resendInflightMessages
  split
  · rfl
  · exact resendLoop_of_resendable _ s fun tk htk => h tk.packetID tk ((Inflight.mem_getAll_iff _).mp htk)

/-! ### The will is sent once -/

structure Intact (cl : Client) (x : Attachment) : Prop where
  id : x.session.client.id = cl.id
  will : x.session.client.will = cl.will
  unsent : x.wills = []

def SentOnce (cl : Client) (x : Attachment) : Prop := ∃ pk, x.wills = [pk] ∧ IsWillOf cl pk

def Resolved (cl : Client) (x : Attachment) : Prop :=
  (x.accepted = true → x.wills = []) ∧ (x.accepted = false → SentOnce cl x)

def WillSound (cl : Client) (x : Attachment) : Prop :=
  match x.phase with
  | .added => False
  | .acked => Intact cl x ∧ x.accepted = false ∧ x.session.client.closed = false
  | .top => Intact cl x ∧ x.session.client.closed = x.accepted
  | .waiting => Intact cl x ∧ x.accepted = false
  | .ended none => x.accepted = true ∧ x.wills = []
  | .ended (some _) => x.accepted = false ∧ (Intact cl x ∨ x.session.client.will.flag = false ∧ SentOnce cl x)
  | _ => Resolved cl x

/-- Inflight messages can be resent; a client that disconnects says that it wants the will (4) or that it does
not (0); another goroutine stops the connection only while it waits for a packet, and no packet is read after
that; and no delayed will of an earlier connection falls due. -/
def Orderly (x : Attachment) (call : Env × Call) : Prop :=
  (∀ will, call.1.onWill will = will) ∧
    match call.2 with
    | .advance => x.phase = .acked → x.present = true → Resendable call.1 x.session
    | .packet pk => x.session.client.closed = false ∧ (pk.fixedHeader.type = .disconnect →
        pk.reasonCode = Code.success.code ∨ pk.reasonCode = Code.disconnectWillMessage.code)
    | .stop _ | .disconnect _ | .takeOver _ _ => x.phase ≠ .acked ∧ x.phase ≠ .top
    | .sendDelayed dt => ∀ pk, x.session.server.willDelayed.lookup x.session.client.id = some pk → dt ≤ pk.expiry
    | _ => True

variable {cl : Client}

theorem Intact.of_eq (h : Intact cl x) (hid : y.session.client.id = x.session.client.id)
    (hwill : y.session.client.will = x.session.client.will) (hwills : y.wills = x.wills) : Intact cl y :=
  ⟨hid.trans h.id, hwill.trans h.will, hwills.trans h.unsent⟩

theorem WillSound.session (h : WillSound cl x) {u : Session} (hid : u.client.id = x.session.client.id)
    (hwill : u.client.will = x.session.client.will)
    (hclosed : x.phase = .acked ∨ x.phase = .top → u.client.closed = x.session.client.closed) :
    WillSound cl { x with session := u } := by
  unfold WillSound at h ⊢
  cases hphase : x.phase with
  | acked =>
    rw [hphase] at h
    exact ⟨h.1.of_eq hid hwill rfl, h.2.1, (hclosed (.inl hphase)).trans h.2.2⟩
  | top =>
    rw [hphase] at h
    exact ⟨h.1.of_eq hid hwill rfl, (hclosed (.inr hphase)).trans h.2⟩
  | waiting =>
    rw [hphase] at h
    exact ⟨h.1.of_eq hid hwill rfl, h.2⟩
  | ended err =>
    rw [hphase] at h
    cases err with
    | none => exact h
    | some err =>
      have hflag : x.session.client.will.flag = false → u.client.will.flag = false := by
        rw [hwill]
        exact fun hflag => hflag
      exact ⟨h.1, h.2.imp (fun hintact => hintact.of_eq hid hwill rfl) fun hsent => ⟨hflag hsent.1, hsent.2⟩⟩
  | _ =>
    rw [hphase] at h
    exact h

theorem WillSound.stays (h : WillSound cl x) {u : Session} (hu : Stays x.session u) :
    WillSound cl { x with session := u } := h.session hu.id hu.will fun _ => hu.closed

section Will
variable (h : WillSound cl x) (hwill : cl.will.flag = true) (hdelay : cl.will.willDelayInterval = 0)
  (henv : ∀ will, env.onWill will = will)
include h hwill hdelay henv

theorem WillSound.settle {err : Option Error} (hphase : x.phase = .ended err) : WillSound cl (x.advance env) := by
  unfold WillSound at h
  rw [hphase] at h
  unfold advance
  rw [hphase]
  show Resolved cl _
  cases err with
  | none =>
    have hnone : passed x.session (x.session.endRead env none) = [] := List.drop_length
    refine ⟨fun _ => ?_, fun hrefused => absurd (h.1.symm.trans hrefused) (by decide)⟩
    show x.wills ++ passed x.session (x.session.endRead env none) = []
    rw [hnone, h.2]
    rfl
  | some err =>
    refine ⟨fun haccepted => absurd (h.1.symm.trans haccepted) (by decide), fun _ => ?_⟩
    have hforwarded : (x.session.endRead env (some err)).visible.forwarded =
        (x.session.sendLWT env).visible.forwarded := congrArg Outcome.forwarded (visible_stop _)
    show ∃ pk, x.wills ++ passed x.session (x.session.endRead env (some err)) = [pk] ∧ IsWillOf cl pk
    rcases h.2 with hintact | ⟨hflag, pk, hsent, hpk⟩
    · have hsend := @sendLWT_of_flag env x.session (by rw [hintact.will]; exact hwill)
        (by rw [hintact.will]; exact hdelay)
      refine ⟨x.session.willMessage env, ?_, isWillOf_willMessage henv hintact.id hintact.will⟩
      rw [passed_of_forwarded (hforwarded.trans hsend.1), hintact.unsent]
      rfl
    · refine ⟨pk, ?_, hpk⟩
      rw [sendLWT_of_not_flag hflag] at hforwarded
      rw [passed_of_forwarded (l := []) (hforwarded.trans (List.append_nil _).symm), hsent]
      rfl

theorem WillSound.receive (hphase : x.phase = .waiting) (hopen : x.session.client.closed = false)
    (hcode : pk.fixedHeader.type = .disconnect →
      pk.reasonCode = Code.success.code ∨ pk.reasonCode = Code.disconnectWillMessage.code) :
    WillSound cl (x.receive env pk) := by
  unfold WillSound at h
  rw [hphase] at h
  obtain ⟨hintact, haccepted⟩ := h
  by_cases hconnect : pk.fixedHeader.type = .connect
  · obtain ⟨err, herr, hforwarded, hkept⟩ := @receivePacket_connect env x.session pk hconnect
    have hsend := @sendLWT_of_flag env x.session (by rw [hintact.will]; exact hwill)
      (by rw [hintact.will]; exact hdelay)
    have hpassed := passed_of_forwarded (hforwarded.trans hsend.1)
    unfold Attachment.receive
    generalize x.session.receivePacket env pk = received at herr hkept hpassed
    obtain ⟨e, u⟩ := received
    cases herr
    refine ⟨haccepted, .inr ⟨?_, x.session.willMessage env, ?_, isWillOf_willMessage henv hintact.id hintact.will⟩⟩
    · exact (congrArg Will.flag hkept.will).trans hsend.2.1
    · show x.wills ++ (if pk.fixedHeader.type = .connect then passed x.session u else []) = _
      rw [if_pos hconnect, hpassed, hintact.unsent]
      rfl
  · have hreturned : ∀ err u, x.session.receivePacket env pk = (some err, u) → u.client.id = x.session.client.id →
        u.client.will = x.session.client.will → WillSound cl (x.receive env pk) := by
      intro err u heq hid hwill'
      unfold Attachment.receive
      rw [heq]
      dsimp only
      rw [if_neg hconnect]
      exact ⟨haccepted, .inl (hintact.of_eq hid hwill' (List.append_nil _))⟩
    by_cases hdisconnect : pk.fixedHeader.type = .disconnect
    · obtain ⟨err, herr, hkept⟩ | ⟨hnone, hid, hwill', hclosed, hrefused⟩ :=
        @receivePacket_disconnect env x.session pk hdisconnect
      · exact hreturned err _ (Prod.ext herr rfl) hkept.id hkept.will
      · unfold Attachment.receive
        generalize x.session.receivePacket env pk = received at hnone hid hwill' hclosed
        obtain ⟨e, u⟩ := received
        cases hnone
        refine ⟨hintact.of_eq hid hwill' rfl, hclosed.trans ?_⟩
        show true = (x.accepted || (pk.fixedHeader.type == .disconnect && pk.reasonCode == Code.success.code))
        rw [hdisconnect, (hcode hdisconnect).resolve_right hrefused]
        simp
    · have hkept := keepsWill_receivePacket (@keepsWill_handle env x.session pk hconnect hdisconnect)
      cases herr : (x.session.receivePacket env pk).1 with
      | some err => exact hreturned err _ (Prod.ext herr rfl) hkept.id hkept.will
      | none =>
        unfold Attachment.receive
        generalize x.session.receivePacket env pk = received at herr hkept
        obtain ⟨e, u⟩ := received
        cases herr
        refine ⟨hintact.of_eq hkept.id hkept.will rfl, (hkept.closed rfl).trans (hopen.trans ?_)⟩
        show false = (x.accepted || (pk.fixedHeader.type == .disconnect && _))
        rw [haccepted, beq_eq_false_iff_ne.mpr hdisconnect]
        rfl

theorem WillSound.advance (hresend : x.phase = .acked → x.present = true → Resendable env x.session) :
    WillSound cl (x.advance env) := by
  cases hphase : x.phase with
  | ended err => exact h.settle hwill hdelay henv hphase
  | added =>
    unfold WillSound at h
    rw [hphase] at h
    exact h.elim
  | acked =>
    have hdelivers := @delivers_resendInflightMessages env x.session
    unfold WillSound at h
    rw [hphase] at h
    unfold Attachment.advance
    rw [hphase]
    dsimp only
    split
    · rename_i hpresent
      have hresent := resend_of_resendable (hresend hphase hpresent)
      generalize x.session.resendInflightMessages env = resent at hresent hdelivers
      obtain ⟨e, u⟩ := resent
      cases hresent
      have hstays := stays_delivers hdelivers
      exact ⟨h.1.of_eq hstays.id hstays.will rfl, hstays.closed.trans (h.2.2.trans h.2.1.symm)⟩
    · exact ⟨h.1.of_eq rfl rfl rfl, h.2.2.trans h.2.1.symm⟩
  | top =>
    unfold WillSound at h
    rw [hphase] at h
    unfold Attachment.advance
    rw [hphase]
    cases hclosed : x.session.client.closed with
    | true => exact ⟨h.2.symm.trans hclosed, h.1.unsent⟩
    | false => exact ⟨h.1.of_eq rfl rfl rfl, h.2.symm.trans hclosed⟩
  | settled =>
    unfold WillSound at h
    rw [hphase] at h
    unfold Attachment.advance
    rw [hphase]
    dsimp only
    split <;> exact h
  | clearing | unsubscribing | deleting =>
    unfold WillSound at h
    rw [hphase] at h
    unfold Attachment.advance
    rw [hphase]
    exact h
  | waiting | returned =>
    have hsame : x.advance env = x := by
      unfold Attachment.advance
      rw [hphase]
    rw [hsame]
    exact h

end Will

theorem WillSound.run (h : WillSound cl x) {call : Call} (hok : Orderly x (env, call)) (hwill : cl.will.flag = true)
    (hdelay : cl.will.willDelayInterval = 0) : WillSound cl (x.run env call) := by
  obtain ⟨henv, hok⟩ := hok
  unfold Attachment.run
  cases call with
  | advance => exact h.advance hwill hdelay henv hok
  | fail err =>
    dsimp only
    split
    · rename_i hphase
      unfold WillSound at h
      rw [hphase] at h
      exact ⟨h.2, .inl (h.1.of_eq rfl rfl rfl)⟩
    · exact h
  | packet pk =>
    dsimp only
    split
    · rename_i hphase
      exact h.receive hwill hdelay henv hphase hok.1 hok.2
    · exact h
  | stop err =>
    have hstopped := @keepsWill_stop env x.session err .eof
    exact h.session hstopped.id hstopped.will fun hphase => (hphase.elim hok.1 hok.2).elim
  | disconnect code =>
    have hstopped := quiet_disconnectClient env x.session code
    refine h.session hstopped.toFrame.silent.id hstopped.toFrame.silent.will fun hphase => ?_
    exact (hphase.elim hok.1 hok.2).elim
  | takeOver pk cl =>
    have htaken := @keepsWill_takeOver env x.session cl pk
    exact h.session htaken.1 htaken.2 fun hphase => (hphase.elim hok.1 hok.2).elim
  | deliver sub pk => exact h.stays (stays_delivers delivers_publishToClient)
  | writeNext => exact h.stays (stays_delivers delivers_writeNext)
  | resume => exact h.stays (stays_delivers delivers_resume)
  | others server => exact h.session rfl rfl fun _ => rfl
  | sweep now => exact h.stays (stays_delivers (Broker.delivers_sweepInflights env now _))
  | sendDelayed dt =>
    have hsame : sendDelayed dt x.session = x.session := by
      unfold sendDelayed
      split
      · rfl
      · rename_i pk hpk
        exact if_neg (Int.not_lt.mpr (hok pk hpk))
    dsimp only
    rw [hsame]
    exact h

structure Established (x : Attachment) : Prop where
  phase : x.phase = .acked
  live : x.session.client.closed = false
  flag : x.session.client.will.flag = true
  delay : x.session.client.will.willDelayInterval = 0
  unsent : x.wills = []
  accepted : x.accepted = false

/-- When the steps of a connection are orderly, then by the time it returns its will was sent once, or a
DISCONNECT with reason code 0 was accepted and it was not sent. -/
theorem will_sent_once (hx : Established x) (hr : Runs.Reach Step Orderly x y) (hy : y.phase = .returned) :
    (y.accepted = true → y.wills = []) ∧
      (y.accepted = false → ∃ pk, y.wills = [pk] ∧ IsWillOf x.session.client pk) := by
  have hsound : WillSound x.session.client y := by
    apply hr.invariant
    · unfold WillSound
      rw [hx.phase]
      exact ⟨⟨rfl, rfl, hx.unsent⟩, hx.accepted, hx.live⟩
    · rintro t ⟨env, call⟩ u ht hok rfl
      exact ht.run hok hx.flag hx.delay
  unfold WillSound at hsound
  rw [hy] at hsound
  exact hsound

def withWill : Attachment where
  session := {
    client :=
      { id := [99], protocolVersion := 5, will := { flag := true, topicName := [97], payload := [98, 121, 101] } } }
  phase := .acked

def endOfStream : List Call := [.advance, .advance, .fail .eof, .advance, .advance, .advance, .advance, .advance]

/-- The session was present, with a message that is resent. -/
def withMessage : Attachment :=
  { withWill with
    present := true
    session := { withWill.session with client := { withWill.session.client with inflight := busyInflight } } }

theorem resendable_withMessage : Resendable (.encoding 100) withMessage.session := by
  intro id tk htk _ _
  have hget : withMessage.session.client.inflight.get id = if id = 1 then some sentMessage else none :=
    Inflight.get_put _ _ _
  rw [hget] at htk
  split at htk
  · cases htk
    decide +kernel
  · cases htk

theorem reach_endOfStream : Runs.Reach Step Orderly withMessage (withMessage.after endOfStream) := by
  have hsent : ∀ will, (Env.encoding 100).onWill will = will := fun _ => rfl
  refine Runs.Reach.replay run (.encoding 100) _ ⟨⟨⟨hsent, fun _ _ => resendable_withMessage⟩, rfl⟩, ⟨⟨hsent, ?_⟩, rfl⟩,
    ⟨⟨hsent, trivial⟩, rfl⟩, ⟨⟨hsent, ?_⟩, rfl⟩, ⟨⟨hsent, ?_⟩, rfl⟩, ⟨⟨hsent, ?_⟩, rfl⟩, ⟨⟨hsent, ?_⟩, rfl⟩,
    ⟨⟨hsent, ?_⟩, rfl⟩, trivial⟩
  all_goals exact fun hphase => absurd hphase (by decide +kernel)

theorem will_sent_of_endOfStream :
    ∃ pk, (withMessage.after endOfStream).wills = [pk] ∧ IsWillOf withMessage.session.client pk :=
  (will_sent_once ⟨rfl, rfl, rfl, rfl, rfl, rfl⟩ reach_endOfStream (by decide +kernel)).2 (by decide +kernel)

def disconnected (code : UInt8) : List Call :=
  [.advance, .advance, .packet { fixedHeader := { type := .disconnect }, reasonCode := code }, .advance, .advance,
    .advance, .advance, .advance, .advance]

def stoppedEarly : List Call :=
  [.stop (some .eof), .advance, .advance, .advance, .advance, .advance, .advance, .advance]

/-- A client that disconnects with an error (129, a malformed packet) and one that is stopped between two turns of
the read loop have not left gracefully, and their wills are not sent. -/
theorem will_lost :
    Established withWill ∧
      ((withWill.after (disconnected 129)).phase = .returned ∧ (withWill.after (disconnected 129)).accepted = false ∧
        (withWill.after (disconnected 129)).wills = []) ∧
      (withWill.after stoppedEarly).phase = .returned ∧ (withWill.after stoppedEarly).accepted = false ∧
        (withWill.after stoppedEarly).wills = [] :=
  ⟨⟨rfl, rfl, rfl, rfl, rfl, rfl⟩,
    ⟨by decide +kernel, by decide +kernel, List.eq_nil_of_length_eq_zero (by decide +kernel)⟩, rfl, rfl, rfl⟩

end Attachment
end Mqtt
