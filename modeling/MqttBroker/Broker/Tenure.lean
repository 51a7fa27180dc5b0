import MqttBroker.Broker.Cleanup
import MqttBroker.Session.Terms

/-! How long a session lives. The CONNECT asks for a session expiry interval, the
CONNACK cuts it to the maximum of the server, and a DISCONNECT may ask for another
one. When the connection has ended the session is gone at once, or a sweep takes it
once the interval has passed. -/

namespace Mqtt
open FiniteMap

/-- A connection, with a history: whether its CONNACK was written, the session expiry interval of an accepted
DISCONNECT, and whether `attachClient` returned because an inherited message could not be resent. -/
structure Tenure where
  attachment : Attachment
  acked : Bool := false
  asked : Option UInt32 := none
  cut : Bool := false

namespace Tenure
open Session Attachment

def session (z : Tenure) : Session := z.attachment.session

def phase (z : Tenure) : Phase := z.attachment.phase

def run (env : Env) (z : Tenure) : Call → Tenure
  | .advance =>
    let y := z.attachment.advance env
    { z with
      attachment := y
      acked := z.acked || (z.phase == .added && y.phase == .acked)
      cut := z.cut || (z.phase == .acked && y.phase == .returned) }
  | .packet pk =>
    { z with
      attachment := z.attachment.run env (.packet pk)
      asked := if z.phase = .waiting then (z.session.asks env pk).or z.asked else z.asked }
  | call => { z with attachment := z.attachment.run env call }

def Step (z : Tenure) (call : Env × Call) (w : Tenure) : Prop := w = z.run call.1 call.2

def Fixed (z : Tenure) (call : Env × Call) : Prop :=
  match call.2 with
  | .others server => server.caps = z.session.server.caps
  | _ => True

/-- A connection that was just added to the clients, by its CONNECT. A session expiry interval that is absent counts
as 0, and with a clean start no session is inherited. -/
structure Opened (pk : Packet) (z : Tenure) : Prop where
  phase : z.phase = .added
  registered : z.attachment.registered = true
  acked : z.acked = false
  asked : z.asked = none
  cut : z.cut = false
  version : z.session.client.protocolVersion = pk.protocolVersion
  clean : z.session.client.clean = pk.connect.clean
  interval : z.session.client.props.sessionExpiryInterval = pk.properties.sessionExpiryInterval
  flag : z.session.client.props.sessionExpiryIntervalFlag = pk.properties.sessionExpiryIntervalFlag
  absent : pk.properties.sessionExpiryIntervalFlag = false → pk.properties.sessionExpiryInterval = 0
  present : z.attachment.present = true → pk.connect.clean = false

def negotiated (limit : UInt32) (pk : Packet) (asked : Option UInt32) : UInt32 :=
  min limit (asked.getD pk.properties.sessionExpiryInterval)

def SweptAfter (s : Session) (interval : UInt32) : Prop :=
  ∀ (b : Broker) (c : Nat) (dt : Int), b.get s.client.id = some (c, s.client) → b.server.caps = s.server.caps →
    ((b.clearExpiredClients dt).get s.client.id = none ↔ s.client.disconnected + interval.toNat < dt)

structure Keeps (limit : UInt32) (pk : Packet) (z : Tenure) : Prop where
  ends : pk.protocolVersion = 5 → negotiated limit pk z.asked = 0 → z.attachment.registered = false
  lasts : pk.protocolVersion = 5 → negotiated limit pk z.asked ≠ 0 →
    z.attachment.registered = true ∧ SweptAfter z.session (negotiated limit pk z.asked)
  endsOld : pk.protocolVersion < 5 → pk.connect.clean = true → z.attachment.registered = false
  lastsOld : pk.protocolVersion < 5 → pk.connect.clean = false →
    z.attachment.registered = true ∧ SweptAfter z.session limit

variable {env : Env} {pk : Packet} {z w : Tenure} {s u : Session} {limit : UInt32}

/-! ### The terms along a run -/

structure Granted (limit : UInt32) (pk : Packet) (asked : Option UInt32) (terms : Terms) : Prop where
  version : terms.protocolVersion = pk.protocolVersion
  clean : terms.clean = pk.connect.clean
  maximum : terms.caps.maximumSessionExpiryInterval = limit
  interval : terms.props.sessionExpiryInterval = asked.getD (min limit pk.properties.sessionExpiryInterval)
  flag : terms.props.sessionExpiryInterval ≠ 0 → terms.props.sessionExpiryIntervalFlag = true

theorem Granted.expiring {asked ask : Option UInt32} {terms : Terms} (h : Granted limit pk asked terms) :
    Granted limit pk (ask.or asked) (terms.expiring ask) := by
  cases ask with
  | none => exact h
  | some d => exact ⟨h.version, h.clean, h.maximum, rfl, fun _ => rfl⟩

theorem min_of_le {a b : UInt32} (h : b ≤ a) : min a b = b := by
  by_cases hab : a ≤ b
  · exact (if_pos hab).trans (UInt32.le_antisymm hab h)
  · exact if_neg hab

theorem granted_capSessionExpiry (h : Opened pk z) :
    Granted z.session.server.caps.maximumSessionExpiryInterval pk none z.session.capSessionExpiry.terms := by
  unfold capSessionExpiry
  dsimp only
  split
  · rename_i hlt
    refine ⟨h.version, h.clean, rfl, ?_, fun _ => rfl⟩
    rw [h.interval] at hlt
    exact (if_pos (UInt32.le_of_lt hlt)).symm
  · rename_i hle
    refine ⟨h.version, h.clean, rfl, ?_, fun hne => ?_⟩
    · rw [h.interval] at hle
      exact h.interval.trans (min_of_le (UInt32.not_lt.mp hle)).symm
    · change z.session.client.props.sessionExpiryInterval ≠ 0 at hne
      show z.session.client.props.sessionExpiryIntervalFlag = true
      rw [h.flag]
      cases hflag : pk.properties.sessionExpiryIntervalFlag with
      | true => rfl
      | false => exact absurd (h.interval.trans (h.absent hflag)) hne

def ends (terms : Terms) : Bool :=
  (terms.protocolVersion == 5 && terms.props.sessionExpiryInterval == 0) || (terms.protocolVersion < 5 && terms.clean)

def Running (limit : UInt32) (pk : Packet) (z : Tenure) : Prop :=
  z.session.client.isTakenOver = true ∨ (z.attachment.present = true → pk.connect.clean = false) ∧
    match z.phase with
    | .added => Opened pk z ∧ z.session.server.caps.maximumSessionExpiryInterval = limit
    | .acked | .top | .waiting | .ended _ | .settled =>
      z.attachment.registered = true ∧ z.cut = false ∧ Granted limit pk z.asked z.session.terms
    | .clearing | .unsubscribing | .deleting =>
      z.attachment.registered = true ∧ z.cut = false ∧ Granted limit pk z.asked z.session.terms ∧
        ends z.session.terms = true
    | .returned => z.acked = true → Granted limit pk z.asked z.session.terms ∧
        (z.attachment.registered = false ↔ z.cut = false ∧ ends z.session.terms = true) ∧
        (z.cut = true → pk.connect.clean = false)

theorem isTakenOver_of_terms (h : u.terms = s.terms) : u.client.isTakenOver = s.client.isTakenOver :=
  congrArg Terms.isTakenOver h

theorem Opened.of_terms (h : Opened pk z) (hu : u.terms = z.session.terms) :
    Opened pk { z with attachment := { z.attachment with session := u } } := by
  have hprops := congrArg Terms.props hu
  exact
    { h with
      version := (congrArg Terms.protocolVersion hu).trans h.version
      clean := (congrArg Terms.clean hu).trans h.clean
      interval := (congrArg Properties.sessionExpiryInterval hprops).trans h.interval
      flag := (congrArg Properties.sessionExpiryIntervalFlag hprops).trans h.flag }

theorem Running.of_terms (h : Running limit pk z) (hu : u.terms = z.session.terms) :
    Running limit pk { z with attachment := { z.attachment with session := u } } := by
  refine h.imp (isTakenOver_of_terms hu).trans fun ⟨hpresent, hphases⟩ => ⟨hpresent, ?_⟩
  have hsame : (Tenure.session { z with attachment := { z.attachment with session := u } }).terms =
      z.session.terms := hu
  have hcaps := congrArg Terms.caps hu
  change match z.phase with
    | .added => Opened pk _ ∧ u.server.caps.maximumSessionExpiryInterval = limit
    | .acked | .top | .waiting | .ended _ | .settled => _
    | .clearing | .unsubscribing | .deleting => _
    | .returned => _
  rw [hsame]
  cases hphase : z.phase with
  | added =>
    rw [hphase] at hphases
    exact ⟨hphases.1.of_terms hu, (congrArg Capabilities.maximumSessionExpiryInterval hcaps).trans hphases.2⟩
  | _ =>
    rw [hphase] at hphases
    exact hphases

/-! ### Steps -/

theorem isTakenOver_advance (env : Env) (x : Attachment) :
    (x.advance env).session.client.isTakenOver = x.session.client.isTakenOver := by
  have hstop : ∀ s : Session, (s.stop env none).client.isTakenOver = s.client.isTakenOver :=
    fun s => isTakenOver_of_terms (terms_stop none)
  unfold Attachment.advance
  cases x.phase with
  | added =>
    have hsent := (aside_sendConnack env x.session .success x.present).isTakenOver
    dsimp only
    generalize x.session.sendConnack env .success x.present = sent at hsent
    obtain ⟨err, t⟩ := sent
    cases err with
    | some err => exact (hstop t).trans hsent
    | none => exact hsent
  | acked =>
    have hsent := isTakenOver_of_terms (@delivers_resendInflightMessages env x.session).terms
    dsimp only
    split
    · generalize x.session.resendInflightMessages env = sent at hsent
      obtain ⟨err, t⟩ := sent
      cases err with
      | some err => exact (hstop t).trans hsent
      | none => exact hsent
    · rfl
  | ended err => exact isTakenOver_of_terms (terms_endRead err)
  | settled =>
    dsimp only
    split
    · rfl
    · exact hstop x.session
  | clearing => exact isTakenOver_of_terms terms_clearInflights
  | unsubscribing => exact isTakenOver_of_terms terms_unsubscribeClient
  | deleting => exact hstop x.session
  | top | waiting | returned => rfl

theorem Running.answered (h : Opened pk z) (hlimit : z.session.server.caps.maximumSessionExpiryInterval = limit)
    (hpresent : z.attachment.present = true → pk.connect.clean = false) : Running limit pk (z.run env .advance) := by
  have hphase : z.attachment.phase = .added := h.phase
  have hgranted := granted_capSessionExpiry h
  have hterms := @terms_sendConnack env z.session z.attachment.present
  rw [← hterms, hlimit] at hgranted
  refine .inr ⟨?_, ?_⟩
  · unfold run Attachment.advance
    rw [hphase]
    dsimp only
    split <;> exact hpresent
  · unfold run Attachment.advance
    unfold Tenure.session Tenure.phase at *
    rw [hphase]
    dsimp only
    generalize z.attachment.session.sendConnack env .success z.attachment.present = sent at hgranted
    obtain ⟨err, t⟩ := sent
    cases err with
    | some err =>
      intro hacked
      change (z.acked || (true && false)) = true at hacked
      rw [h.acked] at hacked
      cases hacked
    | none =>
      show z.attachment.registered = true ∧ (z.cut || _) = false ∧ Granted limit pk z.asked _
      rw [h.cut, h.asked]
      exact ⟨h.registered, rfl, hgranted⟩

theorem advance_acked {x : Attachment} (hphase : x.phase = .acked) :
    (∃ t : Session, t.terms = x.session.terms ∧ x.advance env = { x with session := t, phase := .top }) ∨
      x.present = true ∧ ∃ t : Session, t.terms = x.session.terms ∧
        x.advance env = leave env { x with session := t, phase := .acked } := by
  have hterms := (@delivers_resendInflightMessages env x.session).terms
  unfold Attachment.advance
  rw [hphase]
  dsimp only
  cases hpresent : x.present with
  | false => exact .inl ⟨x.session, rfl, rfl⟩
  | true =>
    rw [if_pos rfl]
    generalize x.session.resendInflightMessages env = sent at hterms
    obtain ⟨err, t⟩ := sent
    cases err with
    | some err => exact .inr ⟨rfl, t, hterms, rfl⟩
    | none => exact .inl ⟨t, hterms, rfl⟩

theorem Running.resent (hphase : z.phase = .acked) (hregistered : z.attachment.registered = true) (hcut : z.cut = false)
    (hgranted : Granted limit pk z.asked z.session.terms)
    (hpresent : z.attachment.present = true → pk.connect.clean = false) : Running limit pk (z.run env .advance) := by
  unfold run
  rw [hphase]
  obtain ⟨t, hterms, hadvance⟩ | ⟨hinherits, t, hterms, hadvance⟩ := @advance_acked env z.attachment hphase
  · rw [hadvance]
    refine .inr ⟨hpresent, hregistered, ?_, ?_⟩
    · show (z.cut || false) = false
      rw [hcut]
      rfl
    · show Granted limit pk z.asked t.terms
      rw [hterms]
      exact hgranted
  · rw [hadvance]
    have hnow : (z.cut || true) = true := Bool.or_true _
    refine .inr ⟨hpresent, fun _ => ⟨?_, iff_of_false (fun hgone => ?_) fun hend => ?_, fun _ => hpresent hinherits⟩⟩
    · show Granted limit pk z.asked (t.stop env none).terms
      rw [terms_stop, hterms]
      exact hgranted
    · exact Bool.noConfusion (hregistered.symm.trans hgone)
    · exact Bool.noConfusion (hnow.symm.trans hend.1)

theorem run_advance (hadded : z.phase ≠ .added) (hacked : z.phase ≠ .acked) :
    z.run env .advance = { z with attachment := z.attachment.advance env } := by
  have hfirst : (z.phase == .added) = false := beq_false_of_ne hadded
  have hsecond : (z.phase == .acked) = false := beq_false_of_ne hacked
  unfold run
  dsimp only
  rw [hfirst, hsecond, Bool.false_and, Bool.false_and, Bool.or_false, Bool.or_false]

theorem Running.left (hphase : z.phase = .settled) (hregistered : z.attachment.registered = true) (hcut : z.cut = false)
    (hgranted : Granted limit pk z.asked z.session.terms)
    (hpresent : z.attachment.present = true → pk.connect.clean = false) :
    Running limit pk { z with attachment := z.attachment.advance env } := by
  change z.attachment.phase = .settled at hphase
  unfold Attachment.advance
  rw [hphase]
  dsimp only
  split
  · rename_i hends
    rw [Bool.and_eq_true] at hends
    exact .inr ⟨hpresent, hregistered, hcut, hgranted, hends.1⟩
  · rename_i hkept
    rw [Bool.and_eq_true, not_and_or, Bool.not_eq_true, Bool.not_eq_true, Bool.not_eq_false'] at hkept
    obtain hlasts | htaken := hkept
    · refine .inr ⟨hpresent, fun _ => ?_⟩
      have hterms : (z.attachment.session.stop env none).terms = z.session.terms := terms_stop none
      refine ⟨?_, iff_of_false (fun hgone => ?_) fun hend => ?_, fun hnow => ?_⟩
      · show Granted limit pk z.asked (z.attachment.session.stop env none).terms
        rw [hterms]
        exact hgranted
      · exact Bool.noConfusion (hregistered.symm.trans hgone)
      · have hends : ends (z.attachment.session.stop env none).terms = true := hend.2
        rw [hterms] at hends
        exact Bool.noConfusion (hends.symm.trans hlasts)
      · exact Bool.noConfusion (hnow.symm.trans hcut)
    · exact .inl ((isTakenOver_of_terms (terms_stop none)).trans htaken)

theorem Running.proceed (h : Running limit pk z) (hadded : z.phase ≠ .added) (hacked : z.phase ≠ .acked) :
    Running limit pk { z with attachment := z.attachment.advance env } := by
  obtain htaken | ⟨hpresent, hphases⟩ := h
  · exact .inl ((isTakenOver_advance env z.attachment).trans htaken)
  · unfold Tenure.phase at hphases hadded hacked
    cases hphase : z.attachment.phase with
    | added => exact absurd hphase hadded
    | acked => exact absurd hphase hacked
    | settled =>
      rw [hphase] at hphases
      exact Running.left hphase hphases.1 hphases.2.1 hphases.2.2 hpresent
    | top =>
      rw [hphase] at hphases
      unfold Attachment.advance
      rw [hphase]
      dsimp only
      split
      · exact .inr ⟨hpresent, hphases⟩
      · exact .inr ⟨hpresent, hphases⟩
    | ended err =>
      rw [hphase] at hphases
      unfold Attachment.advance
      rw [hphase]
      have hterms : (z.attachment.session.endRead env err).terms = z.session.terms := terms_endRead err
      rw [← hterms] at hphases
      exact .inr ⟨hpresent, hphases⟩
    | clearing =>
      rw [hphase] at hphases
      unfold Attachment.advance
      rw [hphase]
      have hterms : (z.attachment.session.clearInflights env).terms = z.session.terms := terms_clearInflights
      rw [← hterms] at hphases
      exact .inr ⟨hpresent, hphases⟩
    | unsubscribing =>
      rw [hphase] at hphases
      unfold Attachment.advance
      rw [hphase]
      have hterms : z.attachment.session.unsubscribeClient.terms = z.session.terms := terms_unsubscribeClient
      rw [← hterms] at hphases
      exact .inr ⟨hpresent, hphases⟩
    | deleting =>
      rw [hphase] at hphases
      unfold Attachment.advance
      rw [hphase]
      have hterms : (z.attachment.session.stop env none).terms = z.session.terms := terms_stop none
      rw [← hterms] at hphases
      obtain ⟨-, hcut, hgranted, hends⟩ := hphases
      refine .inr ⟨hpresent, fun _ => ⟨hgranted, iff_of_true rfl ⟨hcut, hends⟩, fun hnow => ?_⟩⟩
      exact Bool.noConfusion (hnow.symm.trans hcut)
    | waiting | returned =>
      have hsame : z.attachment.advance env = z.attachment := by
        unfold Attachment.advance
        rw [hphase]
      rw [hsame]
      exact .inr ⟨hpresent, hphases⟩

theorem Running.advance (h : Running limit pk z) : Running limit pk (z.run env .advance) := by
  by_cases hadded : z.phase = .added
  · obtain htaken | ⟨hpresent, hphases⟩ := h
    · exact .inl ((isTakenOver_advance env z.attachment).trans htaken)
    · rw [hadded] at hphases
      exact Running.answered hphases.1 hphases.2 hpresent
  · by_cases hacked : z.phase = .acked
    · obtain htaken | ⟨hpresent, hphases⟩ := h
      · exact .inl ((isTakenOver_advance env z.attachment).trans htaken)
      · rw [hacked] at hphases
        exact Running.resent hacked hphases.1 hphases.2.1 hphases.2.2 hpresent
    · rw [run_advance hadded hacked]
      exact h.proceed hadded hacked

theorem run_packet (env : Env) (z : Tenure) (p : Packet) : z.run env (.packet p) =
    { z with
      attachment := if z.phase = .waiting then z.attachment.receive env p else z.attachment
      asked := if z.phase = .waiting then (z.session.asks env p).or z.asked else z.asked } := rfl

theorem Running.packet (h : Running limit pk z) (p : Packet) : Running limit pk (z.run env (.packet p)) := by
  have hterms := @terms_receivePacket env z.session p
  by_cases hphase : z.phase = .waiting
  · rw [run_packet, if_pos hphase, if_pos hphase]
    unfold Attachment.receive
    change (z.attachment.session.receivePacket env p).2.terms = _ at hterms
    generalize z.attachment.session.receivePacket env p = received at hterms
    obtain ⟨err, t⟩ := received
    have htaken : t.client.isTakenOver = z.session.client.isTakenOver := by
      have hsame := congrArg Terms.isTakenOver hterms
      cases hask : z.session.asks env p with
      | none | some =>
        rw [hask] at hsame
        exact hsame
    obtain hover | ⟨hpresent, hphases⟩ := h
    · cases err <;> exact .inl (htaken.trans hover)
    · rw [hphase] at hphases
      have hgranted : Granted limit pk ((z.session.asks env p).or z.asked) t.terms := by
        rw [show t.terms = _ from hterms]
        exact hphases.2.2.expiring
      cases err <;> exact .inr ⟨hpresent, hphases.1, hphases.2.1, hgranted⟩
  · rw [run_packet, if_neg hphase, if_neg hphase]
    exact h

theorem terms_sendDelayed (dt : Int) : (sendDelayed dt s).terms = s.terms := by
  unfold sendDelayed Broker.finishWill
  split
  · rfl
  · dsimp only
    split
    · split
      · exact terms_retainMessage
      · rfl
    · rfl

theorem Running.run (h : Running limit pk z) {call : Call} (hok : Fixed z (env, call)) :
    Running limit pk (z.run env call) := by
  cases call with
  | advance => exact h.advance
  | packet p => exact h.packet p
  | fail err =>
    show Running limit pk { z with attachment := if z.phase = .waiting then _ else _ }
    split
    · rename_i hphase
      refine h.imp (fun htaken => htaken) fun ⟨hpresent, hphases⟩ => ⟨hpresent, ?_⟩
      rw [hphase] at hphases
      exact hphases
    · exact h
  | stop err => exact h.of_terms (terms_stop err)
  | disconnect code => exact h.of_terms (terms_disconnectClient code)
  | takeOver p cl => exact .inl (isTakenOver_takeOver z.session p cl)
  | deliver sub p => exact h.of_terms delivers_publishToClient.terms
  | writeNext => exact h.of_terms delivers_writeNext.terms
  | resume => exact h.of_terms delivers_resume.terms
  | sweep now => exact h.of_terms (Broker.delivers_sweepInflights env now z.session).terms
  | sendDelayed dt => exact h.of_terms (terms_sendDelayed dt)
  | others server => exact h.of_terms (terms_of_eq rfl hok)

/-! ### When the session is gone -/

theorem sweptAfter_iff {interval e : UInt32} (hstopped : s.client.disconnected ≠ 0)
    (hinterval : (if s.client.protocolVersion == 5 && s.client.props.sessionExpiryIntervalFlag then
      s.client.props.sessionExpiryInterval else s.server.caps.maximumSessionExpiryInterval) = interval) :
    SweptAfter s e ↔ interval = e := by
  have hswept : ∀ (b : Broker) (c : Nat) (dt : Int), b.get s.client.id = some (c, s.client) →
      b.server.caps = s.server.caps →
      ((b.clearExpiredClients dt).get s.client.id = none ↔ s.client.disconnected + interval.toNat < dt) := by
    intro b c dt hget hcaps
    rw [Broker.get_clearExpiredClients hget]
    unfold Broker.isExpired
    dsimp only
    rw [hcaps, hinterval, Bool.and_eq_true, bne_iff_ne, decide_eq_true_eq]
    exact and_iff_right hstopped
  constructor
  · intro h
    -- a server of this client alone is swept when either interval has passed
    let b : Broker :=
      { connections := [s.client], clients := (∅ : Map Bytes Nat).insert s.client.id 0, server := s.server }
    have hget : b.get s.client.id = some (0, s.client) := by
      unfold Broker.get
      show (((∅ : Map Bytes Nat).insert s.client.id 0).lookup s.client.id).bind _ = _
      rw [AList.lookup_insert]
      rfl
    have hsame : ∀ dt : Int, s.client.disconnected + interval.toNat < dt ↔ s.client.disconnected + e.toNat < dt :=
      fun dt => (hswept b 0 dt hget rfl).symm.trans (h b 0 dt hget rfl)
    have hle := (hsame (s.client.disconnected + interval.toNat + 1)).mp (by omega)
    have hge := (hsame (s.client.disconnected + e.toNat + 1)).mpr (by omega)
    exact UInt32.toNat_inj.mp (by omega)
  · rintro rfl b c dt hget hcaps
    exact hswept b c dt hget hcaps

section Granted
variable {asked : Option UInt32} (h : Granted limit pk asked s.terms)
include h

theorem Granted.ends_iff (hv : pk.protocolVersion = 5) :
    ends s.terms = true ↔ s.client.props.sessionExpiryInterval = 0 := by
  have hversion : s.client.protocolVersion = 5 := h.version.trans hv
  have hold : decide ((5 : UInt8) < 5) = false := by decide
  show ((s.client.protocolVersion == 5 && s.client.props.sessionExpiryInterval == 0) ||
    (s.client.protocolVersion < 5 && s.client.clean)) = true ↔ _
  rw [hversion, hold, Bool.false_and, Bool.or_false, beq_self_eq_true, Bool.true_and, beq_iff_eq]

theorem Granted.ends_iff_clean (hv : pk.protocolVersion < 5) : ends s.terms = true ↔ pk.connect.clean = true := by
  have hversion : s.client.protocolVersion < 5 := by
    rw [show s.client.protocolVersion = pk.protocolVersion from h.version]
    exact hv
  have hne : (s.client.protocolVersion == 5) = false := beq_false_of_ne fun heq => by
    rw [heq] at hversion
    exact absurd hversion (by decide)
  have hclean : s.client.clean = pk.connect.clean := h.clean
  show ((s.client.protocolVersion == 5 && s.client.props.sessionExpiryInterval == 0) ||
    (s.client.protocolVersion < 5 && s.client.clean)) = true ↔ _
  rw [hne, Bool.false_and, Bool.false_or, decide_eq_true hversion, Bool.true_and, hclean]

theorem Granted.sweptAfter_iff (hstopped : s.client.disconnected ≠ 0) (hv : pk.protocolVersion = 5)
    (hne : s.client.props.sessionExpiryInterval ≠ 0) {e : UInt32} :
    SweptAfter s e ↔ s.client.props.sessionExpiryInterval = e := by
  have hversion : s.client.protocolVersion = 5 := h.version.trans hv
  have hflag : s.client.props.sessionExpiryIntervalFlag = true := h.flag hne
  refine Tenure.sweptAfter_iff hstopped ?_
  rw [hversion, hflag]
  rfl

theorem Granted.sweptAfter_of_old (hstopped : s.client.disconnected ≠ 0) (hv : pk.protocolVersion < 5) :
    SweptAfter s limit := by
  have hne : (s.client.protocolVersion == 5) = false := beq_false_of_ne fun heq => by
    have hversion : s.client.protocolVersion = pk.protocolVersion := h.version
    rw [← hversion, heq] at hv
    exact absurd hv (by decide)
  refine (Tenure.sweptAfter_iff hstopped ?_).mpr rfl
  rw [hne, Bool.false_and]
  exact h.maximum

theorem Granted.interval_eq (hasked : ∀ d, asked = some d → d ≤ limit) :
    s.client.props.sessionExpiryInterval = negotiated limit pk asked := by
  refine h.interval.trans ?_
  unfold negotiated
  cases asked with
  | none => rfl
  | some d => exact (min_of_le (hasked d rfl)).symm

end Granted

/-- A session lives as long as was negotiated exactly if its DISCONNECT does not ask for more than the maximum, and
the inherited messages of a session that should end with its connection could be resent. -/
theorem lives_as_negotiated_iff (hz : Opened pk z) (hr : Runs.Reach Step Fixed z w) (hw : w.phase = .returned)
    (hacked : w.acked = true) (htaken : w.session.client.isTakenOver = false)
    (hstopped : w.session.client.disconnected ≠ 0) :
    Keeps z.session.server.caps.maximumSessionExpiryInterval pk w ↔
      (pk.protocolVersion = 5 →
        (∀ d, w.asked = some d → d ≤ z.session.server.caps.maximumSessionExpiryInterval) ∧
          (w.cut = true → negotiated z.session.server.caps.maximumSessionExpiryInterval pk w.asked ≠ 0)) := by
  have hrunning : Running z.session.server.caps.maximumSessionExpiryInterval pk w := by
    apply hr.invariant
    · refine .inr ⟨hz.present, ?_⟩
      rw [hz.phase]
      exact ⟨hz, rfl⟩
    · rintro t ⟨env, call⟩ u ht hok rfl
      exact ht.run hok
  generalize z.session.server.caps.maximumSessionExpiryInterval = limit at hrunning ⊢
  obtain hover | ⟨-, hphases⟩ := hrunning
  · exact Bool.noConfusion (htaken.symm.trans hover)
  rw [hw] at hphases
  obtain ⟨hgranted, hgone, hclean⟩ := hphases hacked
  constructor
  · intro h hv
    refine ⟨fun d hd => ?_, fun hcut hzero => ?_⟩
    · have hinterval : w.session.client.props.sessionExpiryInterval = d := by
        refine hgranted.interval.trans ?_
        rw [hd]
        rfl
      by_contra hlt
      have hlimit : limit < d := UInt32.not_le.mp hlt
      have hcut : negotiated limit pk w.asked = limit := by
        unfold negotiated
        rw [hd]
        exact if_pos (UInt32.le_of_lt hlimit)
      have hne : d ≠ 0 := by
        rintro rfl
        exact absurd hlimit UInt32.not_lt_zero
      by_cases hzero : limit = 0
      · obtain ⟨-, hends⟩ := hgone.mp (h.ends hv (hcut.trans hzero))
        exact hne (hinterval.symm.trans ((hgranted.ends_iff hv).mp hends))
      · obtain ⟨-, hswept⟩ := h.lasts hv (by rw [hcut]; exact hzero)
        rw [hgranted.sweptAfter_iff hstopped hv (by rw [hinterval]; exact hne), hinterval, hcut] at hswept
        rw [hswept] at hlimit
        exact absurd hlimit (UInt32.lt_irrefl _)
    · obtain ⟨hkept, -⟩ := hgone.mp (h.ends hv hzero)
      exact Bool.noConfusion (hcut.symm.trans hkept)
  · intro h
    refine ⟨fun hv hzero => ?_, fun hv hne => ?_, fun hv hstart => ?_, fun hv hstart => ?_⟩
    · obtain ⟨hasked, hcut⟩ := h hv
      refine hgone.mpr ⟨?_, (hgranted.ends_iff hv).mpr ((hgranted.interval_eq hasked).trans hzero)⟩
      exact Bool.eq_false_iff.mpr fun hnow => hcut hnow hzero
    · obtain ⟨hasked, -⟩ := h hv
      have hinterval := hgranted.interval_eq hasked
      have hne' : w.session.client.props.sessionExpiryInterval ≠ 0 := by rw [hinterval]; exact hne
      refine ⟨?_, (hgranted.sweptAfter_iff hstopped hv hne').mpr hinterval⟩
      refine Bool.of_not_eq_false fun hnot => hne' ?_
      exact (hgranted.ends_iff hv).mp (hgone.mp hnot).2
    · refine hgone.mpr ⟨?_, (hgranted.ends_iff_clean hv).mpr hstart⟩
      exact Bool.eq_false_iff.mpr fun hnow => Bool.noConfusion (hstart.symm.trans (hclean hnow))
    · refine ⟨Bool.of_not_eq_false fun hnot => ?_, hgranted.sweptAfter_of_old hstopped hv⟩
      exact Bool.noConfusion (((hgranted.ends_iff_clean hv).mp (hgone.mp hnot).2).symm.trans hstart)

def briefConnect : Packet :=
  { fixedHeader := { type := .connect }
    protocolVersion := 5
    properties := { sessionExpiryInterval := 5, sessionExpiryIntervalFlag := true } }

def brief : Tenure where
  attachment :=
    { session :=
        { client := { id := [99], protocolVersion := 5, props := briefConnect.properties }
          server := { caps := { maximumSessionExpiryInterval := 10 } } } }

theorem opened_brief : Opened briefConnect brief := ⟨rfl, rfl, rfl, rfl, rfl, rfl, rfl, rfl, rfl, nofun, nofun⟩

def after (z : Tenure) (calls : List Call) : Tenure := calls.foldl (run (.accepting 100)) z

def endsBriefly : List Call := [.advance, .advance, .advance, .fail .eof, .advance, .advance]

theorem reach_endsBriefly : Runs.Reach Step Fixed brief (brief.after endsBriefly) :=
  Runs.Reach.replay run (.accepting 100) _
    ⟨⟨trivial, rfl⟩, ⟨trivial, rfl⟩, ⟨trivial, rfl⟩, ⟨trivial, rfl⟩, ⟨trivial, rfl⟩, ⟨trivial, rfl⟩, trivial⟩

theorem brief_lives_as_negotiated :
    Keeps 10 briefConnect (brief.after endsBriefly) ∧
    negotiated 10 briefConnect (brief.after endsBriefly).asked = 5 := by
  refine ⟨(lives_as_negotiated_iff opened_brief reach_endsBriefly (by decide +kernel) (by decide +kernel)
    (by decide +kernel) (by decide +kernel)).mpr fun _ => ⟨?_, ?_⟩, by decide +kernel⟩
  · have hasked : (brief.after endsBriefly).asked = none := by decide +kernel
    rw [hasked]
    exact nofun
  · intro hcut
    exact absurd hcut (by decide +kernel)

def asksForMore : List Call :=
  [.advance, .advance, .advance,
    .packet { fixedHeader := { type := .disconnect },
              properties := { sessionExpiryInterval := 20, sessionExpiryIntervalFlag := true } },
    .advance, .advance, .advance]

theorem reach_asksForMore : Runs.Reach Step Fixed brief (brief.after asksForMore) :=
  Runs.Reach.replay run (.accepting 100) _
    ⟨⟨trivial, rfl⟩, ⟨trivial, rfl⟩, ⟨trivial, rfl⟩, ⟨trivial, rfl⟩, ⟨trivial, rfl⟩, ⟨trivial, rfl⟩,
      ⟨trivial, rfl⟩, trivial⟩

/-- The session should live for the maximum of 10 seconds, and the server keeps it for 20. -/
theorem brief_outlives_maximum :
    Opened briefConnect brief ∧ Runs.Reach Step Fixed brief (brief.after asksForMore) ∧
      (brief.after asksForMore).phase = .returned ∧ (brief.after asksForMore).acked = true ∧
      (brief.after asksForMore).session.client.isTakenOver = false ∧
      (brief.after asksForMore).session.client.disconnected = 100 ∧
      negotiated 10 briefConnect (brief.after asksForMore).asked = 10 ∧
      SweptAfter (brief.after asksForMore).session 20 ∧ ¬Keeps 10 briefConnect (brief.after asksForMore) := by
  have hstopped : (brief.after asksForMore).session.client.disconnected = 100 := by decide +kernel
  have hinterval : (if (brief.after asksForMore).session.client.protocolVersion == 5 &&
      (brief.after asksForMore).session.client.props.sessionExpiryIntervalFlag then
      (brief.after asksForMore).session.client.props.sessionExpiryInterval
      else (brief.after asksForMore).session.server.caps.maximumSessionExpiryInterval) = 20 := by decide +kernel
  have hnegotiated : negotiated 10 briefConnect (brief.after asksForMore).asked = 10 := by decide +kernel
  have hswept : ∀ e, SweptAfter (brief.after asksForMore).session e ↔ 20 = e :=
    fun e => sweptAfter_iff (by rw [hstopped]; decide) hinterval
  refine ⟨opened_brief, reach_asksForMore, by decide +kernel, by decide +kernel, by decide +kernel, hstopped,
    hnegotiated, (hswept 20).mpr rfl, fun h => ?_⟩
  obtain ⟨-, hlasts⟩ := h.lasts rfl (by rw [hnegotiated]; decide)
  rw [hnegotiated, hswept] at hlasts
  exact absurd hlasts (by decide)

end Tenure
end Mqtt
