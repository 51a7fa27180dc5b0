import MqttBroker.Broker.Lifecycle

/-! A will with a delay against the same will without one. The delayed will is issued
by the event loop, which looks its client up to retain the message: a client that is
no longer registered has its will forwarded and not retained. The delay runs from the
end of the connection, and nothing ends it with a session that ends earlier. -/

namespace Mqtt
open FiniteMap
open Session (retainedOf forwardedOf)

def Packet.content (pk : Packet) : Bytes × Bytes × UInt8 × Bool × Properties :=
  (pk.topicName, pk.payload, pk.fixedHeader.qos, pk.fixedHeader.retain, pk.properties)

namespace Session
variable {env : Env} {s : Session} {pk : Packet}

def sendAtOnce (env : Env) (s : Session) : Session :=
  { s with client := { s.client with will := { s.client.will with willDelayInterval := 0 } } }.sendLWT
    { env with onWill := fun _ => env.onWill s.client.will }

/-- How many seconds the session outlives its connection: none if it expires with it, and otherwise as
`clearExpiredClients` counts them. -/
def lifetime (s : Session) : UInt32 :=
  if s.client.expires then 0
  else if s.client.protocolVersion == 5 && s.client.props.sessionExpiryIntervalFlag then
    s.client.props.sessionExpiryInterval
  else s.server.caps.maximumSessionExpiryInterval

theorem retained_sendLWT (hflag : s.client.will.flag = true) (hdelay : s.client.will.willDelayInterval = 0) :
    (s.sendLWT env).visible.retained = s.visible.retained ++ s.retainedFrom (s.willMessage env) := by
  have hsent : (s.sendLWT env).visible.retained =
      ((s.retained (s.willMessage env)).publishToSubscribers env (s.willMessage env)).visible.retained := by
    unfold sendLWT
    rw [hflag, hdelay]
    exact congrArg Outcome.retained (visible_emit (e := .willSent _) rfl rfl rfl)
  rw [hsent, messages_publishToSubscribers.2, messages_retained.2]

theorem sendAtOnce_of_flag (hflag : s.client.will.flag = true) :
    (s.sendAtOnce env).visible.forwarded = s.visible.forwarded ++ [s.willMessage env] ∧
      (s.sendAtOnce env).visible.retained = s.visible.retained ++ s.retainedFrom (s.willMessage env) := by
  let once : Session := { s with client := { s.client with will := { s.client.will with willDelayInterval := 0 } } }
  exact ⟨(@Attachment.sendLWT_of_flag _ once hflag rfl).1, @retained_sendLWT _ once hflag rfl⟩

theorem sendLWT_of_delay (hflag : s.client.will.flag = true) (hdelay : 0 < s.client.will.willDelayInterval)
    (hpk : (s.sendLWT env).server.willDelayed.lookup s.client.id = some pk) :
    pk.content = (s.willMessage env).content ∧ pk.ignore = false ∧
      (pk.copy false).content = ((s.willMessage env).copy false).content ∧
      pk.expiry = env.now + s.client.will.willDelayInterval.toNat := by
  unfold sendLWT at hpk
  rw [hflag] at hpk
  simp only [Bool.not_true, Bool.false_eq_true, if_false, if_pos hdelay, AList.lookup_insert, Option.some.injEq] at hpk
  subst hpk
  exact ⟨rfl, rfl, rfl, rfl⟩

end Session

namespace Broker
variable {env : Env} {s : Session} {b : Broker} {pk : Packet} {dt : Int} {id : Bytes}

def retainedDelayed (b : Broker) (id : Bytes) (pk : Packet) : List Packet :=
  match b.get id with
  | none => []
  | some (_, cl) => (b.session cl).retainedFrom pk

theorem log_finishWill :
    (finishWill pk s).log.filterMap retainedOf = s.log.filterMap retainedOf ++ s.retainedFrom pk ∧
      (finishWill pk s).log.filterMap forwardedOf = s.log.filterMap forwardedOf := by
  have hlog : (finishWill pk s).log = (s.retained pk).log ++ [.willSent pk] := rfl
  obtain ⟨hforwarded, hretained⟩ := @Session.messages_retained s pk
  rw [hlog, List.filterMap_append, List.filterMap_append]
  exact ⟨(List.append_nil _).trans hretained, (List.append_nil _).trans hforwarded⟩

theorem log_sendDelayed (hdue : pk.expiry < dt) :
    (b.sendDelayed dt id pk).log.filterMap forwardedOf = b.log.filterMap forwardedOf ++ [pk] ∧
      (b.sendDelayed dt id pk).log.filterMap retainedOf = b.log.filterMap retainedOf ++ b.retainedDelayed id pk := by
  have hforward : (b.log ++ [Event.forward pk]).filterMap forwardedOf = b.log.filterMap forwardedOf ++ [pk] :=
    List.filterMap_append
  have hretain : (b.log ++ [Event.forward pk]).filterMap retainedOf = b.log.filterMap retainedOf :=
    List.filterMap_append.trans (List.append_nil _)
  unfold sendDelayed retainedDelayed
  rw [if_pos hdue]
  have hget : ({ b with log := b.log ++ [Event.forward pk] } : Broker).get id = b.get id := rfl
  dsimp only
  rw [hget]
  cases hfound : b.get id with
  -- the will is retained by its client, which may be gone
  | none => exact ⟨hforward, hretain.trans (List.append_nil _).symm⟩
  | some found =>
    obtain ⟨c, cl⟩ := found
    have hconnection := (get_eq_some_iff.mp hfound).2
    have hlog := @log_finishWill (Broker.session { b with log := b.log ++ [Event.forward pk] } cl) pk
    unfold on
    simp only [hconnection]
    exact ⟨hlog.2.trans hforward, hlog.1.trans (congrArg (· ++ _) hretain)⟩

/-- The will that is issued at time `dt`, when it is due, against the will sent at once: the same message is retained,
one message is forwarded and it is the same, it is issued at no earlier time and not again, and it is due by the end
of the session. -/
structure SameEffect (env : Env) (s : Session) (b : Broker) (dt : Int) (pk : Packet) : Prop where
  retained : ∃ late early,
    (b.sendDelayed dt s.client.id pk).log.filterMap retainedOf = b.log.filterMap retainedOf ++ late ∧
    (s.sendAtOnce env).log.filterMap retainedOf = s.log.filterMap retainedOf ++ early ∧
    late.map Packet.content = early.map Packet.content
  forwarded : ∃ late early,
    (b.sendDelayed dt s.client.id pk).log.filterMap forwardedOf = b.log.filterMap forwardedOf ++ [late] ∧
    (s.sendAtOnce env).log.filterMap forwardedOf = s.log.filterMap forwardedOf ++ [early] ∧
    late.content = early.content
  waits : ∀ t ≤ pk.expiry, b.sendDelayed t s.client.id pk = b
  issued : (b.sendDelayed dt s.client.id pk).server.willDelayed.lookup s.client.id = none
  inTime : pk.expiry ≤ env.now + s.lifetime.toNat

/-- A delayed will has the effect of an immediate one exactly if its client is still registered when it is issued, or
nothing had to be retained, and the delay is not longer than the session outlives its connection. -/
theorem sameEffect_iff (hflag : s.client.will.flag = true) (hdelay : 0 < s.client.will.willDelayInterval)
    (hpk : (s.sendLWT env).server.willDelayed.lookup s.client.id = some pk) (hdue : pk.expiry < dt)
    (hcaps : b.server.caps = s.server.caps) :
    SameEffect env s b dt pk ↔
      (s.retains (s.willMessage env) = true → b.get s.client.id ≠ none) ∧
        s.client.will.willDelayInterval ≤ s.lifetime := by
  obtain ⟨hcontent, hignore, hcopy, hexpiry⟩ := Session.sendLWT_of_delay hflag hdelay hpk
  obtain ⟨hforwarded, hretained⟩ := @log_sendDelayed b pk dt s.client.id hdue
  obtain ⟨honce, hkept⟩ := @Session.sendAtOnce_of_flag env s hflag
  have htime : pk.expiry ≤ env.now + s.lifetime.toNat ↔ s.client.will.willDelayInterval ≤ s.lifetime := by
    rw [hexpiry, UInt32.le_iff_toNat_le]
    omega
  have hretains : ∀ cl, (b.session cl).retains pk = s.retains (s.willMessage env) := by
    intro cl
    have hflag : pk.fixedHeader.retain = (s.willMessage env).fixedHeader.retain := congrArg (·.2.2.2.1) hcontent
    unfold Session.retains
    rw [hflag, hignore]
    show (_ && !(decide (b.server.caps.retainAvailable = 0) || _)) = _
    rw [hcaps]
    rfl
  -- the messages retained by both are compared by whether there is one
  have hsame : (b.retainedDelayed s.client.id pk).map Packet.content =
      (s.retainedFrom (s.willMessage env)).map Packet.content ↔
        (s.retains (s.willMessage env) = true → b.get s.client.id ≠ none) := by
    unfold retainedDelayed Session.retainedFrom
    cases hget : b.get s.client.id with
    | none => cases s.retains (s.willMessage env) <;> simp
    | some found =>
      obtain ⟨c, cl⟩ := found
      dsimp only
      rw [hretains cl]
      cases s.retains (s.willMessage env) <;> simp [hcopy]
  constructor
  · intro h
    obtain ⟨late, early, hlate, hearly, heq⟩ := h.retained
    cases List.append_cancel_left (hretained.symm.trans hlate)
    cases List.append_cancel_left (hkept.symm.trans hearly)
    exact ⟨hsame.mp heq, htime.mp h.inTime⟩
  · intro h
    refine ⟨⟨_, _, hretained, hkept, hsame.mpr h.1⟩, ⟨_, _, hforwarded, honce, hcontent⟩, ?_, ?_, htime.mpr h.2⟩
    · intro t ht
      exact if_neg (not_lt.mpr ht)
    · unfold sendDelayed
      rw [if_pos hdue]
      exact AList.lookup_erase _ _

/-- A CONNECT of client `c` whose will has to be retained, ten seconds after its connection has ended. -/
def retainingConnect (p : Properties) : Packet :=
  { willConnect with
    properties := p
    connect := { willConnect.connect with willRetain := true, willProperties := { willDelayInterval := 10 } } }

def opened (p : Properties) : Broker := ({} : Broker).attach (.accepting 100) [] (retainingConnect p) .accept

def holder (p : Properties) : Session := (opened p).session ((opened p).connections.headD {})

def deserted (p : Properties) : Broker := (opened p).detach (.accepting 100) 0 (some .connectionClosed)

/-- A session that lives for a minute has its will sent and retained after ten seconds. -/
theorem sameEffect_of_minute :
    ∃ pk, (deserted willConnect.properties).server.willDelayed.lookup [99] = some pk ∧
      SameEffect (.accepting 100) (holder willConnect.properties) (deserted willConnect.properties) 111 pk := by
  have hexpiry : ((deserted willConnect.properties).server.willDelayed.lookup [99]).map Packet.expiry = some 110 := by
    decide +kernel
  have hsame : (deserted willConnect.properties).server.willDelayed.lookup [99] =
      ((holder willConnect.properties).sendLWT (.accepting 100)).server.willDelayed.lookup
        (holder willConnect.properties).client.id := rfl
  obtain ⟨pk, hpk, heq⟩ := Option.map_eq_some_iff.mp hexpiry
  have hcaps : (deserted willConnect.properties).server.caps = (holder willConnect.properties).server.caps := rfl
  refine ⟨pk, hpk, (sameEffect_iff (by decide +kernel) (by decide +kernel) (hsame.symm.trans hpk) (by omega) hcaps).mpr
    ⟨fun _ => ?_, by decide +kernel⟩⟩
  have hfound : ((deserted willConnect.properties).get (holder willConnect.properties).client.id).isSome = true := by
    decide +kernel
  exact Option.isSome_iff_ne_none.mp hfound

/-- A session that ends with its connection has the will sent ten seconds later and not retained. -/
theorem desert_not_retained :
    ∃ pk, (deserted {}).server.willDelayed.lookup [99] = some pk ∧ pk.expiry = 110 ∧ (holder {}).lifetime = 0 ∧
      (deserted {}).get [99] = none ∧
      ((deserted {}).sendDelayed 111 [99] pk).log.filterMap retainedOf = [] ∧
      (((holder {}).sendAtOnce (.accepting 100)).log.filterMap retainedOf).map Packet.topicName = [[97]] ∧
      ¬ SameEffect (.accepting 100) (holder {}) (deserted {}) 111 pk := by
  have hexpiry : ((deserted {}).server.willDelayed.lookup [99]).map Packet.expiry = some 110 := by decide +kernel
  have hlifetime : (holder {}).lifetime = 0 := by decide +kernel
  have hgone : (deserted {}).get [99] = none := Option.isNone_iff_eq_none.mp (by decide +kernel)
  obtain ⟨pk, hpk, heq⟩ := Option.map_eq_some_iff.mp hexpiry
  have hlate : ((deserted {}).sendDelayed 111 [99] pk).log.filterMap retainedOf = [] := by
    have hlog : ((deserted {}).log.filterMap retainedOf).length = 0 := by decide +kernel
    rw [(log_sendDelayed (by omega)).2, List.eq_nil_of_length_eq_zero hlog]
    unfold retainedDelayed
    rw [hgone]
    rfl
  refine ⟨pk, hpk, heq, hlifetime, hgone, hlate, by decide +kernel, fun h => ?_⟩
  have hdue := h.inTime
  rw [heq, hlifetime] at hdue
  exact absurd hdue (by decide)

end Broker
end Mqtt
