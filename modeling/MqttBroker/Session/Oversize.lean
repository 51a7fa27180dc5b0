import MqttBroker.Session.Connect
import MqttBroker.Session.Expiry
import MqttBroker.Wire.Encode

/-! Messages that are too large for the client. `WritePacket` refuses them, and neither of
its two callers discards them: the write loop ignores the error, and
`resumeDeferredPublishes` parks the message again and returns the error. -/

namespace Mqtt
open FiniteMap

namespace Inflight

def Stores (f : Inflight) (m : Packet) : Prop := ∃ e, f.get m.packetID = some e ∧ { e with expiry := m.expiry } = m

/-- The entries without the one under an id, whose unit of send quota is returned if it had one. -/
def discard (f : Inflight) (id : UInt16) : Inflight :=
  match f.get id with
  | none => f
  | some e => if e.holdsQuota then (f.remove id).increaseSendQuota.2 else f.remove id

def Without (f : Inflight) (m : Packet) (g : Inflight) : Prop :=
  f.Stores m ∧ g = f.discard m.packetID ∨ ¬ f.Stores m ∧ g = f

end Inflight

namespace Session
open Inflight

variable {env : Env} {s t : Session} {m : Packet}

def TooLarge (env : Env) (s : Session) (pk : Packet) : Prop :=
  s.client.closed = false ∧ s.client.conn = true ∧
    writeError env s.log (s.outgoing env pk) = some (.code .packetTooLarge)

/-- A message is refused as too large: by the write loop, which has taken it from the queue, or in a turn of the
loop of `resumeDeferredPublishes`, which has taken it from the deferred ones. -/
inductive Refusal (env : Env) (s : Session) : Packet → Session → Prop
  | writeLoop {q : Queued} {rest : List Queued} (hqueue : s.client.queue = q :: rest)
      (hlarge : TooLarge env s q.packet) : Refusal env s q.packet (s.writeNext env)
  | resume {m : Packet} {err : Option Error} {t : Session} (hquota : 0 < s.client.inflight.sendQuota)
      (htake : (s.client.inflight.takeNextImmediate env.order).1 = some m) (hlarge : TooLarge env s m)
      (hturn : resumeTurn env s = .stop err t) : Refusal env s m t

/-- The message is no longer in the inflight map, its unit of send quota is available again, and the next packet of
the client is handled as if the message were not there. -/
structure Discarded (s t : Session) (m : Packet) : Prop where
  gone : ¬ t.client.inflight.Stores m
  quota : ∀ g, s.client.inflight.Without m g → t.client.inflight.sendQuota = g.sendQuota
  next : ∀ g, s.client.inflight.Without m g → ∀ env pk, let u := t.onInflight fun _ => g
    ((t.receivePacket env pk).1 ≠ none → (u.receivePacket env pk).1 ≠ none) ∧
      ((t.receivePacket env pk).2.client.closed = true → (u.receivePacket env pk).2.client.closed = true)

/-! ### The two callers -/

theorem writeNext_inflight (h : s.client.queue ≠ []) : (s.writeNext env).client.inflight = s.client.inflight := by
  obtain ⟨q, rest, hqueue⟩ := List.exists_cons_of_ne_nil h
  unfold writeNext
  rw [hqueue]
  dsimp only
  rw [writePacketOn_client]

variable {err : Error}

theorem sendDeferred_error_iff : sendDeferred env s m = .stop (some err) t ↔
    (s.client.closed = false ∧ s.client.conn = true ∧ writeError env s.log (s.outgoing env m) = some err) ∧
      t = (s.emit (.writeFailed (s.outgoing env m) err)).deferAgain m := by
  unfold sendDeferred writePacket writePacketOn
  cases s.client.closed with
  | true => simp
  | false =>
    cases s.client.conn with
    | false => simp
    | true =>
      cases writeError env s.log (s.outgoing env m) with
      | none => simp
      | some err' =>
        constructor
        · intro h
          cases h
          exact ⟨⟨rfl, rfl, rfl⟩, rfl⟩
        · rintro ⟨⟨-, -, h⟩, rfl⟩
          cases h
          rfl

theorem resumeTurn_tooLarge (hquota : 0 < s.client.inflight.sendQuota)
    (htake : (s.client.inflight.takeNextImmediate env.order).1 = some m) (hlarge : TooLarge env s m) :
    ∃ t, resumeTurn env s = .stop (some (.code .packetTooLarge)) t ∧ s.client.inflight.Stores m ∧
      ∀ id, t.client.inflight.get id = s.client.inflight.get id := by
  obtain ⟨htaken, -⟩ | ⟨pk, hpk, hdef, -, htaken⟩ := s.client.inflight.takeNextImmediate_cases env.order
  · rw [htaken] at htake
    cases htake
  · have hturn := resumeTurn_of_take hquota htaken
    rw [htaken] at htake
    obtain rfl := Option.some.inj htake
    exact ⟨_, hturn.trans (sendDeferred_error_iff.mpr ⟨hlarge, rfl⟩), ⟨pk, hpk, rfl⟩, get_parked_again hpk hdef rfl⟩

theorem Refusal.get (h : Refusal env s m t) (id : UInt16) : t.client.inflight.get id = s.client.inflight.get id := by
  cases h with
  | writeLoop hqueue hlarge =>
    rw [writeNext_inflight]
    rw [hqueue]
    exact List.cons_ne_nil _ _
  | resume hquota htake hlarge hturn =>
    obtain ⟨t', hturn', -, hget⟩ := resumeTurn_tooLarge hquota htake hlarge
    rw [hturn] at hturn'
    cases hturn'
    exact hget id

theorem Refusal.stores_iff (h : Refusal env s m t) : t.client.inflight.Stores m ↔ s.client.inflight.Stores m := by
  unfold Inflight.Stores
  rw [h.get]

/-- A message that is too large is discarded only if it already was. -/
theorem discarded_iff {env : Env} {s t : Session} {m : Packet} (h : Refusal env s m t) :
    Discarded s t m ↔ ¬ s.client.inflight.Stores m := by
  constructor
  · intro hdiscarded
    rw [← h.stores_iff]
    exact hdiscarded.gone
  · intro hnone
    cases h with
    | @writeLoop q rest hqueue hlarge =>
      have hinflight : (s.writeNext env).client.inflight = s.client.inflight :=
        writeNext_inflight (by rw [hqueue]; exact List.cons_ne_nil q rest)
      have hwithout : ∀ g, s.client.inflight.Without q.packet g → g = (s.writeNext env).client.inflight := by
        rintro g (⟨hstores, -⟩ | ⟨-, rfl⟩)
        · exact absurd hstores hnone
        · exact hinflight.symm
      refine ⟨?_, fun g hg => ?_, fun g hg env' pk => ?_⟩
      · rw [hinflight]
        exact hnone
      · rw [hwithout g hg]
      · have hsame : ((s.writeNext env).onInflight fun _ => g) = s.writeNext env := onInflight_of_eq (hwithout g hg)
        dsimp only
        rw [hsame]
        exact ⟨id, id⟩
    | resume hquota htake hlarge hturn =>
      -- a message that is resumed is one of the entries
      obtain ⟨-, -, hstores, -⟩ := resumeTurn_tooLarge hquota htake hlarge
      exact absurd hstores hnone

/-- An environment in which every hook accepts and every packet can be written that is not too large. -/
def sized : Env := { Env.accepting 0 with encode := fun pk => pk.encode.map List.length }

def sixteenBytes : Packet :=
  { packetID := 1, protocolVersion := 5, fixedHeader := { type := .publish, qos := 1 }, topicName := [97]
    payload := [0, 1, 2, 3, 4, 5, 6, 7] }

def tenBytes (inflight : Inflight) (queue : List Queued) : Session :=
  { client :=
      { protocolVersion := 5, inflight := inflight, queue := queue
        props := { maximumPacketSize := 10 } } }

theorem tooLarge_sixteenBytes (inflight : Inflight) (queue : List Queued) :
    TooLarge sized (tenBytes inflight queue) sixteenBytes := by
  have herr : writeError sized [] ((tenBytes .new []).outgoing sized sixteenBytes) = some (.code .packetTooLarge) := by
    decide +kernel
  exact ⟨rfl, rfl, herr⟩

theorem refusal_queued (inflight : Inflight) :
    Refusal sized (tenBytes inflight [⟨sixteenBytes, [97]⟩]) sixteenBytes
      ((tenBytes inflight [⟨sixteenBytes, [97]⟩]).writeNext sized) :=
  .writeLoop (q := ⟨sixteenBytes, [97]⟩) rfl (tooLarge_sixteenBytes _ _)

/-- A message that the client has acknowledged before the write loop takes it from the queue is discarded. -/
theorem discarded_acknowledged : Discarded (tenBytes .new [⟨sixteenBytes, [97]⟩])
    ((tenBytes .new [⟨sixteenBytes, [97]⟩]).writeNext sized) sixteenBytes := by
  refine (discarded_iff (refusal_queued .new)).mpr ?_
  rintro ⟨e, he, -⟩
  have hnone : Inflight.get .new 1 = none := rfl
  have hsome : none = some e := hnone.symm.trans he
  cases hsome

def withQueued : Session :=
  tenBytes ({ Inflight.new with maximumSendQuota := 1 }.put sixteenBytes) [⟨sixteenBytes, [97]⟩]

def withParked : Session :=
  tenBytes ({ Inflight.new with maximumSendQuota := 1, sendQuota := 1 }.put
    { sixteenBytes with expiry := inflightExpiryDeferred }) []

def ping : Packet := { protocolVersion := 5, fixedHeader := { type := .pingreq } }

/-- The write loop leaves the message there and its unit of send quota taken. If the message is parked, the client is
disconnected with the error when it sends a PINGREQ, and the message is still parked. -/
theorem tooLarge_not_discarded :
    (Refusal sized withQueued sixteenBytes (withQueued.writeNext sized) ∧
      (withQueued.writeNext sized).client.inflight.Stores sixteenBytes ∧
      (withQueued.writeNext sized).client.inflight.sendQuota = 0 ∧
      (withQueued.client.inflight.discard 1).sendQuota = 1) ∧
    ((∃ t, Refusal sized withParked sixteenBytes t) ∧
      (withParked.receivePacket sized ping).1 = some (.code .packetTooLarge) ∧
      (withParked.receivePacket sized ping).2.client.closed = true ∧
      ((withParked.receivePacket sized ping).2.client.inflight.get 1).isSome = true ∧
      ((withParked.onInflight fun f => f.discard 1).receivePacket sized ping).1 = none ∧
      ((withParked.onInflight fun f => f.discard 1).receivePacket sized ping).2.client.closed = false) := by
  obtain ⟨t, hturn, -⟩ := resumeTurn_tooLarge (s := withParked) (m := sixteenBytes) (by decide) rfl
    (tooLarge_sixteenBytes _ _)
  refine ⟨⟨refusal_queued _, ?_, ?_, ?_⟩, ⟨t, .resume (by decide) rfl (tooLarge_sixteenBytes _ _) hturn⟩, ?_⟩
  · rw [writeNext_inflight (List.cons_ne_nil _ _)]
    exact ⟨sixteenBytes, rfl, rfl⟩
  · rw [writeNext_inflight (List.cons_ne_nil _ _)]
    rfl
  · rfl
  · decide +kernel

end Session
end Mqtt
