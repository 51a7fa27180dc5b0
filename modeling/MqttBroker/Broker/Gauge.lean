import MqttBroker.Broker.State
import MqttBroker.Session.Gauge

/-! The gauge of inflight messages over the clients of a server: the handlers of
any connections, and sessions that move from one connection to another. -/

namespace Mqtt
open FiniteMap
namespace Broker
open Session

def counted (b : Broker) : Nat := (b.connections.map fun cl => cl.inflight.counted).sum

def gap (b : Broker) : Int := b.server.info.inflight - b.counted

variable {b b' : Broker} {env : Env}

theorem gap_on {f : Session → Session} {c : Nat}
    (hf : ∀ cl, b.connections[c]? = some cl → (f (b.session cl)).gap = (b.session cl).gap) :
    (b.on c f).gap = b.gap := by
  unfold Broker.on
  split
  · rfl
  · rename_i cl hcl
    have hgap := hf cl hcl
    have hsum := Runs.sum_map_set (fun cl : Client => cl.inflight.counted) b.connections (f (b.session cl)).client hcl
    unfold Session.gap at hgap
    unfold gap counted
    dsimp only
    have hentry : (b.session cl).client.inflight.counted = cl.inflight.counted := rfl
    have hinfo : (b.session cl).server.info.inflight = b.server.info.inflight := rfl
    omega

theorem counted_parse (b : Broker) (assigned : Bytes) (pk : Packet) : (b.parse assigned pk).inflight.counted = 0 :=
  rfl

theorem gap_inherit (pk : Packet) {cl : Client} (hcl : cl.inflight.counted = 0) :
    (b.inherit env pk cl).2.gap = b.gap := by
  unfold inherit
  split
  · unfold gap counted
    rw [List.map_append, List.sum_append, List.map_singleton, List.sum_singleton, hcl, Nat.add_zero]
  · rename_i c existing hget
    have hc := (get_eq_some_iff.mp hget).2
    have hgap := gap_inheritClientSession env (b.session existing) pk hcl
    generalize (b.session existing).inheritClientSession env pk cl = taken at hgap
    obtain ⟨present, existing', s⟩ := taken
    have hsum := Runs.sum_map_set (fun cl : Client => cl.inflight.counted) b.connections existing' hc
    unfold Session.gap at hgap
    unfold gap counted
    dsimp only at hgap ⊢
    rw [List.map_append, List.sum_append, List.map_singleton, List.sum_singleton]
    have hentry : (b.session existing).client.inflight.counted = existing.inflight.counted := rfl
    have hinfo : (b.session existing).server.info.inflight = b.server.info.inflight := rfl
    omega

/-! ### Runs -/

/-- What changes inflight messages: a handler on a connection, the loops over its entries, and a new
connection of a session. -/
inductive Upkeep where
  | handle (c : Nat) (call : HandlerCall)
  | resend (c : Nat)
  | clear (c : Nat)
  | takeover (assigned : Bytes) (pk : Packet)

namespace Upkeep

def run (env : Env) (b : Broker) : Upkeep → Broker
  | .handle c call => b.on c (call.run env)
  | .resend c => b.on c fun s => (s.resendInflightMessages env).2
  | .clear c => b.on c (·.clearInflights env)
  | .takeover assigned pk => (b.inherit env pk (b.parse assigned pk)).2

def Step (b : Broker) (upkeep : Env × Upkeep) (b' : Broker) : Prop := b' = upkeep.2.run upkeep.1 b

end Upkeep

/-- PUBREC, PUBREL and PUBCOMP are not for a reserved id, and no message or acknowledgement is stored
with the mark of a reservation. -/
def Counts (env : Env) (s : Session) : HandlerCall → Prop
  | .publishToClient _ pk => pk.expiry ≠ inflightExpiryReserved
  | .publish pk => Unmarked env s pk
  | .pubrec pk => Unreserved s pk.packetID ∧
      env.now + s.server.caps.maximumMessageExpiryInterval ≠ inflightExpiryReserved
  | .pubrel pk => Unreserved s pk.packetID ∧
      env.now + s.server.caps.maximumMessageExpiryInterval ≠ inflightExpiryReserved
  | .pubcomp pk => Unreserved s pk.packetID
  | _ => True

theorem gap_call {s : Session} {call : HandlerCall} (h : Counts env s call) : (call.run env s).gap = s.gap := by
  cases call with
  | publishToClient sub pk => exact gap_publishToClient h
  | publish pk => exact gap_processPublish h
  | puback pk => exact gap_processPuback s pk
  | pubrec pk => exact gap_processPubrec h.1 h.2
  | pubrel pk => exact gap_processPubrel h.1 h.2
  | pubcomp pk => exact gap_processPubcomp h
  | pingreq => exact gap_writePacket env s _
  | clearExpired now maximumExpiry => exact gap_clearExpiredInflights env s now maximumExpiry
  | resume => exact gap_resumeDeferredPublishes env s

def Upkeep.Counts (b : Broker) : Env × Upkeep → Prop
  | (env, .handle c call) => ∀ cl, b.connections[c]? = some cl → Broker.Counts env (b.session cl) call
  | _ => True

theorem gap_step {upkeep : Env × Upkeep} (h : Upkeep.Counts b upkeep) (hstep : Upkeep.Step b upkeep b') :
    b'.gap = b.gap := by
  obtain ⟨env, upkeep⟩ := upkeep
  rw [hstep]
  cases upkeep with
  | handle c call => exact gap_on fun cl hcl => gap_call (h cl hcl)
  | resend c => exact gap_on fun cl _ => gap_resendInflightMessages env (b.session cl)
  | clear c => exact gap_on fun cl _ => gap_clearInflights env (b.session cl)
  | takeover assigned pk => exact gap_inherit pk (counted_parse b assigned pk)

/-- In every run whose PUBREC, PUBREL and PUBCOMP meet no reserved id and whose messages do not carry
the mark of a reservation, the gauge changes as the number of entries that are not reserved does. -/
theorem gauge_exact_of_counts (hr : Runs.Reach Upkeep.Step Upkeep.Counts b b') :
    b'.server.info.inflight - b.server.info.inflight = (b'.counted : Int) - b.counted := by
  have hgap : b'.gap = b.gap := hr.constant gap fun h hstep => gap_step h hstep
  unfold gap at hgap
  omega

/-! ### One client -/

def oneClient : Broker := { connections := [twoUnits.client] }

def deliver : Upkeep := .handle 0 (.publishToClient { filter := [97], qos := 2 } message)

/-- The gauge and the map have the delivered message. -/
theorem gauge_exact_of_delivery :
    (deliver.run (.accepting 100) oneClient).server.info.inflight = 1 ∧
      (deliver.run (.accepting 100) oneClient).counted = 1 := by
  have hcounts : Upkeep.Counts oneClient (.accepting 100, deliver) := by
    intro cl _
    show message.expiry ≠ inflightExpiryReserved
    decide
  have hreach : Runs.Reach Upkeep.Step Upkeep.Counts oneClient (deliver.run (.accepting 100) oneClient) :=
    .next (i := (.accepting 100, deliver)) .refl hcounts rfl
  have hexact := gauge_exact_of_counts hreach
  have hcounted : (deliver.run (.accepting 100) oneClient).counted = 1 := by decide +kernel
  rw [hcounted] at hexact
  refine ⟨?_, hcounted⟩
  have hgauge : oneClient.server.info.inflight = 0 := rfl
  have hnone : oneClient.counted = 0 := by decide
  rw [hgauge, hnone] at hexact
  omega

def reservedOne : Broker := oneClient.on 0 fun s => (s.nextPacketID (.accepting 100) 0).2

/-- A PUBCOMP for the reserved id takes one from the gauge, where nothing was counted. -/
theorem gauge_negative_of_reserved :
    let b := (Upkeep.handle 0 (.pubcomp { packetID := 1 })).run (.accepting 100) reservedOne
    reservedOne.server.info.inflight = 0 ∧ reservedOne.counted = 0 ∧ b.server.info.inflight = -1 ∧ b.counted = 0 := by
  decide +kernel

end Broker
end Mqtt
