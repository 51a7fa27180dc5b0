import MqttBroker.Broker.State
import MqttBroker.Session.Subscribing

/-! The subscriptions of a server as its clients see them: what UNSUBSCRIBE
reports, and the counter of subscriptions, over any requests of any clients. -/

namespace Mqtt
open FiniteMap
namespace Broker
open Session

inductive Request where
  | subscribe (pk : Packet)
  | unsubscribe (pk : Packet)

namespace Request

def run (env : Env) (s : Session) : Request → Session
  | .subscribe pk => (s.processSubscribe env pk).2
  | .unsubscribe pk => (s.processUnsubscribe env pk).2

def Step (b : Broker) (call : Env × Nat × Request) (b' : Broker) : Prop :=
  b' = b.on call.2.1 (run call.1 · call.2.2)

/-- Every filter of an UNSUBSCRIBE is held by its client, or nothing is kept at its path and below it,
and no two of its filters have one address. -/
def Justified (b : Broker) (call : Env × Nat × Request) : Prop :=
  match call with
  | (_, _, .subscribe _) => True
  | (env, c, .unsubscribe pk) => ∀ cl, b.connections[c]? = some cl → (b.session cl).requestCode pk = .success →
      Session.Justified b.server.topics cl.id (env.onUnsubscribe pk).filters

end Request

variable {b b' : Broker}

theorem counted_on {f : Session → Session} {c : Nat} (h : Counted b.server)
    (hf : ∀ cl, b.connections[c]? = some cl → Counted (f (b.session cl)).server) : Counted (b.on c f).server := by
  unfold Broker.on
  split
  · exact h
  · rename_i cl hcl
    exact hf cl hcl

theorem counted_step (call : Env × Nat × Request) (h : Counted b.server) (hj : Request.Justified b call)
    (hstep : Request.Step b call b') : Counted b'.server := by
  obtain ⟨env, c, request⟩ := call
  rw [hstep]
  refine counted_on h fun cl hcl => ?_
  have hsession : Counted (b.session cl).server := h
  cases request with
  | subscribe pk => exact hsession.processSubscribe
  | unsubscribe pk => exact hsession.processUnsubscribe fun hcode => hj cl hcl hcode

/-- In every run whose UNSUBSCRIBE packets name filters that are held or lead nowhere, the counter is
the number of subscriptions in the index, and the next such packet is answered truthfully: before
each of its filters, `Unsubscribe` reports whether the client holds it, and so does the reason code. -/
theorem unsubscribe_truthful_of_justified (hb : Counted b.server)
    (hr : Runs.Reach Request.Step Request.Justified b b') :
    b'.server.info.subscriptions = b'.server.topics.numSubscriptions ∧
      ∀ env c pk cl, b'.connections[c]? = some cl → (b'.session cl).requestCode pk = .success →
        Request.Justified b' (env, c, .unsubscribe pk) →
        ∀ before sub after, (env.onUnsubscribe pk).filters = before ++ sub :: after →
          let x := (unsubscribeFilters .success (b'.session cl) before).2.server.topics
          (x.unsubscribe sub.filter cl.id).1 = (x.held (address sub.filter) cl.id).isSome ∧
            (unsubscribeFilters .success (b'.session cl) (before ++ sub :: after)).1[before.length]? =
              some (if (x.held (address sub.filter) cl.id).isSome then Code.success.code
                else Code.noSubscriptionExisted.code) := by
  have hcounted : Counted b'.server := hr.invariant hb fun h hj hstep => counted_step _ h hj hstep
  refine ⟨hcounted.counter, ?_⟩
  intro env c pk cl hcl hcode hj before sub after hfilters x
  have hall := hj cl hcl hcode
  rw [hfilters] at hall
  obtain ⟨hbefore, hrest, hid⟩ := Counted.unsubscribeFilters before (sub :: after) (b'.session cl) hcounted hall
  have hreport : (x.unsubscribe sub.filter cl.id).1 = (x.held (address sub.filter) cl.id).isSome :=
    TopicsIndex.unsubscribe_fst hbefore.trimmed (hrest.held sub List.mem_cons_self)
  refine ⟨hreport, ?_⟩
  rw [unsubscribeFilters_append, List.getElem?_append_right (by rw [length_unsubscribeFilters]),
    length_unsubscribeFilters, Nat.sub_self, unsubscribeFilters_cons]
  show some (unsubscribeReason (x.unsubscribe sub.filter
    (unsubscribeFilters .success (b'.session cl) before).2.client.id).1) = _
  rw [hid, show (b'.session cl).client.id = cl.id from rfl, hreport]
  rfl

/-! ### Two clients -/

def twoClients : Broker := { connections := [{ id := [97] }, { id := [98] }] }

def topicA : Subscription := { filter := [97], retainHandling := 2 }

def subscribedA : Broker :=
  twoClients.on 0 (Request.run (.accepting 0) · (.subscribe
    { fixedHeader := { type := .subscribe }, packetID := 1, filters := [topicA] }))

def unsubscribedB : Broker :=
  subscribedA.on 1 (Request.run (.accepting 0) · (.unsubscribe
    { fixedHeader := { type := .unsubscribe }, packetID := 1, filters := [topicA] }))

theorem counted_twoClients : Counted twoClients.server := ⟨Trie.trimmed_leaf _, by decide +kernel⟩

/-- Client `a` takes its subscription back and is told so. -/
theorem unsubscribe_truthful_of_subscriber :
    subscribedA.server.info.subscriptions = subscribedA.server.topics.numSubscriptions ∧
      (subscribedA.server.topics.unsubscribe [97] [97]).1 = true := by
  have hreach : Runs.Reach Request.Step Request.Justified twoClients subscribedA :=
    .next (i := (.accepting 0, 0, .subscribe _)) .refl trivial rfl
  have hjustified : Request.Justified subscribedA (.accepting 0, 0, .unsubscribe { filters := [topicA] }) := by
    intro cl hcl _
    have hid : some cl.id = some [97] := congrArg (Option.map Client.id) hcl.symm
    rw [Option.some.inj hid]
    refine ⟨List.nodup_singleton _, fun sub hsub => .inl ?_⟩
    rw [List.mem_singleton.mp hsub]
    decide +kernel
  obtain ⟨hcounter, htruthful⟩ := unsubscribe_truthful_of_justified counted_twoClients hreach
  have hreport := (htruthful (.accepting 0) 0 { filters := [topicA] } _ rfl rfl hjustified [] topicA [] rfl).1
  refine ⟨hcounter, hreport.trans ?_⟩
  decide +kernel

/-- Client `b` holds no subscription. Its UNSUBSCRIBE is answered with success because there is a
particle for client `a`, and the counter goes to 0 while the index holds one subscription. -/
theorem unsubscribe_reports_other_client :
    subscribedA.server.topics.held (address [97]) [98] = none ∧
      (subscribedA.server.topics.unsubscribe [97] [98]).1 = true ∧
      Event.wrote { requestAck { packetID := 1 } .unsuback .success [Code.success.code] with
        protocolVersion := 4, mods := { allowResponseInfo := true } } [] ∈ unsubscribedB.log ∧
      unsubscribedB.server.info.subscriptions = 0 ∧ unsubscribedB.server.topics.numSubscriptions = 1 := by
  decide +kernel

end Broker
end Mqtt
