import MqttBroker.Broker.State
import MqttBroker.Topics.ShareGroups

/-! A published message on its way to all subscribers: the subscriptions that match it,
the choice among shared ones, and the loop that offers it to each client. -/

namespace Mqtt
open FiniteMap
namespace Broker

/-- What `publishToSubscribers` leaves open: the orders of its loops over maps, and the hook that selects among
shared subscriptions. -/
structure Selection where
  orders : Orders
  loop : Iteration Unit Bytes Subscription
  onSelectSubscribers : Subscribers → Packet → Subscribers

def Selection.choose (x : Selection) (subscribers : Subscribers) (pk : Packet) : Subscribers :=
  if 0 < size subscribers.shared then
    let subscribers := x.onSelectSubscribers subscribers pk
    (if size subscribers.sharedSelected = 0 then subscribers.selectShared x.orders else subscribers).mergeSharedSelected
      x.orders
  else subscribers

def stamped (env : Env) (b : Broker) (pk : Packet) : Packet :=
  let pk := if pk.created = 0 then { pk with created := env.now } else pk
  let expiry := minimum b.server.caps.maximumMessageExpiryInterval pk.properties.messageExpiryInterval.toNat
  if pk.expiry = 0 ∧ 0 < expiry then { pk with expiry := pk.created + expiry } else pk

def subscribersOf (env : Env) (x : Selection) (b : Broker) (pk : Packet) : Subscribers :=
  x.choose (b.server.topics.subscribersIn x.orders pk.topicName) (b.stamped env pk)

def deliverTo (env : Env) (pk : Packet) (b : Broker) (e : Σ _ : Bytes, Subscription) : Broker :=
  match b.get e.1 with
  | none => b
  | some (c, _) => b.on c fun s => (s.publishToClient env e.2 pk).2

def publishToSubscribers (env : Env) (x : Selection) (b : Broker) (pk : Packet) :
    List (InlineSubscription × Packet) × Broker :=
  if pk.ignore then ([], b)
  else
    let subscribers := b.subscribersOf env x pk
    (subscribers.inlineSubscriptions.entries.map fun e => (e.2, b.stamped env pk),
      (x.loop.order () subscribers.subscriptions).foldl (deliverTo env (b.stamped env pk)) b)

def Registered (b : Broker) : Prop :=
  ∀ id c, b.clients.lookup id = some c → ∃ cl, b.connections[c]? = some cl ∧ cl.id = id

variable {env : Env} {x : Selection} {b : Broker} {pk : Packet} {c : Nat} {cl : Client} {sub : Subscription}
  {l : List (Σ _ : Bytes, Subscription)} {o : Nat × Subscription}

def reading : List IndexCall :=
  [.subscribe [97] { filter := [116] }, .subscribe [98] { filter := [117] }, .subscribe [99] { filter := [116] },
    .subscribe [100] { filter := sharePrefix ++ [47, 103, 47, 116] },
    .subscribe [101] { filter := sharePrefix ++ [47, 103, 47, 116] }]

end Broker
end Mqtt
