import MqttBroker.Broker.State
import MqttBroker.Session.Gauge
import MqttBroker.Session.Subscribing

/-! The session of a client id moves from one connection to the next. The new
connection is left with the subscriptions and the inflight messages of the old one,
the old one with none, and neither the index nor the counters change. -/

namespace Mqtt
open FiniteMap
namespace Session

variable {env : Env} {s : Session} {pk : Packet}

structure Agrees (x : TopicsIndex) (cl : Client) : Prop where
  held : ∀ f sub, cl.subscriptions.lookup f = some sub → sub.filter = f ∧ x.held (address f) cl.id = some sub
  listed : ∀ a sub, x.held a cl.id = some sub → address sub.filter = a ∧ cl.subscriptions.lookup sub.filter = some sub

/-! ### Inflight messages -/

def unsettled (f : Inflight) : Nat :=
  count (fun pk => pk.expiry != inflightExpiryDeferred && pk.fixedHeader.qos > 0) f.internal

def sendMaximum (caps : Capabilities) (cl : Client) : UInt16 :=
  if cl.props.receiveMaximum = 0 then caps.receiveMaximum else cl.props.receiveMaximum

variable {f : Inflight}

theorem holding_of_unreserved (h : ∀ id m, f.get id = some m → m.expiry ≠ inflightExpiryReserved) :
    f.holding = unsettled f := by
  refine count_congr fun id m hm => ?_
  have hne : (m.expiry != inflightExpiryReserved) = true := bne_iff_ne.mpr (h id m hm)
  unfold Packet.holdsQuota
  rw [hne, Bool.and_true]

theorem inheritInflight_eq (caps : Capabilities) (f : Inflight) (cl : Client) :
    inheritInflight caps f cl =
      if 0 < f.len then
        let g := f.clone.reconcileSendQuotaCap (sendMaximum caps cl).toNat
        if g.maximumReceiveQuota = 0 ∧ caps.receiveMaximum ≠ 0 then g.resetReceiveQuota caps.receiveMaximum.toNat
        else g
      else cl.inflight := rfl

theorem sendQuota_inheritInflight {caps : Capabilities} {cl : Client} (hlen : 0 < f.len)
    (hmax : 0 < sendMaximum caps cl) :
    (inheritInflight caps f cl).sendQuota = max 0 (((sendMaximum caps cl).toNat : Int) - f.holding) := by
  have hpos : ¬((sendMaximum caps cl).toNat : Int) ≤ 0 := by
    have hnat : 0 < (sendMaximum caps cl).toNat := UInt16.lt_iff_toNat_lt.mp hmax
    omega
  have hquota : (f.clone.reconcileSendQuotaCap (sendMaximum caps cl).toNat).sendQuota =
      max 0 (((sendMaximum caps cl).toNat : Int) - f.holding) := by
    unfold Inflight.reconcileSendQuotaCap
    rw [if_neg hpos]
    rfl
  rw [inheritInflight_eq, if_pos hlen]
  dsimp only
  split
  · exact hquota
  · exact hquota

end Session

/-! ### The takeover -/

namespace Broker
open Session

variable {env : Env} {b : Broker} {pk : Packet} {existing cl old new : Client} {c : Nat} {r : Bool × Broker}

structure Moved (b : Broker) (c : Nat) (existing cl : Client) (r : Bool × Broker) (old new : Client) : Prop where
  present : r.1 = true
  registered : r.2.get cl.id = some (b.connections.length, new)
  left : r.2.connections[c]? = some old
  subscriptions : ∀ f, new.subscriptions.lookup f = existing.subscriptions.lookup f
  index : ∀ a client, r.2.server.topics.held a client = b.server.topics.held a client
  subscriptionsCounted : r.2.server.info.subscriptions = b.server.info.subscriptions
  inflightCounted : r.2.server.info.inflight = b.server.info.inflight
  inflight : ∀ id, new.inflight.get id = existing.inflight.get id
  noInflight : ∀ id, old.inflight.get id = none
  noSubscriptions : old.subscriptions = ∅
  sendQuota : 0 < existing.inflight.len →
    new.inflight.sendQuota = max 0 (((sendMaximum b.server.caps cl).toNat : Int) - unsettled existing.inflight)

theorem inheritClientSession_of_continues {s : Session} (hagrees : Agrees s.server.topics s.client)
    (hid : s.client.id = cl.id) (hsubs : cl.subscriptions = ∅) (hcontinues : continues s.client pk = true) :
    ∃ old t, s.inheritClientSession env pk cl = (true, old, t) ∧ (∀ id, old.inflight.get id = none) ∧
      old.subscriptions = ∅ ∧ (∀ a client, t.server.topics.held a client = s.server.topics.held a client) ∧
      t.server.info = s.server.info ∧
      ∃ subscriptions, (∀ f, subscriptions.lookup f = s.client.subscriptions.lookup f) ∧
        t.client = { cl with
          inflight := inheritInflight s.server.caps s.client.inflight cl, subscriptions := subscriptions } := by
  have hquiet := quiet_disconnectClient env s .sessionTakenOver
  rw [inheritClientSession_eq]
  dsimp only
  generalize (s.disconnectClient env .sessionTakenOver).2 = u at hquiet
  obtain ⟨inflight, closed, stopCause, disconnected, info, es, -, hframe⟩ := hquiet.toFrame
  have hclient : u.client.subscriptions = s.client.subscriptions ∧ continues u.client pk = continues s.client pk := by
    rw [hframe]
    exact ⟨rfl, rfl⟩
  have hentry : ∀ e ∈ s.client.subscriptions.entries, e.2.filter = e.1 ∧
      s.server.topics.held (address e.2.filter) cl.id = some e.2 := by
    intro e he
    obtain ⟨hfilter, hindex⟩ := hagrees.held e.1 e.2 (AList.mem_lookup_iff.mpr he)
    exact ⟨hfilter, by rw [hfilter, ← hid, hindex]⟩
  obtain ⟨hnew, hheld, hinfo⟩ := foldl_addSubscription s.client.subscriptions.entries
    { u with client := { cl with inflight := inheritInflight s.server.caps s.client.inflight cl } }
  rw [hclient.2, hcontinues, hclient.1, hquiet.inflight]
  refine ⟨_, _, if_neg (by decide), get_resetInflights env _, rfl, ?_⟩
  rw [hquiet.server] at hheld hinfo hnew ⊢
  refine ⟨fun a client => ?_, hinfo fun e he => (hentry e he).2 ▸ rfl, _, fun f => ?_, hnew⟩
  · rcases hheld a client with ⟨rfl, e, he, rfl, hsome⟩ | ⟨-, hsame⟩
    · exact hsome.trans (hentry e he).2.symm
    · exact hsame
  · exact lookup_foldl_entries Subscription.filter (fun e he => (hentry e he).1) hsubs f

/-- A takeover that continues the session moves it as it is. -/
theorem inherit_moves_session (env : Env) (hexisting : b.get cl.id = some (c, existing)) (hid : existing.id = cl.id)
    (hagrees : Agrees b.server.topics existing)
    (hreserved : ∀ id m, existing.inflight.get id = some m → m.expiry ≠ inflightExpiryReserved)
    (hsubs : cl.subscriptions = ∅) (hinflight : ∀ id, cl.inflight.get id = none) (hstart : pk.connect.clean = false)
    (hclean : ¬(existing.clean = true ∧ existing.protocolVersion < 5)) (hmax : 0 < sendMaximum b.server.caps cl) :
    ∃ old new, Moved b c existing cl (b.inherit env pk cl) old new := by
  have hcontinues : continues existing pk = true := by
    unfold continues
    rw [hstart, Bool.false_or, Bool.not_eq_true', Bool.and_eq_false_iff, decide_eq_false_iff_not]
    cases hc : existing.clean with
    | false => exact .inl rfl
    | true => exact .inr fun hlt => hclean ⟨hc, hlt⟩
  obtain ⟨old, t, hinherit, hnone, hempty, hheld, hinfo, subscriptions, hsame, hnew⟩ :=
    @inheritClientSession_of_continues env pk cl (b.session existing) hagrees hid hsubs hcontinues
  have hconnection : b.connections[c]? = some existing := by
    unfold get at hexisting
    obtain ⟨c', -, hmap⟩ := Option.bind_eq_some_iff.mp hexisting
    obtain ⟨cl', hcl', heq⟩ := Option.map_eq_some_iff.mp hmap
    cases heq
    exact hcl'
  have hc : c < b.connections.length := (List.getElem?_eq_some_iff.mp hconnection).1
  have hafter : b.inherit env pk cl = (true,
      { connections := b.connections.set c old ++ [t.client]
        clients := b.clients.insert cl.id b.connections.length
        server := t.server
        log := t.log }) := by
    unfold inherit
    rw [hexisting]
    dsimp only
    rw [hinherit]
  rw [hafter]
  refine ⟨old, t.client, ?_⟩
  exact
    { present := rfl
      registered := by
        unfold get
        dsimp only
        rw [AList.lookup_insert, Option.bind_some, List.getElem?_append_right (by rw [List.length_set]),
          List.length_set, Nat.sub_self]
        rfl
      left := by
        dsimp only
        rw [List.getElem?_append_left (by rw [List.length_set]; exact hc), List.getElem?_set_self hc]
      subscriptions := by
        intro f
        rw [hnew]
        exact hsame f
      index := hheld
      subscriptionsCounted := congrArg Info.subscriptions hinfo
      inflightCounted := congrArg Info.inflight hinfo
      inflight := by
        intro id
        rw [hnew]
        exact get_inheritInflight _ _ hinflight id
      noInflight := hnone
      noSubscriptions := hempty
      sendQuota := by
        intro hlen
        rw [hnew, ← holding_of_unreserved hreserved]
        exact sendQuota_inheritInflight hlen hmax }

def soleSubscription : Subscription := { filter := [0x61], qos := 1 }

def settled : Client :=
  { id := [0x63]
    protocolVersion := 5
    subscriptions := (∅ : Map Bytes Subscription).insert [0x61] soleSubscription
    inflight := Inflight.new.put { packetID := 1, fixedHeader := { type := .publish, qos := 1 } } }

def settledBroker : Broker :=
  { connections := [settled]
    clients := (∅ : Map Bytes Nat).insert [0x63] 0
    server := { topics := (TopicsIndex.new.subscribe [0x63] soleSubscription).2 } }

theorem agrees_settled : Agrees settledBroker.server.topics settled := by
  have hheld : ∀ a, settledBroker.server.topics.held a settled.id =
      if a = address [0x61] ∧ settled.id = [0x63] then some soleSubscription else none := by
    intro a
    rw [← TopicsIndex.held_new a settled.id]
    exact TopicsIndex.held_subscribe .new [0x63] soleSubscription a settled.id
  refine ⟨fun f sub hlookup => ?_, fun a sub hsome => ?_⟩
  · change ((∅ : Map Bytes Subscription).insert [0x61] soleSubscription).lookup f = some sub at hlookup
    rw [lookup_insert_eq] at hlookup
    split at hlookup
    · rename_i hf
      cases hlookup
      rw [hheld, hf, if_pos ⟨rfl, rfl⟩]
      exact ⟨rfl, rfl⟩
    · cases hlookup
  · rw [hheld] at hsome
    split at hsome
    · rename_i ha
      cases hsome
      exact ⟨ha.1.symm, rfl⟩
    · cases hsome

/-- The connection that takes the session over has a send quota of 9 left. -/
theorem settled_moves : ∃ old new, Moved settledBroker 0 settled { id := [0x63], props := { receiveMaximum := 10 } }
    (settledBroker.inherit (.accepting 0) {} { id := [0x63], props := { receiveMaximum := 10 } }) old new ∧
    new.inflight.sendQuota = 9 := by
  have hreserved : ∀ id m, settled.inflight.get id = some m → m.expiry ≠ inflightExpiryReserved := by
    intro id m hm
    change (({} : Inflight).put { packetID := 1, fixedHeader := { type := .publish, qos := 1 } }).get id = some m at hm
    rw [Inflight.get_put] at hm
    split at hm
    · cases hm
      decide
    · cases hm
  obtain ⟨old, new, hmoved⟩ := @inherit_moves_session settledBroker {} settled
    { id := [0x63], props := { receiveMaximum := 10 } } 0 (.accepting 0) rfl rfl agrees_settled hreserved rfl
    (fun _ => rfl) rfl (by decide) (by decide)
  exact ⟨old, new, hmoved, hmoved.sendQuota (by decide)⟩

end Broker
end Mqtt
