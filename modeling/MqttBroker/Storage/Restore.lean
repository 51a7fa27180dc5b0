import MqttBroker.Broker.Counting
import MqttBroker.Storage.Subscriptions

/-! A server with a storage hook. Over any requests of any clients the store
mirrors the index as long as every filter it is told of is one the index was told
of, and no two subscriptions share a key or an address; then a restart brings the
same subscriptions back. -/

namespace Mqtt
open FiniteMap
namespace Storage
open Session

variable {backend : Backend} {x : TopicsIndex} {db : Store} {env : Env} {s : Session}

/-! ### The filters of a request -/

def accepts (env : Env) (client : Bytes) (code : Code) (sub : Subscription) : Bool :=
  code = .success && isValidFilter sub.filter false && !(sub.noLocal && isSharedFilter sub.filter) &&
    env.onACLCheck client sub.filter false

theorem subscribeFilter_session (env : Env) (s : Session) (code : Code) (sub : Subscription) :
    (s.subscribeFilter env code sub).2.2 =
      if accepts env s.client.id code sub then (s.addSubscription sub).2 else s := by
  unfold subscribeFilter accepts
  dsimp only
  by_cases hcode : code = .success
  · rw [if_neg (not_not.mpr hcode)]
    cases isValidFilter sub.filter false with
    | false => simp
    | true =>
      cases sub.noLocal && isSharedFilter sub.filter with
      | true => simp
      | false =>
        cases env.onACLCheck s.client.id sub.filter false with
        | false => simp
        | true => simp [hcode]
  · rw [if_pos hcode]
    simp [hcode]

/-- The filters share no key with another client and no address with another filter of the client. -/
structure Separated (backend : Backend) (x : TopicsIndex) (client : Bytes) (filters : List Subscription) : Prop where
  apart : ∀ sub ∈ filters, Apart backend x client sub.filter
  distinct : ∀ sub ∈ filters, ∀ sub' ∈ filters, address sub.filter = address sub'.filter → sub.filter = sub'.filter

variable {client : Bytes} {sub : Subscription} {subs : List Subscription}

theorem Separated.tail
    (h : Separated backend x client (sub :: subs)) : Separated backend x client subs :=
  ⟨fun sub' hsub' => h.apart sub' (List.mem_cons_of_mem _ hsub'), fun sub' hsub' sub'' hsub'' =>
    h.distinct sub' (List.mem_cons_of_mem _ hsub') sub'' (List.mem_cons_of_mem _ hsub'')⟩

theorem Separated.subscribe
    (h : Separated backend x client (sub :: subs)) : Separated backend (x.subscribe client sub).2 client subs := by
  refine ⟨fun sub' hsub' => ⟨?_, ?_⟩, h.tail.distinct⟩
  · intro a client' f hf hkey
    rw [heldFilter_subscribe] at hf
    split at hf
    · rename_i heq
      exact heq.2
    · exact (h.tail.apart sub' hsub').key a client' f hf hkey
  · intro f hf
    rw [heldFilter_subscribe] at hf
    split at hf
    · rename_i heq
      rw [← Option.some.inj hf]
      exact h.distinct sub List.mem_cons_self sub' (List.mem_cons_of_mem _ hsub') heq.1.symm
    · exact (h.tail.apart sub' hsub').address f hf

theorem Separated.unsubscribe
    (h : Separated backend x client (sub :: subs)) :
    Separated backend (x.unsubscribe sub.filter client).2 client subs := by
  refine ⟨fun sub' hsub' => ⟨?_, ?_⟩, h.tail.distinct⟩
  · intro a client' f hf hkey
    rw [heldFilter_unsubscribe] at hf
    split at hf
    · cases hf
    · exact (h.tail.apart sub' hsub').key a client' f hf hkey
  · intro f hf
    rw [heldFilter_unsubscribe] at hf
    split at hf
    · cases hf
    · exact (h.tail.apart sub' hsub').address f hf

theorem mirrors_subscribeFilters (env : Env) (code : Code) (subs : List Subscription) : ∀ (s : Session) (db : Store),
    Mirrors backend s.server.topics db → Separated backend s.server.topics s.client.id subs →
    (∀ sub ∈ subs, accepts env s.client.id code sub = true ∨
      heldFilter s.server.topics (address sub.filter) s.client.id = some sub.filter) →
    Mirrors backend (subscribeFilters env code s subs).2.server.topics
      (onSubscribed backend s.client.id db subs ((subscribeFilters env code s subs).1.map fun r => r.2.1)) := by
  induction subs with
  | nil => exact fun s db h _ _ => h
  | cons sub subs ih =>
    intro s db h hsep hknown
    have hsession := subscribeFilter_session env s code sub
    rw [subscribeFilters_cons]
    by_cases haccepts : accepts env s.client.id code sub = true
    · rw [if_pos haccepts] at hsession
      rw [hsession]
      refine ih (s.addSubscription sub).2 _ (h.subscribe (hsep.apart sub List.mem_cons_self) _) hsep.subscribe ?_
      intro sub' hsub'
      refine (hknown sub' (List.mem_cons_of_mem _ hsub')).imp (fun hp => hp) fun hheld => ?_
      show heldFilter (s.server.topics.subscribe s.client.id sub).2 _ s.client.id = _
      rw [heldFilter_subscribe]
      split
      · rename_i heq
        rw [hsep.distinct sub List.mem_cons_self sub' (List.mem_cons_of_mem _ hsub') heq.1.symm]
      · exact hheld
    · rw [if_neg haccepts] at hsession
      rw [hsession]
      have hheld := (hknown sub List.mem_cons_self).resolve_left haccepts
      exact ih s _ (h.store (hsep.apart sub List.mem_cons_self) hheld _) hsep.tail
        fun sub' hsub' => hknown sub' (List.mem_cons_of_mem _ hsub')

theorem mirrors_unsubscribeFilters (subs : List Subscription) : ∀ (s : Session) (db : Store),
    Mirrors backend s.server.topics db → Separated backend s.server.topics s.client.id subs →
    Mirrors backend (unsubscribeFilters .success s subs).2.server.topics
      (onUnsubscribed backend s.client.id db subs) := by
  induction subs with
  | nil => exact fun s db h _ => h
  | cons sub subs ih =>
    intro s db h hsep
    rw [unsubscribeFilters_cons]
    exact ih (s.removeSubscription sub.filter).2 _ (h.unsubscribe (hsep.apart sub List.mem_cons_self)) hsep.unsubscribe

theorem mirrors_onUnsubscribed (subs : List Subscription) : ∀ db : Store, Mirrors backend x db →
    Separated backend x client subs → (∀ sub ∈ subs, heldFilter x (address sub.filter) client = none) →
    Mirrors backend x (onUnsubscribed backend client db subs) := by
  induction subs with
  | nil => exact fun db h _ _ => h
  | cons sub subs ih =>
    intro db h hsep hnone
    have hmissing := hnone sub List.mem_cons_self
    exact ih _ (h.erase (hsep.apart sub List.mem_cons_self) hmissing) hsep.tail
      fun sub' hsub' => hnone sub' (List.mem_cons_of_mem _ hsub')

/-! ### Requests -/

structure Persisted where
  broker : Broker := {}
  db : Store := ∅

def Persisted.request (backend : Backend) (p : Persisted) (env : Env) (c : Nat) (request : Broker.Request) :
    Persisted :=
  match p.broker.connections[c]? with
  | none => p
  | some cl =>
    let b := p.broker.on c (Broker.Request.run env · request)
    { broker := b, db := (b.log.drop p.broker.log.length).foldl (notify backend cl.id) p.db }

def Persisted.Step (backend : Backend) (p : Persisted) (call : Env × Nat × Broker.Request) (p' : Persisted) : Prop :=
  p' = p.request backend call.1 call.2.1 call.2.2

/-- The filters share no key and no address with other subscriptions. Those of a SUBSCRIBE are accepted,
or the client holds them; those of an UNSUBSCRIBE whose packet id is in use are not held by the client. -/
def Persistable (backend : Backend) (p : Persisted) (call : Env × Nat × Broker.Request) : Prop :=
  ∀ cl, p.broker.connections[call.2.1]? = some cl →
    match call with
    | (env, _, .subscribe pk) =>
      Separated backend p.broker.server.topics cl.id (env.onSubscribe pk).filters ∧
        ∀ sub ∈ (env.onSubscribe pk).filters,
          accepts env cl.id ((p.broker.session cl).requestCode (env.onSubscribe pk)) sub = true ∨
            heldFilter p.broker.server.topics (address sub.filter) cl.id = some sub.filter
    | (env, _, .unsubscribe pk) =>
      Separated backend p.broker.server.topics cl.id (env.onUnsubscribe pk).filters ∧
        ((p.broker.session cl).requestCode pk ≠ .success → ∀ sub ∈ (env.onUnsubscribe pk).filters,
          heldFilter p.broker.server.topics (address sub.filter) cl.id = none)

theorem foldl_notify (backend : Backend) (client : Bytes) (db : Store) (e : Event) {es : List Event}
    (hes : ∀ e ∈ es, ofDelivery e = true) :
    (e :: es).foldl (notify backend client) db = notify backend client db e := by
  rw [List.foldl_cons]
  refine List.foldlRecOn (motive := fun d => d = notify backend client db e) _ _ rfl fun d hd e' he' => ?_
  have hdelivery := hes e' he'
  rw [hd]
  cases e' <;> first | rfl | cases hdelivery

theorem notify_of_delivers (backend : Backend) (client : Bytes) (db : Store) {s u t : Session} {e : Event}
    (hlog : u.log = s.log) (h : Delivers (u.emit e) t) :
    (t.log.drop s.log.length).foldl (notify backend client) db = notify backend client db e ∧
      t.server.topics = u.server.topics := by
  obtain ⟨_, _, _, _, _, es, -, hes, rfl⟩ := h
  refine ⟨?_, rfl⟩
  show ((u.log ++ [e] ++ es).drop s.log.length).foldl (notify backend client) db = _
  rw [hlog, List.append_assoc, List.drop_left]
  exact foldl_notify backend client db e hes

theorem subscribeFilters_log (env : Env) (code : Code) (s : Session) (subs : List Subscription) :
    (subscribeFilters env code s subs).2.log = s.log :=
  subscribeFilters_invariant (fun t => t.log = s.log) env code subs (fun _ _ _ h _ => h) s rfl

theorem unsubscribeFilters_log (code : Code) (subs : List Subscription) : ∀ s : Session,
    (unsubscribeFilters code s subs).2.log = s.log := by
  induction subs with
  | nil => exact fun s => rfl
  | cons sub subs ih =>
    intro s
    by_cases hcode : code = .success
    · rw [hcode] at ih ⊢
      rw [unsubscribeFilters_cons]
      exact ih _
    · rw [unsubscribeFilters_refused hcode]

theorem mirrors_request {p : Persisted} (h : Mirrors backend p.broker.server.topics p.db)
    (call : Env × Nat × Broker.Request) (hcall : Persistable backend p call) :
    Mirrors backend (p.request backend call.1 call.2.1 call.2.2).broker.server.topics
      (p.request backend call.1 call.2.1 call.2.2).db := by
  obtain ⟨env, c, request⟩ := call
  unfold Persisted.request
  dsimp only
  split
  · exact h
  · rename_i cl hcl
    have hon := hcall cl hcl
    unfold Broker.on
    rw [hcl]
    cases request with
    | subscribe pk =>
      obtain ⟨hsep, hknown⟩ := hon
      have hlog := subscribeFilters_log env ((p.broker.session cl).requestCode (env.onSubscribe pk))
        (p.broker.session cl) (env.onSubscribe pk).filters
      obtain ⟨hdb, htopics⟩ := notify_of_delivers backend cl.id p.db hlog
        (delivers_processSubscribe env (p.broker.session cl) pk)
      have hloop := mirrors_subscribeFilters env _ _ (p.broker.session cl) p.db h hsep hknown
      show Mirrors backend ((p.broker.session cl).processSubscribe env pk).2.server.topics
        ((((p.broker.session cl).processSubscribe env pk).2.log.drop p.broker.log.length).foldl _ p.db)
      rw [htopics]
      exact hdb ▸ hloop
    | unsubscribe pk =>
      obtain ⟨hsep, hfree⟩ := hon
      have hlog := unsubscribeFilters_log ((p.broker.session cl).requestCode pk) (env.onUnsubscribe pk).filters
        (p.broker.session cl)
      obtain ⟨hdb, htopics⟩ := notify_of_delivers (t := ((p.broker.session cl).processUnsubscribe env pk).2)
        (e := .unsubscribed (env.onUnsubscribe pk)) backend cl.id p.db hlog delivers_writePacket
      show Mirrors backend ((p.broker.session cl).processUnsubscribe env pk).2.server.topics
        ((((p.broker.session cl).processUnsubscribe env pk).2.log.drop p.broker.log.length).foldl _ p.db)
      rw [htopics]
      refine hdb ▸ ?_
      by_cases hcode : (p.broker.session cl).requestCode pk = .success
      · rw [hcode]
        exact mirrors_unsubscribeFilters _ (p.broker.session cl) p.db h hsep
      · rw [unsubscribeFilters_refused hcode]
        exact mirrors_onUnsubscribed _ p.db h hsep (hfree hcode)

/-- In every run from an index and a store that hold nothing, in which every filter told to the hook is
one told to the index and no two subscriptions share a key or an address, the records of the store, in
any order, bring back exactly the filters the index holds for each client. -/
theorem restored_of_persistable {p p' : Persisted} (hx : ∀ a client, p.broker.server.topics.held a client = none)
    (hdb : p.db = ∅) (hr : Runs.Reach (Persisted.Step backend) (Persistable backend) p p')
    {v : List StoredSubscription} (hv : v.Perm (values p'.db)) {b : Broker}
    (hb : ∀ a client, b.server.topics.held a client = none) (a : Address) (client : Bytes) :
    heldFilter (loadSubscriptions b v).server.topics a client = heldFilter p'.broker.server.topics a client := by
  have hstart : Mirrors backend p.broker.server.topics p.db := hdb ▸ mirrors_empty backend hx
  have hstep : ∀ {q q' : Persisted} {call}, Mirrors backend q.broker.server.topics q.db →
      Persistable backend q call → Persisted.Step backend q call q' →
      Mirrors backend q'.broker.server.topics q'.db := by
    intro q q' call hq hcall hnext
    rw [hnext]
    exact mirrors_request hq call hcall
  have hend : Mirrors backend p'.broker.server.topics p'.db := hr.invariant hstart hstep
  exact hend.load hv hb a client

/-! ### One subscription -/

def subscribeTopicA : Broker.Request := .subscribe { packetID := 1, filters := [Broker.topicA] }

def denying : Env := { Env.accepting 0 with onACLCheck := fun _ _ _ => false }

def requestedA (env : Env) : Persisted :=
  Persisted.request .pebble { broker := Broker.twoClients } env 0 subscribeTopicA

theorem held_twoClients (a : Address) (client : Bytes) : Broker.twoClients.server.topics.held a client = none :=
  TopicsIndex.held_new a client

/-- After an accepted SUBSCRIBE a restart brings the subscription back. -/
theorem restored_of_subscribe :
    heldFilter (loadSubscriptions {} (values (requestedA (.accepting 0)).db)).server.topics (address [97]) [97] =
        some [97] ∧
      heldFilter (requestedA (.accepting 0)).broker.server.topics (address [97]) [97] = some [97] := by
  have hvacant : ∀ a client, heldFilter Broker.twoClients.server.topics a client = none :=
    fun a client => congrArg _ (held_twoClients a client)
  have hok : Persistable .pebble { broker := Broker.twoClients } (.accepting 0, 0, subscribeTopicA) := by
    rintro cl ⟨⟩
    refine ⟨⟨fun sub _ => ⟨fun a client f hf => ?_, fun f hf => ?_⟩, fun sub hsub sub' hsub' _ => ?_⟩,
      by decide +kernel⟩
    · cases (hvacant a client).symm.trans hf
    · cases (hvacant _ _).symm.trans hf
    · rw [List.mem_singleton.mp hsub, List.mem_singleton.mp hsub']
  have hreach : Runs.Reach (Persisted.Step .pebble) (Persistable .pebble) { broker := Broker.twoClients }
      (requestedA (.accepting 0)) := .next (i := (.accepting 0, 0, subscribeTopicA)) .refl hok rfl
  have hheld : heldFilter (requestedA (.accepting 0)).broker.server.topics (address [97]) [97] = some [97] := by
    decide +kernel
  have hrestored := @restored_of_persistable .pebble { broker := Broker.twoClients } (requestedA (.accepting 0))
    held_twoClients rfl hreach (values (requestedA (.accepting 0)).db) (.refl _) {} TopicsIndex.held_new (address [97])
    [97]
  exact ⟨hrestored.trans hheld, hheld⟩

/-- The subscription is denied, the index does not hold it, and a restart brings it. -/
theorem denied_subscription_restored :
    heldFilter (requestedA denying).broker.server.topics (address [97]) [97] = none ∧
      heldFilter (loadSubscriptions {} (values (requestedA denying).db)).server.topics (address [97]) [97] =
        some [97] := by
  decide +kernel

end Storage
end Mqtt
