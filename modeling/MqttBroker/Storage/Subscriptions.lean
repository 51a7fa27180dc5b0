import MqttBroker.Broker.State
import MqttBroker.Topics.Count

/-! The subscriptions in a key-value store. The storage hooks write a record for
each filter of a SUBSCRIBE and delete one for each filter of an UNSUBSCRIBE, under
a key made of the client id and the filter. `loadSubscriptions` subscribes the
clients again from the records. -/

namespace Mqtt
open FiniteMap
namespace Storage

/-! ### Records and keys -/

inductive Backend where
  | badger
  | bolt
  | pebble
  | redis

structure StoredSubscription where
  t : Bytes
  id : Bytes
  client : Bytes
  filter : Bytes
  identifier : Int
  retainHandling : UInt8
  qos : UInt8
  retainAsPublished : Bool
  noLocal : Bool

abbrev Store := Map Bytes StoredSubscription

/-- `SUB`, the tag of subscriptions. -/
def subscriptionTag : Bytes := [83, 85, 66]

/-- Client id and filter with a colon between them; the file stores put the tag and an underscore
before them, where redis has a hash for each tag. -/
def subscriptionKey (backend : Backend) (client filter : Bytes) : Bytes :=
  match backend with
  | .redis => client ++ 58 :: filter
  | _ => subscriptionTag ++ 95 :: (client ++ 58 :: filter)

variable {client filter : Bytes} {sub : Subscription}

theorem subscriptionKey_filter {backend : Backend} {f g : Bytes}
    (h : subscriptionKey backend client f = subscriptionKey backend client g) : f = g := by
  have hcolon : client ++ 58 :: f = client ++ 58 :: g := by
    cases backend with
    | redis => exact h
    | badger | bolt | pebble => exact List.cons.inj (List.append_cancel_left h) |>.2
  exact (List.cons.inj (List.append_cancel_left hcolon)).2

/-! ### Hooks -/

def toStored (backend : Backend) (client : Bytes) (sub : Subscription) (reason : UInt8) : StoredSubscription :=
  { t := subscriptionTag
    id := subscriptionKey backend client sub.filter
    client := client
    filter := sub.filter
    identifier := sub.identifier
    retainHandling := sub.retainHandling
    qos := reason
    retainAsPublished := sub.retainAsPublished
    noLocal := sub.noLocal }

/-- One turn of the loop of `OnSubscribed`. -/
def store (backend : Backend) (client : Bytes) (db : Store) (sub : Subscription) (reason : UInt8) : Store :=
  db.insert (subscriptionKey backend client sub.filter) (toStored backend client sub reason)

def onSubscribed (backend : Backend) (client : Bytes) (db : Store) (filters : List Subscription)
    (reasonCodes : Bytes) : Store :=
  (filters.zip reasonCodes).foldl (fun db f => store backend client db f.1 f.2) db

def onUnsubscribed (backend : Backend) (client : Bytes) (db : Store) (filters : List Subscription) : Store :=
  filters.foldl (fun db sub => db.erase (subscriptionKey backend client sub.filter)) db

def notify (backend : Backend) (client : Bytes) (db : Store) : Event → Store
  | .subscribed pk reasonCodes => onSubscribed backend client db pk.filters reasonCodes
  | .unsubscribed pk => onUnsubscribed backend client db pk.filters
  | _ => db

/-! ### Loading -/

def StoredSubscription.restore (sub : StoredSubscription) : Subscription :=
  { filter := sub.filter
    retainHandling := sub.retainHandling
    qos := sub.qos
    retainAsPublished := sub.retainAsPublished
    noLocal := sub.noLocal
    identifier := sub.identifier }

def loadSubscription (b : Broker) (sub : StoredSubscription) : Broker :=
  let (isNew, topics) := b.server.topics.subscribe sub.client sub.restore
  let b := { b with server := { b.server with topics := topics } }
  if isNew then
    match b.get sub.client with
    | none => b
    | some (c, cl) =>
      let cl := { cl with subscriptions := cl.subscriptions.insert sub.filter sub.restore }
      { b with connections := b.connections.set c cl }
  else b

def loadSubscriptions (b : Broker) (v : List StoredSubscription) : Broker := v.foldl loadSubscription b

theorem topics_loadSubscription (b : Broker) (sub : StoredSubscription) :
    (loadSubscription b sub).server.topics = (b.server.topics.subscribe sub.client sub.restore).2 := by
  unfold loadSubscription
  dsimp only
  split
  · split
    · rfl
    · rfl
  · rfl

def heldFilter (x : TopicsIndex) (a : Address) (client : Bytes) : Option Bytes :=
  (x.held a client).map Subscription.filter

theorem heldFilter_subscribe (x : TopicsIndex) (client : Bytes) (sub : Subscription) (a : Address) (client' : Bytes) :
    heldFilter (x.subscribe client sub).2 a client' =
      if a = address sub.filter ∧ client' = client then some sub.filter else heldFilter x a client' := by
  unfold heldFilter
  rw [TopicsIndex.held_subscribe]
  split <;> rfl

theorem heldFilter_unsubscribe (x : TopicsIndex) (filter client : Bytes) (a : Address) (client' : Bytes) :
    heldFilter (x.unsubscribe filter client).2 a client' =
      if a = address filter ∧ client' = client then none else heldFilter x a client' := by
  unfold heldFilter
  rw [TopicsIndex.held_unsubscribe]
  split <;> rfl

theorem heldFilter_loadSubscriptions {x : TopicsIndex} (v : List StoredSubscription) : ∀ b : Broker,
    (∀ r ∈ v, heldFilter x (address r.filter) r.client = some r.filter) → ∀ a client,
    ((∃ r ∈ v, a = address r.filter ∧ client = r.client) →
        heldFilter (loadSubscriptions b v).server.topics a client = heldFilter x a client) ∧
      ((∀ r ∈ v, ¬(a = address r.filter ∧ client = r.client)) →
        heldFilter (loadSubscriptions b v).server.topics a client = heldFilter b.server.topics a client) := by
  induction v with
  | nil => exact fun b _ a client => ⟨fun ⟨r, hr, _⟩ => absurd hr List.not_mem_nil, fun _ => rfl⟩
  | cons r v ih =>
    intro b hx a client
    obtain ⟨hsome, hnone⟩ := ih (loadSubscription b r) (fun r' hr' => hx r' (List.mem_cons_of_mem _ hr')) a client
    have hr : heldFilter (loadSubscription b r).server.topics a client =
        if a = address r.filter ∧ client = r.client then some r.filter else heldFilter b.server.topics a client := by
      rw [topics_loadSubscription, heldFilter_subscribe]
      rfl
    refine ⟨?_, ?_⟩
    · rintro ⟨r', hr', hmatch⟩
      by_cases hlater : ∃ r' ∈ v, a = address r'.filter ∧ client = r'.client
      · exact hsome hlater
      · have hkeep := hnone fun r' hr' h => hlater ⟨r', hr', h⟩
        -- no record after `r` is of this client and address, so `r` is the one given
        have hhead : a = address r.filter ∧ client = r.client := by
          rcases List.mem_cons.mp hr' with rfl | hr'
          · exact hmatch
          · exact absurd ⟨r', hr', hmatch⟩ hlater
        refine hkeep.trans ?_
        rw [hr, if_pos hhead, hhead.1, hhead.2]
        exact (hx r List.mem_cons_self).symm
    · intro hmiss
      refine (hnone fun r' hr' => hmiss r' (List.mem_cons_of_mem _ hr')).trans ?_
      rw [hr, if_neg (hmiss r List.mem_cons_self)]

/-! ### Store and index -/

structure Mirrors (backend : Backend) (x : TopicsIndex) (db : Store) : Prop where
  addressed : ∀ a client f, heldFilter x a client = some f → a = address f
  held : ∀ k r, db.lookup k = some r →
    k = subscriptionKey backend r.client r.filter ∧ heldFilter x (address r.filter) r.client = some r.filter
  stored : ∀ client f, heldFilter x (address f) client = some f →
    ∃ r, db.lookup (subscriptionKey backend client f) = some r ∧ r.client = client ∧ r.filter = f

variable {backend : Backend} {x : TopicsIndex} {db : Store}

theorem Mirrors.load (h : Mirrors backend x db) {v : List StoredSubscription} (hv : v.Perm (values db)) {b : Broker}
    (hb : ∀ a client, b.server.topics.held a client = none) (a : Address) (client : Bytes) :
    heldFilter (loadSubscriptions b v).server.topics a client = heldFilter x a client := by
  have hrecords : ∀ r ∈ v, heldFilter x (address r.filter) r.client = some r.filter := by
    intro r hr
    obtain ⟨k, hk⟩ := mem_values_iff.mp (hv.subset hr)
    exact (h.held k r hk).2
  obtain ⟨hsome, hnone⟩ := heldFilter_loadSubscriptions v b hrecords a client
  cases hx : heldFilter x a client with
  | none =>
    refine (hnone ?_).trans (congrArg _ (hb a client))
    rintro r hr ⟨rfl, rfl⟩
    cases hx.symm.trans (hrecords r hr)
  | some f =>
    obtain rfl := h.addressed a client f hx
    obtain ⟨r, hr, rfl, rfl⟩ := h.stored client f hx
    refine (hsome ⟨r, ?_, rfl, rfl⟩).trans hx
    exact hv.symm.subset (mem_values_iff.mpr ⟨_, hr⟩)

theorem mirrors_empty (backend : Backend) (hx : ∀ a client, x.held a client = none) : Mirrors backend x ∅ := by
  have hnone : ∀ a client, heldFilter x a client = none := fun a client => congrArg _ (hx a client)
  refine ⟨?_, ?_, ?_⟩
  · intro a client f h
    cases (hnone a client).symm.trans h
  · intro k r h
    cases h
  · intro client f h
    cases (hnone _ client).symm.trans h

/-- No other client has a subscription with the key of a filter, and the client has no other filter at
its address. -/
structure Apart (backend : Backend) (x : TopicsIndex) (client filter : Bytes) : Prop where
  key : ∀ a client' f, heldFilter x a client' = some f →
    subscriptionKey backend client' f = subscriptionKey backend client filter → client' = client
  address : ∀ f, heldFilter x (address filter) client = some f → f = filter

theorem Apart.filter_eq (h : Apart backend x client filter) {a : Address} {client' f : Bytes}
    (hf : heldFilter x a client' = some f)
    (hkey : subscriptionKey backend client' f = subscriptionKey backend client filter) :
    client' = client ∧ f = filter := by
  obtain rfl := h.key a client' f hf hkey
  exact ⟨rfl, subscriptionKey_filter hkey⟩

theorem Mirrors.subscribe (h : Mirrors backend x db)
    (hapart : Apart backend x client sub.filter) (reason : UInt8) :
    Mirrors backend (x.subscribe client sub).2 (store backend client db sub reason) := by
  refine ⟨?_, ?_, ?_⟩
  · intro a client' f hf
    rw [heldFilter_subscribe] at hf
    split at hf
    · rename_i heq
      rw [heq.1, Option.some.inj hf]
    · exact h.addressed a client' f hf
  · intro k r hk
    unfold store at hk
    rw [lookup_insert_eq] at hk
    rw [heldFilter_subscribe]
    split at hk
    · rename_i heq
      obtain rfl := Option.some.inj hk
      exact ⟨heq, if_pos ⟨rfl, rfl⟩⟩
    · obtain ⟨hkey, hheld⟩ := h.held k r hk
      refine ⟨hkey, ?_⟩
      split
      · rename_i heq
        have hsame := hapart.address r.filter (by rw [← heq.1, ← heq.2]; exact hheld)
        rw [hsame]
      · exact hheld
  · intro client' f hf
    unfold store
    rw [lookup_insert_eq]
    rw [heldFilter_subscribe] at hf
    split at hf
    · rename_i heq
      have hfilter : sub.filter = f := Option.some.inj hf
      rw [if_pos (by rw [heq.2, hfilter])]
      exact ⟨_, rfl, heq.2.symm, hfilter⟩
    · rename_i hne
      rw [if_neg]
      · exact h.stored client' f hf
      · intro hkey
        obtain ⟨rfl, rfl⟩ := hapart.filter_eq hf hkey
        exact hne ⟨rfl, rfl⟩

theorem Mirrors.congr {y : TopicsIndex} (h : Mirrors backend y db) (hxy : heldFilter y = heldFilter x) :
    Mirrors backend x db := by
  obtain ⟨haddressed, hheld, hstored⟩ := h
  rw [hxy] at haddressed hheld hstored
  exact ⟨haddressed, hheld, hstored⟩

theorem Mirrors.store (h : Mirrors backend x db)
    (hapart : Apart backend x client sub.filter) (hheld : heldFilter x (address sub.filter) client = some sub.filter)
    (reason : UInt8) : Mirrors backend x (store backend client db sub reason) := by
  refine (h.subscribe hapart reason).congr (funext₂ fun a client' => ?_)
  rw [heldFilter_subscribe]
  split
  · rename_i heq
    rw [heq.1, heq.2, hheld]
  · rfl

theorem Mirrors.unsubscribe (h : Mirrors backend x db)
    (hapart : Apart backend x client filter) :
    Mirrors backend (x.unsubscribe filter client).2 (db.erase (subscriptionKey backend client filter)) := by
  refine ⟨?_, ?_, ?_⟩
  · intro a client' f hf
    rw [heldFilter_unsubscribe] at hf
    split at hf
    · cases hf
    · exact h.addressed a client' f hf
  · intro k r hk
    rw [lookup_erase_eq] at hk
    split at hk
    · cases hk
    · rename_i hne
      obtain ⟨hkey, hheld⟩ := h.held k r hk
      refine ⟨hkey, ?_⟩
      rw [heldFilter_unsubscribe, if_neg]
      · exact hheld
      · rintro ⟨haddress, hclient⟩
        have hsame := hapart.address r.filter (by rw [← haddress, ← hclient]; exact hheld)
        exact hne (by rw [hkey, hclient, hsame])
  · intro client' f hf
    rw [heldFilter_unsubscribe] at hf
    split at hf
    · cases hf
    · rename_i hne
      rw [lookup_erase_eq, if_neg]
      · exact h.stored client' f hf
      · intro hkey
        obtain ⟨rfl, rfl⟩ := hapart.filter_eq hf hkey
        exact hne ⟨rfl, rfl⟩

theorem Mirrors.erase (h : Mirrors backend x db) (hapart : Apart backend x client filter)
    (hnone : heldFilter x (address filter) client = none) :
    Mirrors backend x (db.erase (subscriptionKey backend client filter)) := by
  refine (h.unsubscribe hapart).congr (funext₂ fun a client' => ?_)
  rw [heldFilter_unsubscribe]
  split
  · rename_i heq
    rw [heq.1, heq.2, hnone]
  · rfl

end Storage
end Mqtt
