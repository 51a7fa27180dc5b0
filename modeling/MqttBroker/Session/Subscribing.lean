import MqttBroker.Session.Delivery
import MqttBroker.Topics.Count

/-! SUBSCRIBE and UNSUBSCRIBE as changes of the index. Each accepted filter is one
call of `Subscribe`, each filter of an UNSUBSCRIBE one call of `Unsubscribe`, and
the counter of subscriptions follows what these calls report. -/

namespace Mqtt
open FiniteMap
namespace Session

variable {env : Env} {s t : Session} {pk : Packet}

/-- Remove a filter of an UNSUBSCRIBE: what `Unsubscribe` reports, and the session after it. -/
def removeSubscription (s : Session) (filter : Bytes) : Bool × Session :=
  let (existed, topics) := s.server.topics.unsubscribe filter s.client.id
  let subscriptions := s.server.info.subscriptions - if existed then 1 else 0
  (existed,
    { s with
      server := { s.server with topics := topics, info := { s.server.info with subscriptions := subscriptions } }
      client := { s.client with subscriptions := s.client.subscriptions.erase filter } })

def unsubscribeReason (existed : Bool) : UInt8 :=
  if existed then Code.success.code else Code.noSubscriptionExisted.code

theorem unsubscribeFilters_cons (s : Session) (sub : Subscription) (subs : List Subscription) :
    unsubscribeFilters .success s (sub :: subs) =
      (unsubscribeReason (s.removeSubscription sub.filter).1 ::
          (unsubscribeFilters .success (s.removeSubscription sub.filter).2 subs).1,
        (unsubscribeFilters .success (s.removeSubscription sub.filter).2 subs).2) := rfl

theorem unsubscribeFilters_refused {code : Code} (h : code ≠ .success) (subs : List Subscription) :
    (unsubscribeFilters code s subs).2 = s := by
  induction subs with
  | nil => rfl
  | cons sub subs ih =>
    unfold unsubscribeFilters
    rw [if_pos h]
    exact ih

theorem subscribeFilter_cases (env : Env) (s : Session) (code : Code) (sub : Subscription) :
    (s.subscribeFilter env code sub).2.2 = s ∨
      isValidFilter sub.filter false = true ∧
        (s.subscribeFilter env code sub).2.2 = (s.addSubscription sub).2 := by
  unfold subscribeFilter
  dsimp only
  split
  · exact .inl rfl
  · split
    · exact .inl rfl
    · rename_i hvalid
      split
      · exact .inl rfl
      · split
        · exact .inl rfl
        · refine .inr ⟨?_, rfl⟩
          simpa using hvalid

variable {filter : Bytes} {sub : Subscription} {x : TopicsIndex} {subs : List Subscription}

theorem ne_nil_of_isValidFilter (h : isValidFilter filter false = true) : filter ≠ [] := by
  rintro rfl
  cases h

theorem subscribeFilters_cons (env : Env) (code : Code) (s : Session) (sub : Subscription) (subs : List Subscription) :
    subscribeFilters env code s (sub :: subs) =
      ((sub, (s.subscribeFilter env code sub).1, (s.subscribeFilter env code sub).2.1) ::
          (subscribeFilters env code (s.subscribeFilter env code sub).2.2 subs).1,
        (subscribeFilters env code (s.subscribeFilter env code sub).2.2 subs).2) := rfl

theorem subscribeFilters_invariant (Inv : Session → Prop) (env : Env) (code : Code) (subs : List Subscription)
    (hadd : ∀ s, ∀ sub ∈ subs, Inv s → isValidFilter sub.filter false = true → Inv (s.addSubscription sub).2) :
    ∀ s, Inv s → Inv (subscribeFilters env code s subs).2 := by
  induction subs with
  | nil => exact fun s h => h
  | cons sub subs ih =>
    intro s h
    rw [subscribeFilters_cons]
    refine ih (fun s sub' hsub' => hadd s sub' (List.mem_cons_of_mem _ hsub')) _ ?_
    obtain hsame | ⟨hvalid, hadded⟩ := subscribeFilter_cases env s code sub
    · rw [hsame]
      exact h
    · rw [hadded]
      exact hadd s sub List.mem_cons_self h hvalid

/-- `processSubscribe` up to the delivery of retained messages. -/
def answerSubscribe (env : Env) (s : Session) (pk : Packet) :
    List (Subscription × UInt8 × Bool) × Option Error × Session :=
  let pk := env.onSubscribe pk
  let code := s.requestCode pk
  let (results, s) := subscribeFilters env code s pk.filters
  let reasonCodes := results.map fun r => r.2.1
  (results, (s.emit (.subscribed pk reasonCodes)).writePacket env (requestAck pk .suback code reasonCodes))

theorem delivers_answerSubscribe : Delivers (s.answerSubscribe env pk).2.2 (s.processSubscribe env pk).2 := by
  have hdeliver : ∀ (results : List (Subscription × UInt8 × Bool)) (t : Session), Delivers t
      (results.foldl (fun s r =>
        if Code.unspecifiedError.code ≤ r.2.1 then s else s.publishRetainedToClient env r.1 r.2.2) t) := by
    intro results t
    refine List.foldlRecOn _ _ (.refl t) fun u hu r _ => ?_
    split
    · exact hu
    · exact hu.trans (delivers_publishRetainedToClient _)
  unfold processSubscribe answerSubscribe
  dsimp only
  split
  · rename_i hw
    rw [hw]
    exact .refl _
  · rename_i hw
    rw [hw]
    exact hdeliver _ _

theorem delivers_processSubscribe (env : Env) (s : Session) (pk : Packet) :
    let loop := subscribeFilters env (s.requestCode (env.onSubscribe pk)) s (env.onSubscribe pk).filters
    Delivers (loop.2.emit (.subscribed (env.onSubscribe pk) (loop.1.map fun r => r.2.1)))
      (s.processSubscribe env pk).2 := by
  intro loop
  have hwritten : Delivers (loop.2.emit (.subscribed (env.onSubscribe pk) (loop.1.map fun r => r.2.1)))
      (s.answerSubscribe env pk).2.2 := delivers_writePacket
  exact hwritten.trans delivers_answerSubscribe

theorem processSubscribe_invariant (Inv : Session → Prop) (env : Env) (pk : Packet)
    (hadd : ∀ s, ∀ sub ∈ (env.onSubscribe pk).filters, Inv s → isValidFilter sub.filter false = true →
      Inv (s.addSubscription sub).2)
    (hnotify : ∀ s pk codes, Inv s → Inv (s.emit (.subscribed pk codes)))
    (hdelivers : ∀ s t, Inv s → Delivers s t → Inv t) (h : Inv s) : Inv (s.processSubscribe env pk).2 := by
  have hfilters := subscribeFilters_invariant Inv env (s.requestCode (env.onSubscribe pk))
    (env.onSubscribe pk).filters hadd s h
  exact hdelivers _ _ (hnotify _ _ _ hfilters) (delivers_processSubscribe env s pk)

/-! ### The counter -/

/-- The counter is the number of subscriptions in the index, whose paths all lead to something. -/
structure Counted (server : Shared) : Prop where
  trimmed : server.topics.root.Trimmed Particle.isEmpty
  counter : server.info.subscriptions = server.topics.numSubscriptions

theorem Counted.delivers (h : Counted s.server) (hst : Delivers s t) : Counted t.server := by
  obtain ⟨_, _, _, _, info, _, hinfo, -, rfl⟩ := hst
  exact ⟨h.trimmed, hinfo.trans h.counter⟩

theorem Counted.addSubscription (h : Counted s.server) (hfilter : sub.filter ≠ []) :
    Counted (s.addSubscription sub).2.server := by
  have hnamed : (IndexCall.subscribe s.client.id sub).Named := hfilter
  refine ⟨IndexCall.trimmed_run hnamed h.trimmed, ?_⟩
  have hcount := s.server.topics.numSubscriptions_subscribe s.client.id sub
  have hnew : (s.server.topics.subscribe s.client.id sub).1 =
      (s.server.topics.held (address sub.filter) s.client.id).isNone := by
    rw [TopicsIndex.subscribe_eq]
  have hcounter := h.counter
  show s.server.info.subscriptions + (if (s.server.topics.subscribe s.client.id sub).1 then 1 else 0) =
    ((s.server.topics.subscribe s.client.id sub).2.numSubscriptions : Int)
  rw [hnew]
  cases hheld : s.server.topics.held (address sub.filter) s.client.id with
  | none =>
    rw [hheld] at hcount
    simp only [Option.isSome_none, Bool.toNat_false, Option.isNone_none, if_true] at hcount ⊢
    omega
  | some old =>
    rw [hheld] at hcount
    simp only [Option.isSome_some, Bool.toNat_true, Option.isNone_some, Bool.false_eq_true, if_false] at hcount ⊢
    omega

theorem Counted.processSubscribe (h : Counted s.server) : Counted (s.processSubscribe env pk).2.server :=
  processSubscribe_invariant (fun s => Counted s.server) env pk
    (fun _ _ _ h hvalid => h.addSubscription (ne_nil_of_isValidFilter hvalid)) (fun _ _ _ h => h)
    (fun _ _ h hst => h.delivers hst) h

/-! ### The client's own map -/

structure Owns (x : TopicsIndex) (cl : Client) : Prop where
  mirrors : ∀ a, (x.held a cl.id).isSome = true ↔ ∃ filter ∈ cl.subscriptions, address filter = a
  distinct : ∀ f ∈ cl.subscriptions, ∀ g ∈ cl.subscriptions, address f = address g → f = g
  keyed : ∀ f sub, cl.subscriptions.lookup f = some sub → sub.filter = f

def SpareOthers (id : Bytes) (x y : TopicsIndex) : Prop := ∀ a client, client ≠ id → y.held a client = x.held a client

theorem SpareOthers.trans {id : Bytes} {y z : TopicsIndex} (h : SpareOthers id x y) (h' : SpareOthers id y z) :
    SpareOthers id x z := fun a client hne => (h' a client hne).trans (h a client hne)

theorem spareOthers_addSubscription (s : Session) (sub : Subscription) :
    SpareOthers s.client.id s.server.topics (s.addSubscription sub).2.server.topics := by
  intro a client hne
  show (s.server.topics.subscribe s.client.id sub).2.held a client = _
  rw [TopicsIndex.held_subscribe, if_neg fun h => hne h.2]

theorem spareOthers_removeSubscription (s : Session) (filter : Bytes) :
    SpareOthers s.client.id s.server.topics (s.removeSubscription filter).2.server.topics := by
  intro a client hne
  show (s.server.topics.unsubscribe filter s.client.id).2.held a client = _
  rw [TopicsIndex.held_unsubscribe, if_neg fun h => hne h.2]

theorem Owns.addSubscription (h : Owns s.server.topics s.client)
    (hsub : ∀ f ∈ s.client.subscriptions, address f = address sub.filter → f = sub.filter) :
    Owns (s.addSubscription sub).2.server.topics (s.addSubscription sub).2.client := by
  have hmem : ∀ f, f ∈ s.client.subscriptions.insert sub.filter sub ↔ f = sub.filter ∨ f ∈ s.client.subscriptions :=
    fun f => AList.mem_insert _
  refine ⟨?_, ?_, ?_⟩
  · intro a
    show ((s.server.topics.subscribe s.client.id sub).2.held a s.client.id).isSome = true ↔
      ∃ filter ∈ s.client.subscriptions.insert sub.filter sub, address filter = a
    rw [TopicsIndex.held_subscribe]
    by_cases ha : a = address sub.filter
    · rw [if_pos ⟨ha, rfl⟩]
      exact iff_of_true rfl ⟨sub.filter, (hmem _).mpr (.inl rfl), ha.symm⟩
    · rw [if_neg fun h => ha h.1, h.mirrors]
      constructor
      · rintro ⟨f, hf, rfl⟩
        exact ⟨f, (hmem f).mpr (.inr hf), rfl⟩
      · rintro ⟨f, hf, rfl⟩
        refine ⟨f, ((hmem f).mp hf).resolve_left ?_, rfl⟩
        exact fun heq => ha (congrArg address heq)
  · intro f hf g hg haddress
    rcases (hmem f).mp hf with rfl | hf
    · rcases (hmem g).mp hg with rfl | hg
      · rfl
      · exact (hsub g hg haddress.symm).symm
    · rcases (hmem g).mp hg with rfl | hg
      · exact hsub f hf haddress
      · exact h.distinct f hf g hg haddress
  · intro f sub' hlookup
    change (s.client.subscriptions.insert sub.filter sub).lookup f = some sub' at hlookup
    rw [lookup_insert_eq] at hlookup
    split at hlookup
    · rename_i hf
      rw [hf, ← Option.some.inj hlookup]
    · exact h.keyed f sub' hlookup

theorem Owns.removeSubscription (h : Owns s.server.topics s.client)
    (hfilter : ∀ f ∈ s.client.subscriptions, address f = address filter → f = filter) :
    Owns (s.removeSubscription filter).2.server.topics (s.removeSubscription filter).2.client := by
  have hmem : ∀ f, f ∈ s.client.subscriptions.erase filter ↔ f ≠ filter ∧ f ∈ s.client.subscriptions :=
    fun f => AList.mem_erase
  refine ⟨?_, ?_, ?_⟩
  · intro a
    show ((s.server.topics.unsubscribe filter s.client.id).2.held a s.client.id).isSome = true ↔
      ∃ f ∈ s.client.subscriptions.erase filter, address f = a
    rw [TopicsIndex.held_unsubscribe]
    by_cases ha : a = address filter
    · rw [if_pos ⟨ha, rfl⟩]
      refine iff_of_false Bool.false_ne_true ?_
      rintro ⟨f, hf, hfa⟩
      obtain ⟨hne, hf⟩ := (hmem f).mp hf
      exact hne (hfilter f hf (hfa.trans ha))
    · rw [if_neg fun h => ha h.1, h.mirrors]
      constructor
      · rintro ⟨f, hf, rfl⟩
        exact ⟨f, (hmem f).mpr ⟨fun heq => ha (congrArg address heq), hf⟩, rfl⟩
      · rintro ⟨f, hf, rfl⟩
        exact ⟨f, ((hmem f).mp hf).2, rfl⟩
  · intro f hf g hg
    exact h.distinct f ((hmem f).mp hf).2 g ((hmem g).mp hg).2
  · intro f sub hlookup
    change (s.client.subscriptions.erase filter).lookup f = some sub at hlookup
    rw [lookup_erase_eq] at hlookup
    split at hlookup
    · cases hlookup
    · exact h.keyed f sub hlookup

/-! ### Reports of UNSUBSCRIBE -/

/-- The client holds each filter, or nothing is kept at its path and below it, and no two filters
have one address. -/
structure Justified (x : TopicsIndex) (client : Bytes) (filters : List Subscription) : Prop where
  distinct : (filters.map fun sub => address sub.filter).Nodup
  held : ∀ sub ∈ filters, (x.held (address sub.filter) client).isSome = true ∨ x.Vacant sub.filter

theorem Justified.tail {client : Bytes}
    (h : Justified x client (sub :: subs)) : Justified (x.unsubscribe sub.filter client).2 client subs := by
  have hdistinct := h.distinct
  rw [List.map_cons, List.nodup_cons] at hdistinct
  refine ⟨hdistinct.2, fun sub' hsub' => ?_⟩
  have hne : ¬ (address sub'.filter = address sub.filter ∧ client = client) := by
    rintro ⟨haddress, -⟩
    exact hdistinct.1 (haddress ▸ List.mem_map_of_mem hsub')
  rcases h.held sub' (List.mem_cons_of_mem _ hsub') with hheld | hvacant
  · rw [TopicsIndex.held_unsubscribe, if_neg hne]
    exact .inl hheld
  · exact .inr (hvacant.unsubscribe _ _)

theorem removeSubscription_fst (h : Counted s.server)
    (hj : Justified s.server.topics s.client.id (sub :: subs)) :
    (s.removeSubscription sub.filter).1 = (s.server.topics.held (address sub.filter) s.client.id).isSome :=
  TopicsIndex.unsubscribe_fst h.trimmed (hj.held sub List.mem_cons_self)

theorem Counted.removeSubscription (h : Counted s.server)
    (hj : Justified s.server.topics s.client.id (sub :: subs)) :
    Counted (s.removeSubscription sub.filter).2.server := by
  refine ⟨TopicsIndex.trimmed_unsubscribe _ h.trimmed _ _, ?_⟩
  have hcount := s.server.topics.numSubscriptions_unsubscribe sub.filter s.client.id
  have hreport := removeSubscription_fst h hj
  have hcounter := h.counter
  show s.server.info.subscriptions - (if (s.removeSubscription sub.filter).1 then 1 else 0) =
    ((s.server.topics.unsubscribe sub.filter s.client.id).2.numSubscriptions : Int)
  rw [hreport]
  cases hheld : s.server.topics.held (address sub.filter) s.client.id with
  | none =>
    rw [hheld] at hcount
    simp only [Option.isSome_none, Bool.toNat_false, Bool.false_eq_true, if_false] at hcount ⊢
    omega
  | some old =>
    rw [hheld] at hcount
    simp only [Option.isSome_some, Bool.toNat_true, if_true] at hcount ⊢
    omega

theorem Counted.unsubscribeFilters (before after : List Subscription) : ∀ s : Session, Counted s.server →
    Justified s.server.topics s.client.id (before ++ after) →
    Counted (unsubscribeFilters .success s before).2.server ∧
      Justified (unsubscribeFilters .success s before).2.server.topics s.client.id after ∧
      (unsubscribeFilters .success s before).2.client.id = s.client.id := by
  induction before with
  | nil => exact fun s h hj => ⟨h, hj, rfl⟩
  | cons sub subs ih =>
    intro s h hj
    rw [unsubscribeFilters_cons]
    exact ih (s.removeSubscription sub.filter).2 (h.removeSubscription hj) hj.tail

theorem unsubscribeFilters_append (before after : List Subscription) : ∀ s : Session,
    (unsubscribeFilters .success s (before ++ after)).1 =
      (unsubscribeFilters .success s before).1 ++
        (unsubscribeFilters .success (unsubscribeFilters .success s before).2 after).1 := by
  induction before with
  | nil => exact fun s => rfl
  | cons sub subs ih =>
    intro s
    rw [List.cons_append, unsubscribeFilters_cons, unsubscribeFilters_cons, List.cons_append]
    exact congrArg _ (ih _)

theorem length_unsubscribeFilters (subs : List Subscription) : ∀ s : Session,
    (unsubscribeFilters .success s subs).1.length = subs.length := by
  induction subs with
  | nil => exact fun s => rfl
  | cons sub subs ih =>
    intro s
    rw [unsubscribeFilters_cons, List.length_cons, List.length_cons, ih]

theorem Counted.processUnsubscribe (h : Counted s.server)
    (hj : s.requestCode pk = .success →
      Justified s.server.topics s.client.id (env.onUnsubscribe pk).filters) :
    Counted (s.processUnsubscribe env pk).2.server := by
  have hfilters : Counted
      (Session.unsubscribeFilters (s.requestCode pk) s (env.onUnsubscribe pk).filters).2.server := by
    by_cases hcode : s.requestCode pk = .success
    · rw [hcode]
      have hall := hj hcode
      rw [← List.append_nil (env.onUnsubscribe pk).filters] at hall
      exact (Counted.unsubscribeFilters _ [] s h hall).1
    · rw [unsubscribeFilters_refused hcode]
      exact h
  unfold Session.processUnsubscribe
  dsimp only
  rw [writePacket_server]
  exact hfilters

/-- The loop of `inheritClientSession` over subscriptions: the index and the client have the last one for each filter,
and what the index has already is not counted again. -/
theorem foldl_addSubscription (es : List (Σ _ : Bytes, Subscription)) : ∀ s : Session,
    let t := es.foldl (fun s e => (s.addSubscription e.2).2) s
    t.client = { s.client with
        subscriptions := es.foldl (fun m e => m.insert e.2.filter e.2) s.client.subscriptions } ∧
      (∀ a id, (id = s.client.id ∧ ∃ e ∈ es, address e.2.filter = a ∧ t.server.topics.held a id = some e.2) ∨
        (id = s.client.id → ∀ e ∈ es, address e.2.filter ≠ a) ∧
          t.server.topics.held a id = s.server.topics.held a id) ∧
      ((∀ e ∈ es, (s.server.topics.held (address e.2.filter) s.client.id).isSome = true) →
        t.server.info = s.server.info) := by
  induction es with
  | nil => exact fun s => ⟨rfl, fun _ _ => .inr ⟨fun _ _ h => absurd h List.not_mem_nil, rfl⟩, fun _ => rfl⟩
  | cons e es ih =>
    intro s
    have hadded : ∀ a id, (s.addSubscription e.2).2.server.topics.held a id =
        if a = address e.2.filter ∧ id = s.client.id then some e.2 else s.server.topics.held a id :=
      TopicsIndex.held_subscribe s.server.topics s.client.id e.2
    obtain ⟨hclient, hheld, hinfo⟩ := ih (s.addSubscription e.2).2
    refine ⟨hclient, fun a id => ?_, fun hes => ?_⟩
    · rcases hheld a id with ⟨hid, e', he', ha, hsome⟩ | ⟨hnone, hsame⟩
      · exact .inl ⟨hid, e', List.mem_cons_of_mem _ he', ha, hsome⟩
      · rw [hadded] at hsame
        by_cases hentry : a = address e.2.filter ∧ id = s.client.id
        · exact .inl ⟨hentry.2, e, List.mem_cons_self, hentry.1.symm, hsame.trans (if_pos hentry)⟩
        · refine .inr ⟨fun hid => List.forall_mem_cons.mpr ⟨fun ha => hentry ⟨ha.symm, hid⟩, hnone hid⟩, ?_⟩
          exact hsame.trans (if_neg hentry)
    · obtain ⟨hfirst, hrest⟩ := List.forall_mem_cons.mp hes
      have hnew : (s.server.topics.subscribe s.client.id e.2).1 = false := by
        rw [TopicsIndex.subscribe_eq]
        exact Option.isNone_eq_false_iff.mpr hfirst
      have hcounted : (s.addSubscription e.2).2.server.info = s.server.info := by
        unfold addSubscription
        dsimp only
        rw [hnew]
        simp
      refine (hinfo fun e' he' => ?_).trans hcounted
      show ((s.addSubscription e.2).2.server.topics.held _ s.client.id).isSome = true
      rw [hadded]
      split
      · rfl
      · exact hrest e' he'

end Session
end Mqtt
