import MqttBroker.Session.Connect
import MqttBroker.Session.Subscribing

/-! The subscriptions that a client keeps for itself and those that the index
keeps for it, over requests, takeovers and ends of sessions. Whatever happens to
one client leaves the subscriptions of the others as they are. -/

namespace Mqtt
open FiniteMap
namespace Session

variable {env : Env} {s t u : Session} {pk : Packet}

/-! ### Steps beside the subscriptions -/

structure Aside (s t : Session) : Prop where
  id : t.client.id = s.client.id
  subscriptions : t.client.subscriptions = s.client.subscriptions
  isTakenOver : t.client.isTakenOver = s.client.isTakenOver
  closed : t.client.closed = false → s.client.closed = false
  stopped : (s.client.disconnected ≠ 0 → s.client.closed = true) → t.client.disconnected ≠ 0 → t.client.closed = true
  held : ∀ a client, t.server.topics.held a client = s.server.topics.held a client

theorem Aside.refl (s : Session) : Aside s s := ⟨rfl, rfl, rfl, fun h => h, fun h => h, fun _ _ => rfl⟩

theorem Aside.trans (h : Aside s t) (h' : Aside t u) : Aside s u :=
  ⟨h'.id.trans h.id, h'.subscriptions.trans h.subscriptions, h'.isTakenOver.trans h.isTakenOver,
    fun hclosed => h.closed (h'.closed hclosed), fun hs => h'.stopped (h.stopped hs),
    fun a client => (h'.held a client).trans (h.held a client)⟩

theorem Delivers.aside (h : Delivers s t) : Aside s t := by
  obtain ⟨_, _, _, _, _, _, -, -, rfl⟩ := h
  exact ⟨rfl, rfl, rfl, fun h => h, fun h => h, fun _ _ => rfl⟩

theorem aside_emit (e : Event) : Aside s (s.emit e) := ⟨rfl, rfl, rfl, fun h => h, fun h => h, fun _ _ => rfl⟩

theorem aside_will (will : Will) : Aside s { s with client := { s.client with will := will } } :=
  ⟨rfl, rfl, rfl, fun h => h, fun h => h, fun _ _ => rfl⟩

theorem aside_willDelayed (delayed : Map Bytes Packet) :
    Aside s { s with server := { s.server with willDelayed := delayed } } :=
  ⟨rfl, rfl, rfl, fun h => h, fun h => h, fun _ _ => rfl⟩

theorem aside_props (props : Properties) : Aside s { s with client := { s.client with props := props } } :=
  ⟨rfl, rfl, rfl, fun h => h, fun h => h, fun _ _ => rfl⟩

theorem aside_stop (env : Env) (s : Session) (err : Option Error) : Aside s (s.stop env err) := by
  unfold stop
  split
  · exact .refl s
  · exact ⟨rfl, rfl, rfl, fun h => absurd h nofun, fun _ _ => rfl, fun _ _ => rfl⟩

theorem aside_disconnectClient (env : Env) (s : Session) (code : Code) : Aside s (s.disconnectClient env code).2 := by
  have hwritten : Aside s (s.writePacket env (disconnectPacket code)).2 := delivers_writePacket.aside
  exact disconnectClient_invariant (P := Aside s) hwritten fun h => h.trans (aside_stop env _ _)

theorem aside_retainMessage : Aside s (s.retainMessage pk) := by
  unfold retainMessage
  split
  · exact .refl s
  · exact ⟨rfl, rfl, rfl, fun h => h, fun h => h, (IndexCall.retainMessage (pk.copy false)).held_run s.server.topics⟩

theorem aside_publishToSubscribers : Aside s (s.publishToSubscribers env pk) :=
  (aside_emit _).trans delivers_publishToSubscribers.aside

theorem aside_sendLWT (env : Env) (s : Session) : Aside s (s.sendLWT env) := by
  unfold sendLWT
  dsimp only
  split
  · exact .refl s
  · split
    · exact aside_willDelayed _
    · refine Aside.trans ?_ (aside_emit _)
      refine Aside.trans ?_ (aside_will _)
      split
      · exact aside_retainMessage.trans aside_publishToSubscribers
      · exact aside_publishToSubscribers

theorem aside_endRead (env : Env) (s : Session) (err : Option Error) : Aside s (s.endRead env err) := by
  unfold endRead
  split
  · exact (aside_sendLWT env s).trans (aside_stop env _ _)
  · exact aside_will _

theorem aside_processDisconnect : Aside s (s.processDisconnect env pk).2 :=
  processDisconnect_invariant (P := Aside s) (.refl s) (fun _ => aside_props _) fun h =>
    (h.trans (aside_willDelayed _)).trans (aside_stop env _ _)

theorem aside_clearInflights (env : Env) (s : Session) : Aside s (s.clearInflights env) := by
  refine clearInflights_invariant (fun h _ => h.trans ?_) (.refl s)
  split <;> exact ⟨rfl, rfl, rfl, fun h => h, fun h => h, fun _ _ => rfl⟩

theorem aside_sendConnack (env : Env) (s : Session) (reason : Code) (present : Bool) :
    Aside s (s.sendConnack env reason present).2 := by
  have hcap : Aside s s.capSessionExpiry := by
    unfold capSessionExpiry
    dsimp only
    split
    · exact aside_props _
    · exact .refl s
  unfold sendConnack
  split
  · exact delivers_writePacket.aside
  · exact hcap.trans delivers_writePacket.aside

theorem aside_establish (env : Env) (s : Session) (present : Bool) : Aside s (s.establish env present).2 := by
  have hsent := aside_sendConnack env s .success present
  unfold establish
  split
  · rename_i h
    rw [h] at hsent
    exact hsent
  · rename_i h
    rw [h] at hsent
    dsimp only
    split
    · exact (hsent.trans (aside_willDelayed _)).trans delivers_resendInflightMessages.aside
    · exact hsent.trans (aside_willDelayed _)

/-! ### Requests -/

variable {cl : Client} {x : TopicsIndex}

theorem Owns.congr {y : TopicsIndex} (h : Owns x cl) (hheld : ∀ a, y.held a cl.id = x.held a cl.id) : Owns y cl := by
  refine ⟨fun a => ?_, h.distinct, h.keyed⟩
  rw [hheld]
  exact h.mirrors a

theorem Owns.aside (h : Owns s.server.topics s.client) (hst : Aside s t) : Owns t.server.topics t.client := by
  refine ⟨fun a => ?_, ?_, ?_⟩
  · rw [hst.id, hst.subscriptions, hst.held]
    exact h.mirrors a
  · rw [hst.subscriptions]
    exact h.distinct
  · rw [hst.subscriptions]
    exact h.keyed

theorem owns_of_empty (hsubs : cl.subscriptions = ∅)
    (hheld : ∀ a, x.held a cl.id = none) : Owns x cl := by
  refine ⟨fun a => ?_, ?_, ?_⟩
  · rw [hheld, hsubs]
    exact iff_of_false Bool.false_ne_true fun ⟨f, hf, _⟩ => AList.notMem_empty f hf
  · rw [hsubs]
    exact fun f hf => absurd hf (AList.notMem_empty f)
  · rw [hsubs]
    exact fun f sub hlookup => absurd hlookup nofun

theorem Owns.held_of_empty (h : Owns x cl) (hsubs : cl.subscriptions = ∅) (a : Address) : x.held a cl.id = none := by
  by_contra hsome
  obtain ⟨f, hf, -⟩ := (h.mirrors a).mp (Option.isSome_iff_ne_none.mpr hsome)
  rw [hsubs] at hf
  exact AList.notMem_empty f hf

structure Subscribes (s t : Session) : Prop where
  id : t.client.id = s.client.id
  isTakenOver : t.client.isTakenOver = s.client.isTakenOver
  closed : t.client.closed = false → s.client.closed = false
  stopped : (s.client.disconnected ≠ 0 → s.client.closed = true) → t.client.disconnected ≠ 0 → t.client.closed = true
  others : SpareOthers s.client.id s.server.topics t.server.topics

theorem Subscribes.trans (h : Subscribes s t) (h' : Subscribes t u) : Subscribes s u := by
  refine ⟨h'.id.trans h.id, h'.isTakenOver.trans h.isTakenOver, fun hclosed => h.closed (h'.closed hclosed),
    fun hs => h'.stopped (h.stopped hs), ?_⟩
  have hothers := h'.others
  rw [h.id] at hothers
  exact h.others.trans hothers

theorem Aside.subscribes (h : Aside s t) : Subscribes s t :=
  ⟨h.id, h.isTakenOver, h.closed, h.stopped, fun a client _ => h.held a client⟩

theorem Subscribes.refl (s : Session) : Subscribes s s := (Aside.refl s).subscribes

theorem subscribes_addSubscription (s : Session) (sub : Subscription) : Subscribes s (s.addSubscription sub).2 :=
  ⟨rfl, rfl, fun h => h, fun h => h, spareOthers_addSubscription s sub⟩

theorem subscribes_removeSubscription (s : Session) (filter : Bytes) : Subscribes s (s.removeSubscription filter).2 :=
  ⟨rfl, rfl, fun h => h, fun h => h, spareOthers_removeSubscription s filter⟩

def Separate (cl : Client) (filters : List Subscription) : Prop :=
  ∀ f g, (f ∈ cl.subscriptions ∨ ∃ sub ∈ filters, sub.filter = f) →
    (g ∈ cl.subscriptions ∨ ∃ sub ∈ filters, sub.filter = g) → address f = address g → f = g

theorem owns_processSubscribe (h : Owns s.server.topics s.client)
    (hseparate : Separate s.client (env.onSubscribe pk).filters) :
    Subscribes s (s.processSubscribe env pk).2 ∧
      Owns (s.processSubscribe env pk).2.server.topics (s.processSubscribe env pk).2.client := by
  -- every filter of the client stays among its old ones and those of the packet
  have hall := processSubscribe_invariant (s := s)
    (fun t => Subscribes s t ∧ Owns t.server.topics t.client ∧ ∀ f ∈ t.client.subscriptions,
      f ∈ s.client.subscriptions ∨ ∃ sub ∈ (env.onSubscribe pk).filters, sub.filter = f) env pk ?_ ?_ ?_
    ⟨.refl s, h, fun f hf => .inl hf⟩
  · exact ⟨hall.1, hall.2.1⟩
  · rintro t sub hsub ⟨hst, howns, hfilters⟩ -
    refine ⟨hst.trans (subscribes_addSubscription t sub), howns.addSubscription ?_, ?_⟩
    · exact fun f hf => hseparate f sub.filter (hfilters f hf) (.inr ⟨sub, hsub, rfl⟩)
    · intro f hf
      rcases (AList.mem_insert _).mp hf with rfl | hf
      · exact .inr ⟨sub, hsub, rfl⟩
      · exact hfilters f hf
  · rintro t q codes ⟨hst, howns, hfilters⟩
    have haside : Aside t (t.emit (.subscribed q codes)) := aside_emit _
    exact ⟨hst.trans haside.subscribes, howns.aside haside, hfilters⟩
  · rintro t u ⟨hst, howns, hfilters⟩ hdelivers
    have haside := hdelivers.aside
    refine ⟨hst.trans haside.subscribes, howns.aside haside, ?_⟩
    rw [haside.subscriptions]
    exact hfilters

theorem owns_unsubscribeFilters (code : Code) (subs : List Subscription) : ∀ s : Session,
    Owns s.server.topics s.client →
    (∀ sub ∈ subs, ∀ f ∈ s.client.subscriptions, address f = address sub.filter → f = sub.filter) →
    Subscribes s (unsubscribeFilters code s subs).2 ∧
      Owns (unsubscribeFilters code s subs).2.server.topics (unsubscribeFilters code s subs).2.client := by
  intro s h hsubs
  by_cases hcode : code = .success
  · subst hcode
    induction subs generalizing s with
    | nil => exact ⟨.refl s, h⟩
    | cons sub subs ih =>
      rw [unsubscribeFilters_cons]
      have hremoved := h.removeSubscription (hsubs sub List.mem_cons_self)
      have hrest := ih (s.removeSubscription sub.filter).2 hremoved fun sub' hsub' f hf =>
        hsubs sub' (List.mem_cons_of_mem _ hsub') f (AList.mem_erase.mp hf).2
      exact ⟨(subscribes_removeSubscription s sub.filter).trans hrest.1, hrest.2⟩
  · rw [unsubscribeFilters_refused hcode]
    exact ⟨.refl s, h⟩

theorem owns_processUnsubscribe (h : Owns s.server.topics s.client)
    (hsubs : ∀ sub ∈ (env.onUnsubscribe pk).filters, ∀ f ∈ s.client.subscriptions,
      address f = address sub.filter → f = sub.filter) :
    Subscribes s (s.processUnsubscribe env pk).2 ∧
      Owns (s.processUnsubscribe env pk).2.server.topics (s.processUnsubscribe env pk).2.client := by
  obtain ⟨hst, howns⟩ := owns_unsubscribeFilters (s.requestCode pk) (env.onUnsubscribe pk).filters s h hsubs
  unfold processUnsubscribe
  dsimp only
  generalize unsubscribeFilters (s.requestCode pk) s (env.onUnsubscribe pk).filters = loop at hst howns
  have haside : ∀ ack, Aside loop.2 ((loop.2.emit (.unsubscribed (env.onUnsubscribe pk))).writePacket env ack).2 :=
    fun ack => (aside_emit _).trans delivers_writePacket.aside
  exact ⟨hst.trans (haside _).subscribes, howns.aside (haside _)⟩

/-! ### Ends of sessions -/

theorem held_foldl_unsubscribeOne (es : List (Σ _ : Bytes, Subscription)) : ∀ s : Session,
    (es.foldl (fun s e => s.unsubscribeOne e.1) s).client = s.client ∧
      SpareOthers s.client.id s.server.topics (es.foldl (fun s e => s.unsubscribeOne e.1) s).server.topics ∧
      ∀ a, (∃ e ∈ es, address e.1 = a) ∨ s.server.topics.held a s.client.id = none →
        (es.foldl (fun s e => s.unsubscribeOne e.1) s).server.topics.held a s.client.id = none := by
  induction es with
  | nil =>
    intro s
    exact ⟨rfl, fun _ _ _ => rfl, fun a h => h.resolve_left fun ⟨_, he, _⟩ => absurd he List.not_mem_nil⟩
  | cons e es ih =>
    intro s
    obtain ⟨hclient, hothers, hnone⟩ := ih (s.unsubscribeOne e.1)
    have hheld : ∀ a client, (s.unsubscribeOne e.1).server.topics.held a client =
        if a = address e.1 ∧ client = s.client.id then none else s.server.topics.held a client :=
      TopicsIndex.held_unsubscribe s.server.topics e.1 s.client.id
    have hone : SpareOthers s.client.id s.server.topics (s.unsubscribeOne e.1).server.topics := by
      intro a client hne
      rw [hheld, if_neg fun h => hne h.2]
    refine ⟨hclient, hone.trans hothers, fun a ha => hnone a ?_⟩
    by_cases hae : a = address e.1
    · refine .inr ((hheld a s.client.id).trans (if_pos ⟨hae, rfl⟩))
    · rcases ha with ⟨e', he', haddress⟩ | hnone
      · rcases List.mem_cons.mp he' with rfl | he'
        · exact absurd haddress.symm hae
        · exact .inl ⟨e', he', haddress⟩
      · exact .inr ((hheld a s.client.id).trans ((if_neg fun h => hae h.1).trans hnone))

def withoutFilters (s : Session) : Session :=
  s.client.subscriptions.entries.foldl (fun s e => s.unsubscribeOne e.1)
    { s with client := { s.client with subscriptions := ∅ } }

theorem unsubscribeClient_eq (h : s.client.isTakenOver = false) : s.unsubscribeClient = s.withoutFilters.emit
    (.unsubscribed { fixedHeader := { type := .unsubscribe }
                     filters := s.client.subscriptions.entries.map Sigma.snd }) := by
  unfold unsubscribeClient
  exact if_neg (by rw [h]; exact Bool.false_ne_true)

theorem unsubscribeClient_client (s : Session) : s.unsubscribeClient.client = { s.client with subscriptions := ∅ } := by
  cases htaken : s.client.isTakenOver with
  | true =>
    unfold unsubscribeClient
    dsimp only
    rw [htaken, if_pos rfl]
  | false =>
    rw [unsubscribeClient_eq htaken]
    exact (held_foldl_unsubscribeOne s.client.subscriptions.entries
      { s with client := { s.client with subscriptions := ∅ } }).1

theorem held_unsubscribeClient (htaken : s.client.isTakenOver = false)
    (h : ∀ a, (s.server.topics.held a s.client.id).isSome = true → ∃ f ∈ s.client.subscriptions, address f = a)
    (a : Address) : s.unsubscribeClient.server.topics.held a s.client.id = none := by
  obtain ⟨-, -, hnone⟩ := held_foldl_unsubscribeOne s.client.subscriptions.entries
    { s with client := { s.client with subscriptions := ∅ } }
  rw [unsubscribeClient_eq htaken]
  refine hnone a ?_
  by_cases hsome : (s.server.topics.held a s.client.id).isSome = true
  · obtain ⟨f, hf, haddress⟩ := h a hsome
    obtain ⟨sub, hsub⟩ := Option.isSome_iff_exists.mp (AList.lookup_isSome.mpr hf)
    exact .inl ⟨⟨f, sub⟩, AList.mem_lookup_iff.mp hsub, haddress⟩
  · exact .inr (Option.not_isSome_iff_eq_none.mp hsome)

theorem owns_unsubscribeClient (h : Owns s.server.topics s.client) (htaken : s.client.isTakenOver = false) :
    Subscribes s s.unsubscribeClient ∧ Owns s.unsubscribeClient.server.topics s.unsubscribeClient.client ∧
      s.unsubscribeClient.client.subscriptions = ∅ := by
  obtain ⟨-, hothers, -⟩ := held_foldl_unsubscribeOne s.client.subscriptions.entries
    { s with client := { s.client with subscriptions := ∅ } }
  have hnone := held_unsubscribeClient htaken fun a => (h.mirrors a).mp
  have hclient := unsubscribeClient_client s
  have hspared : SpareOthers s.client.id s.server.topics s.unsubscribeClient.server.topics := by
    rw [unsubscribeClient_eq htaken]
    exact hothers
  rw [hclient]
  refine ⟨⟨?_, ?_, ?_, ?_, hspared⟩, owns_of_empty rfl hnone, rfl⟩
  all_goals
    rw [hclient]
  exacts [fun h => h, fun h => h]

theorem aside_unsubscribeClient (hsubs : s.client.subscriptions = ∅) : Aside s s.unsubscribeClient := by
  have hsame : Aside s { s with client := { s.client with subscriptions := ∅ } } :=
    ⟨rfl, hsubs.symm, rfl, fun h => h, fun h => h, fun _ _ => rfl⟩
  unfold unsubscribeClient
  dsimp only
  split
  · exact hsame
  · rw [hsubs]
    exact hsame.trans (aside_emit _)

/-! ### Takeovers -/

theorem inheritClientSession_of_fst (s : Session) (env : Env) (pk : Packet) (cl : Client)
    (h : (s.inheritClientSession env pk cl).1 = false) : (s.inheritClientSession env pk cl).2.2.client = cl := by
  rw [inheritClientSession_eq] at h ⊢
  dsimp only at h ⊢
  split at h
  · rename_i hclean
    rw [if_pos hclean]
  · cases h

theorem owns_inheritClientSession (env : Env) (pk : Packet) (h : Owns s.server.topics s.client)
    (htaken : s.client.isTakenOver = false)
    (hstopped : s.client.disconnected ≠ 0 → s.client.closed = true) (hid : cl.id = s.client.id)
    (hsubs : cl.subscriptions = ∅) :
    let r := s.inheritClientSession env pk cl
    (r.2.1.isTakenOver = true ∧ r.2.1.subscriptions = ∅ ∧ (r.2.1.disconnected ≠ 0 → r.2.1.closed = true)) ∧
      (∃ inflight subscriptions, r.2.2.client = { cl with inflight := inflight, subscriptions := subscriptions }) ∧
      SpareOthers cl.id s.server.topics r.2.2.server.topics ∧ Owns r.2.2.server.topics r.2.2.client := by
  have haside := aside_disconnectClient env s .sessionTakenOver
  rw [inheritClientSession_eq]
  dsimp only
  generalize (s.disconnectClient env .sessionTakenOver).2 = t at haside
  have howns : Owns t.server.topics t.client := h.aside haside
  have htid : cl.id = t.client.id := hid.trans haside.id.symm
  have hothers : SpareOthers cl.id s.server.topics t.server.topics := fun a client _ => haside.held a client
  split
  · obtain ⟨hsubscribes, hempty, hnone⟩ := owns_unsubscribeClient howns (haside.isTakenOver.trans htaken)
    have hclear := aside_clearInflights env t.unsubscribeClient
    have hempty' := hempty.aside hclear
    have hsubs' := hclear.subscriptions.trans hnone
    have hcid : (t.unsubscribeClient.clearInflights env).client.id = cl.id :=
      (hclear.id.trans hsubscribes.id).trans htid.symm
    have hheld : ∀ a, (t.unsubscribeClient.clearInflights env).server.topics.held a cl.id = none := by
      intro a
      rw [← hcid]
      exact hempty'.held_of_empty hsubs' a
    have hspare : SpareOthers cl.id t.server.topics (t.unsubscribeClient.clearInflights env).server.topics := by
      rw [htid]
      exact (hsubscribes.trans hclear.subscribes).others
    refine ⟨⟨rfl, hsubs', ?_⟩, ⟨_, _, rfl⟩, hothers.trans hspare, owns_of_empty hsubs hheld⟩
    exact hclear.stopped (hsubscribes.stopped (haside.stopped hstopped))
  · have hentries : ∀ e ∈ t.client.subscriptions.entries, e.2.filter = e.1 :=
      fun e he => howns.keyed e.1 e.2 (AList.mem_lookup_iff.mpr he)
    obtain ⟨hclient, hheld, -⟩ := foldl_addSubscription t.client.subscriptions.entries
      { t with client := { cl with inflight := inheritInflight t.server.caps t.client.inflight cl } }
    generalize t.client.subscriptions.entries.foldl (fun (s : Session) e => (s.addSubscription e.2).2) _ = u
      at hclient hheld
    have hsame : ∀ f, u.client.subscriptions.lookup f = t.client.subscriptions.lookup f := by
      intro f
      rw [hclient]
      exact lookup_foldl_entries Subscription.filter hentries hsubs f
    have hmem : ∀ f, f ∈ u.client.subscriptions ↔ f ∈ t.client.subscriptions := by
      intro f
      rw [← AList.lookup_isSome, hsame, AList.lookup_isSome]
    have hkept : ∀ a, (u.server.topics.held a cl.id).isSome = true ↔
        (t.server.topics.held a t.client.id).isSome = true := by
      intro a
      rcases hheld a cl.id with ⟨-, e, he, ha, hsome⟩ | ⟨-, hkept⟩
      · refine iff_of_true (by rw [hsome]; rfl) ((howns.mirrors a).mpr ⟨e.1, ?_, by rw [← hentries e he]; exact ha⟩)
        exact AList.mem_keys.mpr (List.mem_map_of_mem he)
      · rw [hkept, htid]
    refine ⟨⟨rfl, rfl, haside.stopped hstopped⟩, ⟨_, _, hclient⟩, hothers.trans fun a client hne => ?_,
      fun a => ?_, ?_, ?_⟩
    · exact ((hheld a client).resolve_left fun h => hne h.1).2
    · have hid : u.client.id = cl.id := by rw [hclient]
      rw [hid, hkept, howns.mirrors]
      exact exists_congr fun f => and_congr_left' (hmem f).symm
    · exact fun f hf g hg => howns.distinct f ((hmem f).mp hf) g ((hmem g).mp hg)
    · exact fun f sub hsub => howns.keyed f sub ((hsame f).symm.trans hsub)

end Session
end Mqtt
