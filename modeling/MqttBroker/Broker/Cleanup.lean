import MqttBroker.Broker.Lifecycle
import MqttBroker.Session.Once

/-! The end of an attached client. `attachClient` cleans up behind its read loop
only: an error before it returns at once and leaves the client registered, with its
will pending. -/

namespace Mqtt
open FiniteMap
namespace Session

variable {env : Env} {s t u : Session} {pk : Packet}

/-! ### The subscriptions of a client -/

def Covered (s : Session) : Prop :=
  ∀ a, (s.server.topics.held a s.client.id).isSome = true → ∃ f ∈ s.client.subscriptions, address f = a

structure KeepsFilters (s t : Session) : Prop where
  id : t.client.id = s.client.id
  subscriptions : t.client.subscriptions = s.client.subscriptions
  isTakenOver : t.client.isTakenOver = s.client.isTakenOver
  held : ∀ a, t.server.topics.held a s.client.id = s.server.topics.held a s.client.id

theorem KeepsFilters.refl (s : Session) : KeepsFilters s s := ⟨rfl, rfl, rfl, fun _ => rfl⟩

theorem KeepsFilters.trans (h : KeepsFilters s t) (h' : KeepsFilters t u) : KeepsFilters s u := by
  refine ⟨h'.id.trans h.id, h'.subscriptions.trans h.subscriptions, h'.isTakenOver.trans h.isTakenOver, fun a => ?_⟩
  have hheld := h'.held a
  rw [h.id] at hheld
  exact hheld.trans (h.held a)

theorem Aside.keepsFilters (h : Aside s t) : KeepsFilters s t :=
  ⟨h.id, h.subscriptions, h.isTakenOver, fun a => h.held a s.client.id⟩

theorem Frame.keepsFilters (h : Frame s t) : KeepsFilters s t := by
  obtain ⟨_, _, _, _, _, _, -, rfl⟩ := h
  exact ⟨rfl, rfl, rfl, fun _ => rfl⟩

theorem Covered.keepsFilters (h : Covered s) (hst : KeepsFilters s t) : Covered t := by
  intro a hheld
  rw [hst.subscriptions]
  rw [hst.id, hst.held] at hheld
  exact h a hheld

theorem Covered.addSubscription (h : Covered s) (sub : Subscription) : Covered (s.addSubscription sub).2 := by
  intro a hheld
  change ((s.server.topics.subscribe s.client.id sub).2.held a s.client.id).isSome = true at hheld
  show ∃ f ∈ s.client.subscriptions.insert sub.filter sub, address f = a
  rw [TopicsIndex.held_subscribe] at hheld
  by_cases ha : a = address sub.filter
  · exact ⟨sub.filter, (AList.mem_insert _).mpr (.inl rfl), ha.symm⟩
  · rw [if_neg fun h => ha h.1] at hheld
    obtain ⟨f, hf, haddress⟩ := h a hheld
    exact ⟨f, (AList.mem_insert _).mpr (.inr hf), haddress⟩

/-- Two filters with one address are one entry of the index, so it does not matter which of them is removed. -/
theorem Covered.removeSubscription (h : Covered s) (filter : Bytes) : Covered (s.removeSubscription filter).2 := by
  intro a hheld
  change ((s.server.topics.unsubscribe filter s.client.id).2.held a s.client.id).isSome = true at hheld
  show ∃ f ∈ s.client.subscriptions.erase filter, address f = a
  rw [TopicsIndex.held_unsubscribe] at hheld
  by_cases ha : a = address filter
  · rw [if_pos ⟨ha, rfl⟩] at hheld
    cases hheld
  · rw [if_neg fun h => ha h.1] at hheld
    obtain ⟨f, hf, rfl⟩ := h a hheld
    exact ⟨f, AList.mem_erase.mpr ⟨fun heq => ha (congrArg address heq), hf⟩, rfl⟩

/-- The session was taken over, or the index holds nothing for the client that it does not know of. -/
def Accounted (s : Session) : Prop := s.client.isTakenOver = true ∨ Covered s

theorem Accounted.keepsFilters (h : Accounted s) (hst : KeepsFilters s t) : Accounted t := by
  rcases h with htaken | hcovered
  · exact .inl (hst.isTakenOver.trans htaken)
  · exact .inr (hcovered.keepsFilters hst)

theorem Accounted.delivers (h : Accounted s) (hst : Delivers s t) : Accounted t := h.keepsFilters hst.aside.keepsFilters

theorem Accounted.addSubscription (h : Accounted s) (sub : Subscription) : Accounted (s.addSubscription sub).2 :=
  h.imp (fun htaken => htaken) fun hcovered => hcovered.addSubscription sub

theorem Accounted.removeSubscription (h : Accounted s) (filter : Bytes) : Accounted (s.removeSubscription filter).2 :=
  h.imp (fun htaken => htaken) fun hcovered => hcovered.removeSubscription filter

theorem Accounted.processSubscribe (h : Accounted s) : Accounted (s.processSubscribe env pk).2 := by
  apply processSubscribe_invariant Accounted env pk
  · exact fun t sub _ ht _ => ht.addSubscription sub
  · exact fun t q codes ht => ht.keepsFilters (aside_emit _).keepsFilters
  · exact fun t u ht hdelivers => ht.delivers hdelivers
  · exact h

theorem Accounted.unsubscribeFilters (code : Code) (subs : List Subscription) :
    ∀ s : Session, Accounted s → Accounted (unsubscribeFilters code s subs).2 := by
  intro s h
  by_cases hcode : code = .success
  · subst hcode
    induction subs generalizing s with
    | nil => exact h
    | cons sub subs ih =>
      rw [unsubscribeFilters_cons]
      exact ih _ (h.removeSubscription sub.filter)
  · rw [unsubscribeFilters_refused hcode]
    exact h

theorem Accounted.processUnsubscribe (h : Accounted s) : Accounted (s.processUnsubscribe env pk).2 := by
  have hloop := Accounted.unsubscribeFilters (s.requestCode pk) (env.onUnsubscribe pk).filters s h
  exact (hloop.keepsFilters (aside_emit _).keepsFilters).delivers delivers_writePacket

theorem keepsFilters_aliased : KeepsFilters s (s.aliased env pk) := by
  rw [aliased_eq]
  exact ⟨rfl, rfl, rfl, fun _ => rfl⟩

theorem keepsFilters_retained (q : Packet) : KeepsFilters s (s.retained q) := by
  unfold retained
  split
  · exact aside_retainMessage.keepsFilters
  · exact .refl s

theorem keepsFilters_receivePublish : KeepsFilters s (s.receivePublish env pk).session := by
  refine receivePublish_invariant (fun hquiet hv => hv.trans hquiet.toFrame.keepsFilters) (.refl s) keepsFilters_aliased
    fun q _ => ?_
  refine acceptPublish_invariant (P := KeepsFilters s) (fun hframe hv => hv.trans hframe.keepsFilters) ?_
  exact keepsFilters_aliased.trans (keepsFilters_retained q)

theorem keepsFilters_processPublish : KeepsFilters s (s.processPublish env pk).2 :=
  processPublish_invariant (P := KeepsFilters s) keepsFilters_receivePublish
    fun _ h => h.trans (aside_publishToSubscribers.trans (aside_emit _)).keepsFilters

theorem Accounted.validated {code : Code} {r : Option Error × Session} (h : Accounted s) (hr : Accounted r.2) :
    Accounted (Session.validated code s r).2 := by
  unfold Session.validated
  split
  · exact h
  · exact hr

theorem Accounted.handle (h : Accounted s) : Accounted (s.handle env pk).2 := by
  unfold Session.handle
  split
  · exact h.keepsFilters (aside_sendLWT env s).keepsFilters
  · exact h.keepsFilters aside_processDisconnect.keepsFilters
  · exact h.delivers delivers_writePacket
  · exact h.validated (h.keepsFilters keepsFilters_processPublish)
  · exact h.keepsFilters frame_processPuback.keepsFilters
  · exact h.keepsFilters frame_processPubrec.keepsFilters
  · exact h.keepsFilters frame_processPubrel.keepsFilters
  · exact h.keepsFilters frame_processPubcomp.keepsFilters
  · exact h.validated h.processSubscribe
  · exact h.validated h.processUnsubscribe
  · exact h.validated h
  · exact h

theorem Accounted.receivePacket (h : Accounted s) : Accounted (s.receivePacket env pk).2 :=
  receivePacket_invariant (P := Accounted) h.handle (fun ht => ht.delivers delivers_resume)
    fun code ht => ht.keepsFilters (aside_disconnectClient env _ code).keepsFilters

/-! ### The inflight messages of a client -/

def NoInflight (s : Session) : Prop := ∀ id, s.client.inflight.get id = none

theorem get_clearInflight (tk : Packet) (id : UInt16) :
    (s.clearInflight tk).client.inflight.get id = if id = tk.packetID then none else s.client.inflight.get id := by
  unfold clearInflight Inflight.delete
  cases hget : s.client.inflight.get tk.packetID with
  | none =>
    show s.client.inflight.get id = _
    split
    · rename_i hid
      rw [hid, hget]
    · rfl
  | some e =>
    dsimp only [Option.isSome_some]
    rw [if_pos rfl]
    split <;> exact Inflight.get_remove _ _ _

theorem get_foldl_clearInflight (tks : List Packet) : ∀ (s : Session) (id : UInt16),
    (tks.foldl clearInflight s).client.inflight.get id =
      if id ∈ tks.map Packet.packetID then none else s.client.inflight.get id := by
  induction tks with
  | nil => exact fun s id => (if_neg List.not_mem_nil).symm
  | cons tk tks ih =>
    intro s id
    rw [List.foldl_cons, ih, get_clearInflight, List.map_cons]
    by_cases hid : id = tk.packetID
    · rw [if_pos hid, if_pos (List.mem_cons.mpr (.inl hid)), ite_self]
    · rw [if_neg hid]
      simp only [List.mem_cons, hid, false_or]

theorem noInflight_clearInflights (env : Env) (s : Session) : NoInflight (s.clearInflights env) := by
  intro id
  unfold clearInflights
  rw [get_foldl_clearInflight]
  cases hget : s.client.inflight.get id with
  | none => exact ite_self _
  | some e =>
    have hid : e.packetID = id := s.client.inflight.keyed hget
    refine if_pos (List.mem_map.mpr ⟨e, s.client.inflight.mem_getAll_iff.mpr ?_, hid⟩)
    rw [hid]
    exact hget

theorem NoInflight.of_inflight (h : NoInflight s) (heq : t.client.inflight = s.client.inflight) : NoInflight t := by
  intro id
  rw [heq]
  exact h id

theorem NoInflight.onInflight (h : NoInflight s) {f : Inflight → Inflight} (hf : ∀ g id, (f g).get id = g.get id) :
    NoInflight (s.onInflight f) := fun id => (hf _ id).trans (h id)

theorem NoInflight.resume (h : NoInflight s) : NoInflight (s.resumeDeferredPublishes env).2 := by
  apply resume_invariant
  · exact fun hs _ hget => absurd ((hs _).symm.trans hget) nofun
  · exact fun hs _ hget => absurd ((hs _).symm.trans hget) nofun
  · exact fun hs => hs.onInflight Inflight.get_resetSendQuotaIfEmpty
  · exact h.onInflight Inflight.get_recoverStarvedSendQuota

theorem NoInflight.sweepInflights (h : NoInflight s) (now : Int) : Broker.sweepInflights env now s = s := by
  have hall : s.client.inflight.getAll env.order false = [] := by
    refine List.eq_nil_iff_forall_not_mem.mpr fun pk hpk => ?_
    exact absurd ((h _).symm.trans (s.client.inflight.mem_getAll_iff.mp hpk)) nofun
  unfold Broker.sweepInflights clearExpiredInflights
  rw [hall]
  rfl

theorem NoInflight.writeNext (h : NoInflight s) : NoInflight (s.writeNext env) := by
  unfold Session.writeNext
  split
  · exact h
  · refine h.of_inflight ?_
    rw [writePacketOn_client]

end Session
namespace Attachment
open Session

variable {env : Env} {x y : Attachment} {s t u : Session}

/-! ### Tearing down -/

structure Idles (s t : Session) : Prop where
  filters : KeepsFilters s t
  expires : t.client.expires = s.client.expires
  inflight : NoInflight s → NoInflight t

theorem Idles.refl (s : Session) : Idles s s := ⟨.refl s, rfl, id⟩

theorem idles_stop (env : Env) (s : Session) (err : Option Error) : Idles s (s.stop env err) := by
  refine ⟨(aside_stop env s err).keepsFilters, ?_, fun h => h.of_inflight (quiet_stop env s err).inflight⟩
  unfold Session.stop
  split <;> rfl

theorem idles_disconnectClient (env : Env) (s : Session) (code : Code) : Idles s (s.disconnectClient env code).2 := by
  have hquiet := quiet_disconnectClient env s code
  refine ⟨hquiet.toFrame.keepsFilters, ?_, fun h => h.of_inflight hquiet.inflight⟩
  obtain ⟨_, _, _, _, _, _, -, heq⟩ := hquiet.toFrame
  rw [heq]
  rfl

theorem expires_delivers (h : Delivers s t) : t.client.expires = s.client.expires := by
  obtain ⟨_, _, _, _, _, _, -, -, rfl⟩ := h
  rfl

theorem idles_writeNext : Idles s (s.writeNext env) :=
  ⟨delivers_writeNext.aside.keepsFilters, expires_delivers delivers_writeNext, NoInflight.writeNext⟩

theorem idles_resume : Idles s (s.resumeDeferredPublishes env).2 :=
  ⟨delivers_resume.aside.keepsFilters, expires_delivers delivers_resume, NoInflight.resume⟩

theorem idles_sweepInflights (now : Int) : Idles s (Broker.sweepInflights env now s) := by
  have hdelivers := Broker.delivers_sweepInflights env now s
  refine ⟨hdelivers.aside.keepsFilters, expires_delivers hdelivers, fun h => ?_⟩
  rw [h.sweepInflights]
  exact h

theorem idles_sendDelayed (dt : Int) : Idles s (sendDelayed dt s) := by
  unfold sendDelayed Broker.finishWill
  split
  · exact .refl s
  · rename_i pk _
    dsimp only
    split
    · have hretained : Aside s (if pk.fixedHeader.retain then (s.emit (.forward pk)).retainMessage pk
          else s.emit (.forward pk)) := by
        split
        · exact (aside_emit _).trans aside_retainMessage
        · exact aside_emit _
      have hclient : (if pk.fixedHeader.retain then (s.emit (.forward pk)).retainMessage pk
          else s.emit (.forward pk)).client = s.client := by
        split
        · unfold retainMessage
          split <;> rfl
        · rfl
      generalize (if pk.fixedHeader.retain then (s.emit (.forward pk)).retainMessage pk
          else s.emit (.forward pk)) = v at hretained hclient
      refine ⟨((hretained.trans (aside_will {})).trans (aside_emit (.willSent pk))).keepsFilters.trans
        (aside_willDelayed _).keepsFilters, ?_, fun h => h.of_inflight ?_⟩
      · show { v.client with will := {} }.expires = s.client.expires
        rw [hclient]
        rfl
      · show v.client.inflight = s.client.inflight
        rw [hclient]
    · exact .refl s

def Unheld (s : Session) : Prop := ∀ a, s.server.topics.held a s.client.id = none

def Tracked (x : Attachment) : Prop :=
  match x.phase with
  | .added | .acked | .top | .waiting | .ended _ => x.disconnects = 0 ∧ Accounted x.session
  | .settled => x.disconnects = 0 ∧ x.willDone = true ∧ Accounted x.session
  | .clearing => x.disconnects = 1 ∧ x.willDone = true ∧ Accounted x.session
  | .unsubscribing => x.disconnects = 1 ∧ x.willDone = true ∧
      (x.session.client.isTakenOver = true ∨ NoInflight x.session ∧ Covered x.session)
  | .deleting => x.disconnects = 1 ∧ x.willDone = true ∧
      (x.session.client.isTakenOver = true ∨ NoInflight x.session ∧ Unheld x.session)
  | .returned => x.disconnects = 1 ∧ x.willDone = true ∧
      (x.session.client.isTakenOver = true ∨ x.session.client.expires = false ∨
        x.registered = false ∧ NoInflight x.session ∧ Unheld x.session)

/-- The CONNACK can be written and the inherited messages resent; nothing is delivered to the client once its
inflight messages are cleared; and the handlers of other clients leave its subscriptions alone. -/
def Tidy (x : Attachment) (call : Env × Call) : Prop :=
  match call.2 with
  | .advance => (x.phase = .added → ¬ Fails call.1 x.session (x.session.acceptance x.present)) ∧
      (x.phase = .acked → x.present = true → Resendable call.1 x.session)
  | .deliver _ _ => x.phase ≠ .unsubscribing ∧ x.phase ≠ .deleting ∧ x.phase ≠ .returned
  | .others server =>
      ∀ a, server.topics.held a x.session.client.id = x.session.server.topics.held a x.session.client.id
  | _ => True

theorem Unheld.keepsFilters (h : Unheld s) (hst : KeepsFilters s t) : Unheld t := by
  intro a
  rw [hst.id, hst.held]
  exact h a

theorem Tracked.idles (h : Tracked x) (hu : Idles x.session u) : Tracked { x with session := u } := by
  have htaken : x.session.client.isTakenOver = true → u.client.isTakenOver = true := hu.filters.isTakenOver.trans
  have hunheld : NoInflight x.session ∧ Unheld x.session → NoInflight u ∧ Unheld u :=
    fun h => ⟨hu.inflight h.1, h.2.keepsFilters hu.filters⟩
  unfold Tracked at h ⊢
  cases hphase : x.phase with
  | unsubscribing =>
    rw [hphase] at h
    exact ⟨h.1, h.2.1, h.2.2.imp htaken fun h => ⟨hu.inflight h.1, h.2.keepsFilters hu.filters⟩⟩
  | deleting =>
    rw [hphase] at h
    exact ⟨h.1, h.2.1, h.2.2.imp htaken hunheld⟩
  | returned =>
    rw [hphase] at h
    exact ⟨h.1, h.2.1, h.2.2.imp htaken fun h => h.imp hu.expires.trans fun h => ⟨h.1, hunheld h.2⟩⟩
  | settled | clearing =>
    rw [hphase] at h
    exact ⟨h.1, h.2.1, h.2.2.keepsFilters hu.filters⟩
  | _ =>
    rw [hphase] at h
    exact ⟨h.1, h.2.keepsFilters hu.filters⟩

theorem Tracked.taken (h : Tracked x) (hu : u.client.isTakenOver = true) : Tracked { x with session := u } := by
  unfold Tracked at h ⊢
  cases hphase : x.phase with
  | unsubscribing | deleting | returned | settled | clearing =>
    rw [hphase] at h
    exact ⟨h.1, h.2.1, .inl hu⟩
  | _ =>
    rw [hphase] at h
    exact ⟨h.1, .inl hu⟩

theorem sendConnack_of_writable {present : Bool} (h : ¬ Fails env s (s.acceptance present)) :
    (s.sendConnack env .success present).1 = none := by
  have hcapped : Fails env s.capSessionExpiry (s.acceptance present) → Fails env s (s.acceptance present) := by
    intro hfails
    unfold capSessionExpiry at hfails
    dsimp only at hfails
    split at hfails <;> exact hfails
  show (s.capSessionExpiry.writePacket env (s.acceptance present)).1 = none
  cases hw : s.capSessionExpiry.writePacket env (s.acceptance present) with
  | mk err t =>
    cases err with
    | none => rfl
    | some err => exact absurd (hcapped (writePacket_fails hw)) h

theorem isSettled_endRead (err : Option Error) : isSettled (s.endRead env err) = true := by
  have hstop : ∀ t : Session, isSettled (t.stop env err) = isSettled t := by
    intro t
    unfold Session.stop
    split <;> rfl
  unfold endRead
  split
  · rw [hstop]
    unfold sendLWT
    dsimp only
    split
    · rename_i hflag
      unfold isSettled
      rw [Bool.or_eq_true]
      exact .inl hflag
    · split
      · unfold isSettled
        dsimp only
        rw [AList.lookup_insert, Option.isSome_some, Bool.or_true]
      · rfl
  · rfl

theorem Tracked.advance (h : Tracked x) (hok : Tidy x (env, .advance)) : Tracked (x.advance env) := by
  have hphases := h
  unfold Tracked at h
  unfold Attachment.advance
  cases hphase : x.phase with
  | added =>
    rw [hphase] at h
    have hsent := sendConnack_of_writable (hok.1 hphase)
    have haside := aside_sendConnack env x.session .success x.present
    generalize x.session.sendConnack env .success x.present = sent at hsent haside
    obtain ⟨err, t⟩ := sent
    cases hsent
    exact ⟨h.1, h.2.keepsFilters (haside.trans (aside_willDelayed _)).keepsFilters⟩
  | acked =>
    rw [hphase] at h
    dsimp only
    split
    · rename_i hpresent
      have hsent := resend_of_resendable (hok.2 hphase hpresent)
      have hdelivers := @delivers_resendInflightMessages env x.session
      generalize x.session.resendInflightMessages env = sent at hsent hdelivers
      obtain ⟨err, t⟩ := sent
      cases hsent
      exact ⟨h.1, h.2.delivers hdelivers⟩
    · exact h
  | top =>
    rw [hphase] at h
    dsimp only
    split <;> exact h
  | ended err =>
    rw [hphase] at h
    exact ⟨h.1, isSettled_endRead err, h.2.keepsFilters (aside_endRead env x.session err).keepsFilters⟩
  | settled =>
    rw [hphase] at h
    have hstop := idles_stop env x.session none
    have hone : x.disconnects + 1 = 1 := by rw [h.1]
    dsimp only
    split
    · exact ⟨hone, h.2⟩
    · rename_i hkept
      refine ⟨hone, h.2.1, ?_⟩
      rw [Bool.and_eq_true, not_and_or, Bool.not_eq_true, Bool.not_eq_true, Bool.not_eq_false'] at hkept
      exact hkept.symm.imp hstop.filters.isTakenOver.trans fun hexpires => .inl (hstop.expires.trans hexpires)
  | clearing =>
    rw [hphase] at h
    have hfilters := (aside_clearInflights env x.session).keepsFilters
    refine ⟨h.1, h.2.1, h.2.2.imp hfilters.isTakenOver.trans fun hcovered => ?_⟩
    exact ⟨noInflight_clearInflights env x.session, hcovered.keepsFilters hfilters⟩
  | unsubscribing =>
    rw [hphase] at h
    have hclient := unsubscribeClient_client x.session
    refine ⟨h.1, h.2.1, ?_⟩
    show x.session.unsubscribeClient.client.isTakenOver = true ∨
      NoInflight x.session.unsubscribeClient ∧ Unheld x.session.unsubscribeClient
    cases htaken : x.session.client.isTakenOver with
    | true =>
      refine .inl ?_
      rw [hclient]
      exact htaken
    | false =>
      obtain ⟨hnone, hcovered⟩ := h.2.2.resolve_left (by rw [htaken]; exact Bool.false_ne_true)
      refine .inr ⟨hnone.of_inflight (by rw [hclient]), fun a => ?_⟩
      rw [hclient]
      exact held_unsubscribeClient htaken hcovered a
  | deleting =>
    rw [hphase] at h
    have hstop := idles_stop env x.session none
    refine ⟨h.1, h.2.1, h.2.2.imp hstop.filters.isTakenOver.trans fun hgone => .inr ⟨rfl, ?_⟩⟩
    exact ⟨hstop.inflight hgone.1, hgone.2.keepsFilters hstop.filters⟩
  | waiting | returned => exact hphases

theorem Tracked.receive (h : Tracked x) (hphase : x.phase = .waiting) (pk : Packet) : Tracked (x.receive env pk) := by
  unfold Tracked at h
  rw [hphase] at h
  have hreceived := @Accounted.receivePacket env x.session pk h.2
  unfold Attachment.receive
  generalize x.session.receivePacket env pk = received at hreceived
  obtain ⟨err, t⟩ := received
  cases err <;> exact ⟨h.1, hreceived⟩

theorem Tracked.deliver (h : Tracked x) {sub : Subscription} {pk : Packet}
    (hok : x.phase ≠ .unsubscribing ∧ x.phase ≠ .deleting ∧ x.phase ≠ .returned) :
    Tracked { x with session := (x.session.publishToClient env sub pk).2 } := by
  have hdelivers := @delivers_publishToClient env x.session pk sub
  unfold Tracked at h ⊢
  cases hphase : x.phase with
  | unsubscribing => exact absurd hphase hok.1
  | deleting => exact absurd hphase hok.2.1
  | returned => exact absurd hphase hok.2.2
  | settled | clearing =>
    rw [hphase] at h
    exact ⟨h.1, h.2.1, h.2.2.delivers hdelivers⟩
  | _ =>
    rw [hphase] at h
    exact ⟨h.1, h.2.delivers hdelivers⟩

theorem isTakenOver_takeOver (s : Session) (pk : Packet) (cl : Client) :
    (takeOver env s pk cl).client.isTakenOver = true := by
  unfold takeOver
  rw [inheritClientSession_eq]
  dsimp only
  split <;> rfl

theorem Tracked.run (h : Tracked x) {call : Call} (hok : Tidy x (env, call)) : Tracked (x.run env call) := by
  unfold Attachment.run
  cases call with
  | advance => exact h.advance hok
  | fail err =>
    dsimp only
    split
    · rename_i hphase
      unfold Tracked at h
      rw [hphase] at h
      exact h
    · exact h
  | packet pk =>
    dsimp only
    split
    · rename_i hphase
      exact h.receive hphase pk
    · exact h
  | stop err => exact h.idles (idles_stop env x.session err)
  | disconnect code => exact h.idles (idles_disconnectClient env x.session code)
  | takeOver pk cl => exact h.taken (isTakenOver_takeOver x.session pk cl)
  | deliver sub pk => exact h.deliver hok
  | writeNext => exact h.idles idles_writeNext
  | resume => exact h.idles idles_resume
  | sweep now => exact h.idles (idles_sweepInflights now)
  | sendDelayed dt => exact h.idles (idles_sendDelayed dt)
  | others server => exact h.idles ⟨⟨rfl, rfl, rfl, hok⟩, rfl, fun hnone => hnone⟩

/-- A connection that was just added to the clients, the index holding nothing for it that it does not know of. -/
structure Attached (x : Attachment) : Prop where
  phase : x.phase = .added
  disconnects : x.disconnects = 0
  covered : Covered x.session

/-- When the steps of a connection are tidy, then by the time it returns `OnDisconnect` was called once, its will
is dealt with, and if its session ends with it nothing of the session is left. -/
theorem torn_down (hx : Attached x) (hr : Runs.Reach Step Tidy x y) (hy : y.phase = .returned) :
    y.disconnects = 1 ∧ y.willDone = true ∧
      (y.session.client.expires = true → y.session.client.isTakenOver = false →
        y.registered = false ∧ NoInflight y.session ∧ Unheld y.session) := by
  have htracked : Tracked y := by
    apply hr.invariant
    · unfold Tracked
      rw [hx.phase]
      exact ⟨hx.disconnects, .inr hx.covered⟩
    · rintro t ⟨env, call⟩ u ht hok rfl
      exact ht.run hok
  unfold Tracked at htracked
  rw [hy] at htracked
  obtain ⟨hdisconnects, hwill, hgone⟩ := htracked
  refine ⟨hdisconnects, hwill, fun hexpires htaken => ?_⟩
  rcases hgone with htaken' | hexpires' | hgone
  · rw [htaken] at htaken'
    cases htaken'
  · rw [hexpires] at hexpires'
    cases hexpires'
  · exact hgone

def justAdded : Attachment := { withWill with phase := .added }

/-- One that continues a session with a subscription and a message under way. -/
def rejoined : Attachment :=
  { withMessage with phase := .added, session := (withMessage.session.addSubscription { filter := [97], qos := 1 }).2 }

theorem attached_rejoined : Attached rejoined := by
  refine ⟨rfl, rfl, Covered.addSubscription (fun a hheld => ?_) _⟩
  have hnone : withMessage.session.server.topics.held a withMessage.session.client.id = none := TopicsIndex.held_new a _
  rw [hnone] at hheld
  cases hheld

def tornDown : Attachment := rejoined.after (.advance :: endOfStream)

theorem reach_tornDown : Runs.Reach Step Tidy rejoined tornDown := by
  have hconnack : ¬ Fails (.encoding 100) rejoined.session (rejoined.session.acceptance true) := by
    decide +kernel
  have hresend : Resendable (.encoding 100) (rejoined.run (.encoding 100) .advance).session :=
    resendable_withMessage
  refine Runs.Reach.replay run (.encoding 100) _ ⟨⟨⟨fun _ => hconnack, nofun⟩, rfl⟩, ⟨⟨nofun, fun _ _ => hresend⟩, rfl⟩,
    ⟨⟨?_, ?_⟩, rfl⟩, ⟨trivial, rfl⟩, ⟨⟨?_, ?_⟩, rfl⟩, ⟨⟨?_, ?_⟩, rfl⟩, ⟨⟨?_, ?_⟩, rfl⟩, ⟨⟨?_, ?_⟩, rfl⟩,
    ⟨⟨?_, ?_⟩, rfl⟩, trivial⟩
  all_goals exact fun hphase => absurd hphase (by decide +kernel)

theorem torn_down_of_endOfStream :
    tornDown.disconnects = 1 ∧ tornDown.willDone = true ∧ tornDown.registered = false ∧
      NoInflight tornDown.session ∧ Unheld tornDown.session := by
  have hdown := torn_down attached_rejoined reach_tornDown (by decide +kernel)
  exact ⟨hdown.1, hdown.2.1, hdown.2.2 (by decide +kernel) (by decide +kernel)⟩

def unanswered : Attachment := justAdded.run brokenEnv .advance

def resumed : Attachment :=
  let continued :=
    { justAdded with
      present := true
      session := { justAdded.session with client := { justAdded.session.client with inflight := busyInflight } } }
  continued.run (.accepting 100) .advance

def unsent : Attachment := resumed.run brokenEnv .advance

theorem advance_of_unsent {err : Error} (hphase : x.phase = .acked) (hpresent : x.present = true)
    (h : x.session.resendInflightMessages env = (some err, s)) : x.advance env = leave env { x with session := s } := by
  unfold advance
  rw [hphase]
  dsimp only
  rw [if_pos hpresent, h]

theorem unsent_eq : unsent = leave brokenEnv
    { resumed with session := (resendLoop brokenEnv [sentMessage] resumed.session).2 } := by
  have hall : resumed.session.client.inflight.getAll brokenEnv.order false = [sentMessage] :=
    Inflight.getAll_of_values _ rfl
  have hresend : resumed.session.resendInflightMessages brokenEnv =
      resendLoop brokenEnv [sentMessage] resumed.session := by
    unfold resendInflightMessages
    rw [hall]
    rfl
  obtain ⟨err, hfailed⟩ : ∃ err, (resendLoop brokenEnv [sentMessage] resumed.session).1 = some err := ⟨_, rfl⟩
  exact advance_of_unsent rfl rfl (hresend.trans (Prod.ext hfailed rfl))

/-- Where the CONNACK or an inherited message cannot be written, nothing is cleaned up: `OnDisconnect` is not called,
the will is neither sent nor cleared, and the client stays registered with its inflight message. -/
theorem left_behind :
    (unanswered.phase = .returned ∧ unanswered.session.client.expires = true ∧
        unanswered.session.client.isTakenOver = false ∧ unanswered.disconnects = 0 ∧ unanswered.willDone = false ∧
        unanswered.registered = true) ∧
      unsent.phase = .returned ∧ unsent.session.client.expires = true ∧ unsent.session.client.isTakenOver = false ∧
        unsent.disconnects = 0 ∧ unsent.willDone = false ∧ unsent.registered = true ∧
        unsent.session.client.inflight.len = 1 := by
  rw [unsent_eq]
  decide +kernel

end Attachment
end Mqtt
