import MqttBroker.Broker.State
import MqttBroker.Library.Takeover
import MqttBroker.Session.Ownership

/-! Connections of one client id whose `attachClient` calls run at the same time.
The steps of `inheritClientSession` and `Clients.Add` and those of the teardown
are taken one by one, in any order among the connections. -/

namespace Mqtt
open FiniteMap Takeover

/-- A call of `attachClient`: its CONNECT, and how far it has come. -/
structure Thread where
  packet : Packet
  phase : Takeover.Phase Nat

structure Race where
  broker : Broker := {}
  threads : List Thread := []

namespace Broker
open Session

def markTakenOver (s : Session) : Session := { s with client := { s.client with isTakenOver := true } }

def transfer (env : Env) (b : Broker) (c e : Nat) (cl existing : Client) : Broker :=
  let (existing, s) := (b.session cl).transfer env existing
  { b with connections := (b.connections.set c s.client).set e existing, server := s.server, log := s.log }

end Broker

namespace Race
open Session
open Broker (clients_on getElem?_on_self getElem?_on_of_ne getElem?_on)

def phase (r : Race) (c : Nat) : Takeover.Phase Nat := (r.threads[c]?.map Thread.phase).getD .absent

def goto (r : Race) (c : Nat) (b : Broker) (p : Takeover.Phase Nat) : Race :=
  { broker := b, threads := r.threads.modify c fun th => { th with phase := p } }

/-- The next step of a call of `attachClient`. The read loop is left by `endRead`. -/
def advance (env : Env) (r : Race) (c : Nat) : Race :=
  match r.threads[c]?, r.broker.connections[c]? with
  | some th, some cl =>
    match th.phase with
    | .arriving => r.goto c r.broker (.got (r.broker.clients.lookup cl.id))
    | .got none => r.goto c r.broker (.ready false)
    | .got (some e) =>
      r.goto c (r.broker.on e fun s => (s.disconnectClient env .sessionTakenOver).2) (.disconnected e)
    | .disconnected e =>
      match r.broker.connections[e]? with
      | none => r
      | some existing =>
        if continues existing th.packet then r.goto c (r.broker.on e Broker.markTakenOver) (.retired e)
        else r.goto c (r.broker.on e fun s => s.unsubscribeClient.clearInflights env) (.released e)
    | .released e => r.goto c (r.broker.on e Broker.markTakenOver) (.ready false)
    | .retired e =>
      match r.broker.connections[e]? with
      | none => r
      | some existing => r.goto c (r.broker.transfer env c e cl existing) (.ready true)
    | .ready present =>
      r.goto c { r.broker with clients := r.broker.clients.insert cl.id c } (.added present)
    | .added present =>
      r.goto c (r.broker.on c (Broker.establish env present))
        (if ((r.broker.session cl).establish env present).1.isSome then .finished else .serving)
    | .ended =>
      if cl.expires && !cl.isTakenOver then r.goto c r.broker .expiring
      else r.goto c (r.broker.on c (·.stop env none)) .finished
    | .expiring => r.goto c (r.broker.on c (Broker.endSession env)) .cleared
    | .cleared =>
      r.goto c ({ r.broker with clients := r.broker.clients.erase cl.id }.on c (·.stop env none)) .finished
    | _ => r
  | _, _ => r

inductive Move where
  | connect (assigned : Bytes) (pk : Packet)
  | advance (c : Nat)
  | endRead (c : Nat) (err : Option Error)
  | subscribe (c : Nat) (sub : Subscription)
  | stop (c : Nat) (err : Option Error)

def Move.run (env : Env) (r : Race) : Move → Race
  | .connect assigned pk =>
    { broker := { r.broker with connections := r.broker.connections ++ [r.broker.parse assigned pk] }
      threads := r.threads ++ [⟨pk, .arriving⟩] }
  | .advance c => r.advance env c
  | .endRead c err =>
    match r.phase c with
    | .serving => r.goto c (r.broker.on c (·.endRead env err)) .ended
    | _ => r
  | .subscribe c sub =>
    match r.phase c with
    | .serving => { r with broker := r.broker.on c fun s => (s.addSubscription sub).2 }
    | _ => r
  | .stop c err => { r with broker := r.broker.on c (·.stop env err) }

/-- All connections have one client id, and a read loop returns without an error only when the
connection is closed. -/
def Move.Step (id : Bytes) (r : Race) (call : Env × Move) (r' : Race) : Prop :=
  (match call.2 with
    | .connect assigned pk => (r.broker.parse assigned pk).id = id
    | .endRead c err => ∀ cl, r.broker.connections[c]? = some cl → err = none → cl.closed = true
    | _ => True) ∧ r' = call.2.run call.1 r

/-- A connection looks up its id, or finds that its session ends with it, only when no connection
is inside its takeover or its teardown. -/
def Move.Exclusive (r : Race) (call : Env × Move) : Prop :=
  match call.2 with
  | .advance c => ∀ cl, r.broker.connections[c]? = some cl →
      r.phase c = .arriving ∨ r.phase c = .ended ∧ cl.expires = true ∧ cl.isTakenOver = false →
        ∀ d, ¬ (r.phase d).InSection
  | _ => True

/-! ### The registry behind it -/

def Intact (id : Bytes) (b : Broker) (c : Nat) : Prop :=
  ∀ cl, b.connections[c]? = some cl → ∀ f ∈ cl.subscriptions, (b.server.topics.held (address f) id).isSome = true

def taken (b : Broker) (c : Nat) : Bool := (b.connections[c]?.map Client.isTakenOver).getD false

def registry (id : Bytes) (r : Race) : Registry Nat :=
  { phase := r.phase, taken := taken r.broker, intact := Intact id r.broker, current := r.broker.clients.lookup id }

/-! ### Changes of the server -/

variable {id : Bytes} {b b' : Broker} {r : Race} {c e : Nat} {f : Session → Session} {p : Takeover.Phase Nat}

theorem length_on (b : Broker) (e : Nat) (f : Session → Session) :
    (b.on e f).connections.length = b.connections.length := by
  unfold Broker.on
  split
  · rfl
  · exact List.length_set

variable {cl' : Client} {except : Nat → Prop}

/-- What happens to the clients of connections while calls are under way. Only the exceptions get
subscriptions, and no connection is opened again. -/
structure Tends (except : Nat → Prop) (b b' : Broker) : Prop where
  length : b'.connections.length = b.connections.length
  client : ∀ (x : Nat) (cl' : Client), b'.connections[x]? = some cl' → ∃ cl, b.connections[x]? = some cl ∧
    cl'.id = cl.id ∧ (cl'.closed = false → cl.closed = false) ∧
      (except x ∨ (cl.subscriptions = ∅ → cl'.subscriptions = ∅))

theorem Tends.refl (except : Nat → Prop) (b : Broker) : Tends except b b :=
  ⟨rfl, fun _ cl' h => ⟨cl', h, rfl, fun hc => hc, .inr fun hs => hs⟩⟩

theorem Tends.stopped {x : Nat} (h : Tends except b b')
    (hstopped : ∀ cl, b.connections[x]? = some cl → cl.closed = true)
    (hx : b'.connections[x]? = some cl') : cl'.closed = true := by
  obtain ⟨cl, hcl, -, hclosed, -⟩ := h.client x cl' hx
  by_contra hopen
  rw [Bool.not_eq_true] at hopen
  have hstop := hstopped cl hcl
  rw [hclosed hopen] at hstop
  cases hstop

theorem tends_on (hid : ∀ s, (f s).client.id = s.client.id)
    (hclosed : ∀ s, (f s).client.closed = false → s.client.closed = false)
    (hsubs : except e ∨ ∀ s, s.client.subscriptions = ∅ → (f s).client.subscriptions = ∅) :
    Tends except b (b.on e f) := by
  refine ⟨length_on b e f, fun x cl' h => ?_⟩
  obtain ⟨-, hcl⟩ | ⟨rfl, cl, hcl, rfl, -⟩ := getElem?_on h
  · exact ⟨cl', hcl, rfl, fun hc => hc, .inr fun hs => hs⟩
  · exact ⟨cl, hcl, hid _, hclosed (b.session cl), hsubs.imp_right fun hs => hs (b.session cl)⟩

theorem tends_aside (except : Nat → Prop) (hf : ∀ s, Aside s (f s)) : Tends except b (b.on e f) := by
  refine tends_on (fun s => (hf s).id) (fun s => (hf s).closed) (.inr fun s hs => ?_)
  rw [(hf s).subscriptions]
  exact hs

theorem Intact.mono
    (hheld : ∀ a, (b.server.topics.held a id).isSome = true → (b'.server.topics.held a id).isSome = true)
    (hsubs : ∀ cl', b'.connections[c]? = some cl' → ∃ cl, b.connections[c]? = some cl ∧
      ∀ f ∈ cl'.subscriptions, f ∈ cl.subscriptions) (h : Intact id b c) : Intact id b' c := by
  intro cl' hcl' f hf
  obtain ⟨cl, hcl, hmem⟩ := hsubs cl' hcl'
  exact hheld _ (h cl hcl f (hmem f hf))

theorem intact_on (hheld : ∀ s a, (f s).server.topics.held a id = s.server.topics.held a id)
    (hsubs : ∀ s, (f s).client.subscriptions = s.client.subscriptions) (x : Nat) (h : Intact id b x) :
    Intact id (b.on e f) x := by
  refine h.mono ?_ ?_
  · intro a ha
    unfold Broker.on
    split
    · exact ha
    · rename_i cl hcl
      show ((f (b.session cl)).server.topics.held a id).isSome = true
      rw [hheld]
      exact ha
  · intro cl' hcl'
    obtain ⟨-, hcl⟩ | ⟨rfl, cl, hcl, rfl, -⟩ := getElem?_on hcl'
    · exact ⟨cl', hcl, fun f hf => hf⟩
    · refine ⟨cl, hcl, ?_⟩
      rw [hsubs]
      exact fun f hf => hf

theorem intact_aside (hf : ∀ s, Aside s (f s)) (x : Nat) (h : Intact id b x) : Intact id (b.on e f) x :=
  intact_on (fun s a => (hf s).held a id) (fun s => (hf s).subscriptions) x h

theorem intact_of_empty (h : ∀ cl, b.connections[c]? = some cl → cl.subscriptions = ∅) : Intact id b c := by
  intro cl hcl f hf
  rw [h cl hcl] at hf
  exact absurd hf (AList.notMem_empty f)

theorem taken_congr (hlength : b'.connections.length = b.connections.length)
    (h : ∀ (x : Nat) (cl' : Client), b'.connections[x]? = some cl' →
      ∃ cl, b.connections[x]? = some cl ∧ cl'.isTakenOver = cl.isTakenOver) : taken b' = taken b := by
  funext x
  unfold taken
  cases hx : b'.connections[x]? with
  | none =>
    rw [List.getElem?_eq_none_iff] at hx
    rw [List.getElem?_eq_none (hlength ▸ hx)]
  | some cl' =>
    obtain ⟨cl, hcl, htaken⟩ := h x cl' hx
    rw [hcl]
    exact htaken

theorem taken_on (hf : ∀ s, (f s).client.isTakenOver = s.client.isTakenOver) : taken (b.on e f) = taken b := by
  refine taken_congr (length_on b e f) fun x cl' hx => ?_
  obtain ⟨-, hcl⟩ | ⟨rfl, cl, hcl, rfl, -⟩ := getElem?_on hx
  · exact ⟨cl', hcl, rfl⟩
  · exact ⟨cl, hcl, hf _⟩

theorem taken_mark (he : e < b.connections.length) :
    taken (b.on e Broker.markTakenOver) = Function.update (taken b) e true := by
  funext x
  unfold taken
  by_cases hx : x = e
  · subst hx
    rw [getElem?_on_self (List.getElem?_eq_getElem he), Function.update_self]
    rfl
  · rw [Function.update_of_ne hx, getElem?_on_of_ne (Ne.symm hx)]

theorem intact_mark (x : Nat) (h : Intact id b x) : Intact id (b.on e Broker.markTakenOver) x :=
  intact_on (f := Broker.markTakenOver) (fun _ _ => rfl) (fun _ => rfl) x h

/-! ### Transfers -/

theorem held_addAll (es : List (Σ _ : Bytes, Subscription)) (s : Session) :
    let t := es.foldl (fun s e => (s.addSubscription e.2).2) s
    (∀ a client, (s.server.topics.held a client).isSome = true → (t.server.topics.held a client).isSome = true) ∧
      ((∀ f ∈ s.client.subscriptions, (s.server.topics.held (address f) s.client.id).isSome = true) →
        ∀ f ∈ t.client.subscriptions, (t.server.topics.held (address f) s.client.id).isSome = true) := by
  intro t
  obtain ⟨hclient, hheld, -⟩ := foldl_addSubscription es s
  have hgrow : ∀ a client, (s.server.topics.held a client).isSome = true →
      (t.server.topics.held a client).isSome = true := by
    intro a client h
    rcases hheld a client with ⟨-, e, -, -, hsome⟩ | ⟨-, hsame⟩
    · exact hsome ▸ rfl
    · exact hsame ▸ h
  refine ⟨hgrow, fun h f hf => ?_⟩
  rw [hclient] at hf
  rcases (mem_foldl_insert _ _ _ _ f).mp hf with hf | ⟨e, he, rfl⟩
  · exact hgrow _ _ (h f hf)
  · rcases hheld (address e.2.filter) s.client.id with ⟨-, e', -, -, hsome⟩ | ⟨hnever, -⟩
    · exact hsome ▸ rfl
    · exact absurd rfl (hnever rfl e he)

theorem transfer_facts (env : Env) {cl existing : Client} (hce : c ≠ e) (hcl : b.connections[c]? = some cl)
    (he : b.connections[e]? = some existing) (htaken : existing.isTakenOver = true) (hid : cl.id = id)
    (hsubs : cl.subscriptions = ∅) :
    Tends (· = c) b (b.transfer env c e cl existing) ∧ taken (b.transfer env c e cl existing) = taken b ∧
      Intact id (b.transfer env c e cl existing) c ∧
      ∀ x, Intact id b x → Intact id (b.transfer env c e cl existing) x := by
  let s := b.session { cl with inflight := inheritInflight b.server.caps existing.inflight cl }
  obtain ⟨hclient, -, -⟩ := foldl_addSubscription existing.subscriptions.entries s
  obtain ⟨hgrow, hall⟩ := held_addAll existing.subscriptions.entries s
  generalize ht : existing.subscriptions.entries.foldl (fun s e => (s.addSubscription e.2).2) s = t
    at hclient hgrow hall
  have htransfer : b.transfer env c e cl existing = { b with
      connections := (b.connections.set c t.client).set e
        { existing with subscriptions := ∅, inflight := resetInflights env existing.inflight }
      server := t.server
      log := t.log } := by
    unfold Broker.transfer
    rw [transfer_of_isTakenOver htaken, ← ht]
    rfl
  -- the connection that takes over, the existing one without its holdings, and all others
  have hcases : ∀ (x : Nat) (cl' : Client), (b.transfer env c e cl existing).connections[x]? = some cl' →
      x = e ∧ cl' = { existing with subscriptions := ∅, inflight := resetInflights env existing.inflight } ∨
        x = c ∧ cl' = t.client ∨ x ≠ e ∧ x ≠ c ∧ b.connections[x]? = some cl' := by
    intro x cl' hx
    rw [htransfer] at hx
    obtain h | ⟨hxe, hx⟩ := Runs.getElem?_set_cases hx
    · exact .inl h
    · exact .inr ((Runs.getElem?_set_cases hx).imp (fun h => h) fun h => ⟨hxe, h⟩)
  have hlength : (b.transfer env c e cl existing).connections.length = b.connections.length := by
    rw [htransfer]
    exact List.length_set.trans List.length_set
  have hserver : (b.transfer env c e cl existing).server = t.server := by rw [htransfer]
  generalize b.transfer env c e cl existing = b' at hcases hlength hserver
  have hintact : Intact id b' c := by
    intro cl' hcl' f hf
    rcases hcases c cl' hcl' with ⟨hx, -⟩ | ⟨-, rfl⟩ | ⟨-, hx, -⟩
    · exact absurd hx hce
    · rw [hserver, ← hid]
      refine hall (fun f hf => absurd hf ?_) f hf
      show f ∉ cl.subscriptions
      rw [hsubs]
      exact AList.notMem_empty f
    · exact absurd rfl hx
  refine ⟨⟨hlength, ?_⟩, ?_, hintact, ?_⟩
  · intro x cl' hx
    rcases hcases x cl' hx with ⟨rfl, rfl⟩ | ⟨rfl, rfl⟩ | ⟨-, -, hold⟩
    · exact ⟨existing, he, rfl, fun hc => hc, .inr fun _ => rfl⟩
    · refine ⟨cl, hcl, ?_, ?_, .inl rfl⟩
      · rw [hclient]
        rfl
      · rw [hclient]
        exact fun hc => hc
    · exact ⟨cl', hold, rfl, fun hc => hc, .inr fun hs => hs⟩
  · refine taken_congr hlength fun x cl' hx => ?_
    rcases hcases x cl' hx with ⟨rfl, rfl⟩ | ⟨rfl, rfl⟩ | ⟨-, -, hold⟩
    · exact ⟨existing, he, rfl⟩
    · exact ⟨cl, hcl, by rw [hclient]; rfl⟩
    · exact ⟨cl', hold, rfl⟩
  · intro x h
    by_cases hxc : x = c
    · rw [hxc]
      exact hintact
    · refine h.mono (fun a ha => hserver ▸ hgrow a id ha) fun cl' hx => ?_
      rcases hcases x cl' hx with ⟨rfl, rfl⟩ | ⟨hx, -⟩ | ⟨-, -, hold⟩
      · exact ⟨existing, he, fun f hf => absurd hf (AList.notMem_empty f)⟩
      · exact absurd hx hxc
      · exact ⟨cl', hold, fun f hf => hf⟩

/-! ### Steps -/

def Early : Takeover.Phase Nat → Prop
  | .arriving => True
  | .got _ => True
  | .disconnected _ => True
  | .released _ => True
  | .retired _ => True
  | _ => False

def Refers (e : Nat) : Takeover.Phase Nat → Prop
  | .got existing => existing = some e
  | .disconnected e' => e' = e
  | .released e' => e' = e
  | .retired e' => e' = e
  | _ => False

/-- Every connection has a call and the client id. It has no subscriptions before it takes over, and
it is closed when its call has returned. -/
structure Wf (id : Bytes) (r : Race) : Prop where
  length : r.threads.length = r.broker.connections.length
  ids : ∀ (c : Nat) (cl : Client), r.broker.connections[c]? = some cl → cl.id = id
  early : ∀ (c : Nat) (cl : Client), r.broker.connections[c]? = some cl → Early (r.phase c) → cl.subscriptions = ∅
  refers : ∀ c e, Refers e (r.phase c) → e < r.broker.connections.length
  current : ∀ e, r.broker.clients.lookup id = some e → e < r.broker.connections.length
  stopped : ∀ (c : Nat) (cl : Client), r.broker.connections[c]? = some cl → r.phase c = .finished → cl.closed = true

theorem phase_of_thread {th : Thread} (h : r.threads[c]? = some th) : r.phase c = th.phase := by
  unfold phase
  rw [h]
  rfl

theorem phase_goto {th : Thread} (h : r.threads[c]? = some th) :
    (r.goto c b p).phase = Function.update r.phase c p := by
  funext x
  unfold phase goto
  dsimp only
  rw [List.getElem?_modify]
  by_cases hx : x = c
  · subst hx
    rw [Function.update_self, h]
    simp
  · rw [Function.update_of_ne hx]
    cases r.threads[x]? with
    | none => rfl
    | some th' => simp [Ne.symm hx]

theorem registry_goto {th : Thread} (h : r.threads[c]? = some th) : registry id (r.goto c b p) =
    { phase := Function.update r.phase c p
      taken := taken b
      intact := Intact id b
      current := b.clients.lookup id } := by
  unfold registry
  rw [phase_goto h]
  rfl

theorem Wf.goto (h : Wf id r) {th : Thread} (hth : r.threads[c]? = some th)
    (hb : Tends except r.broker b) (hexcept : ∀ x, except x → x = c ∧ ¬ Early p)
    (hearly : Early p → Early (r.phase c)) (hrefers : ∀ e, Refers e p → e < r.broker.connections.length)
    (hcurrent : ∀ e, b.clients.lookup id = some e → e < r.broker.connections.length)
    (hstopped : p = .finished → ∀ cl, b.connections[c]? = some cl → cl.closed = true) : Wf id (r.goto c b p) := by
  have hphase := phase_goto (b := b) (p := p) hth
  refine ⟨?_, ?_, ?_, ?_, ?_, ?_⟩
  · show (r.threads.modify c _).length = b.connections.length
    rw [List.length_modify, hb.length]
    exact h.length
  · intro x cl' hx
    obtain ⟨cl, hcl, hid, -⟩ := hb.client x cl' hx
    exact hid.trans (h.ids x cl hcl)
  · rw [hphase]
    refine (Function.forall_update_iff r.phase fun x q => ∀ cl' : Client, b.connections[x]? = some cl' → Early q →
      cl'.subscriptions = ∅).mpr ⟨fun cl' hx hp => ?_, fun x hxc cl' hx hp => ?_⟩
    · obtain ⟨cl, hcl, -, -, hsubs⟩ := hb.client c cl' hx
      exact hsubs.resolve_left (fun hx => (hexcept c hx).2 hp) (h.early c cl hcl (hearly hp))
    · obtain ⟨cl, hcl, -, -, hsubs⟩ := hb.client x cl' hx
      exact hsubs.resolve_left (fun hx => hxc (hexcept x hx).1) (h.early x cl hcl hp)
  · show ∀ x e, Refers e ((r.goto c b p).phase x) → e < b.connections.length
    rw [hphase, hb.length]
    exact (Function.forall_update_iff r.phase fun _ q => ∀ e, Refers e q → e < r.broker.connections.length).mpr
      ⟨hrefers, fun x _ => h.refers x⟩
  · intro e he
    show e < b.connections.length
    rw [hb.length]
    exact hcurrent e he
  · rw [hphase]
    exact (Function.forall_update_iff r.phase fun x q => ∀ cl' : Client, b.connections[x]? = some cl' → q = .finished →
      cl'.closed = true).mpr ⟨fun cl' hx hp => hstopped hp cl' hx,
        fun x _ cl' hx hp => hb.stopped (fun cl hcl => h.stopped x cl hcl hp) hx⟩

theorem orderly_goto (h : Orderly (registry id r)) {th : Thread} (hth : r.threads[c]? = some th)
    (hkeep : ∀ x, Intact id r.broker x → Intact id b x)
    (hstep : Takeover.Step { registry id r with intact := Intact id b }
      { phase := Function.update r.phase c p
        taken := taken b
        intact := Intact id b
        current := b.clients.lookup id }) : Orderly (registry id (r.goto c b p)) := by
  rw [registry_goto hth]
  exact (h.step (.acquire (Intact id b) hkeep)).step hstep

theorem orderly_between (h : Orderly (registry id r)) (hkeep : ∀ x, Intact id r.broker x → Intact id b x)
    (htaken : taken b = taken r.broker) (hclients : b.clients = r.broker.clients) :
    Orderly (registry id { r with broker := b }) := by
  have hregistry : registry id { r with broker := b } = { registry id r with intact := Intact id b } := by
    unfold registry
    dsimp only
    rw [htaken, hclients]
    rfl
  rw [hregistry]
  exact h.step (.acquire (Intact id b) hkeep)

structure Sound (id : Bytes) (r : Race) : Prop where
  wf : Wf id r
  orderly : Orderly (registry id r)

variable {env : Env} {th : Thread} {cl : Client}

theorem Wf.intact_early (h : Wf id r) (hearly : Early (r.phase c)) : Intact id r.broker c :=
  intact_of_empty fun cl hcl => h.early c cl hcl hearly

theorem Wf.goto_same (h : Wf id r) (hth : r.threads[c]? = some th) (hearly : Early p → Early (r.phase c))
    (hrefers : ∀ e, Refers e p → e < r.broker.connections.length) (hp : p ≠ .finished) : Wf id (r.goto c r.broker p) :=
  h.goto hth (.refl (fun _ => False) _) (fun _ hx => hx.elim) hearly hrefers h.current fun hfinished =>
    absurd hfinished hp

theorem Wf.goto_on (h : Wf id r) (hth : r.threads[c]? = some th) {f : Session → Session}
    (hb : Tends (fun _ => False) r.broker (r.broker.on e f)) (hearly : Early p → Early (r.phase c))
    (hrefers : ∀ e, Refers e p → e < r.broker.connections.length) (hp : p ≠ .finished) :
    Wf id (r.goto c (r.broker.on e f) p) := by
  refine h.goto hth hb (fun _ hx => hx.elim) hearly hrefers ?_ fun hfinished => absurd hfinished hp
  rw [clients_on]
  exact h.current

theorem tends_mark : Tends (fun _ => False) b (b.on e Broker.markTakenOver) :=
  tends_on (fun _ => rfl) (fun _ hc => hc) (.inr fun _ hs => hs)

theorem aside_establishOrStop (env : Env) (present : Bool) (s : Session) :
    Aside s (Broker.establish env present s) := by
  have hestablish := aside_establish env s present
  unfold Broker.establish
  split
  · rename_i heq
    rw [heq] at hestablish
    exact hestablish.trans (aside_stop env _ none)
  · rename_i heq
    rw [heq] at hestablish
    exact hestablish

section Steps
variable (h : Sound id r) (hth : r.threads[c]? = some th)
include h hth

theorem Sound.lookUp (hcl : r.broker.connections[c]? = some cl) (hphase : r.phase c = .arriving)
    (hnone : ∀ d, ¬ (r.phase d).InSection) :
    Sound id (r.goto c r.broker (.got (r.broker.clients.lookup cl.id))) := by
  have hid := h.wf.ids c cl hcl
  subst hid
  refine ⟨h.wf.goto_same hth (fun _ => ?_) h.wf.current nofun, ?_⟩
  · rw [hphase]
    trivial
  · exact orderly_goto h.orderly hth (fun _ hx => hx) (.get c hphase hnone)

theorem Sound.startFresh (hphase : r.phase c = .got none) : Sound id (r.goto c r.broker (.ready false)) := by
  have hintact : Intact id r.broker c := h.wf.intact_early (by rw [hphase]; trivial)
  refine ⟨h.wf.goto_same hth (fun hp => hp.elim) (fun _ he => he.elim) nofun, ?_⟩
  exact orderly_goto h.orderly hth (fun _ hx => hx) (.fresh c hphase hintact)

theorem Sound.disconnect (hphase : r.phase c = .got (some e)) :
    Sound id (r.goto c (r.broker.on e fun s => (s.disconnectClient env .sessionTakenOver).2) (.disconnected e)) := by
  have haside : ∀ s : Session, Aside s (s.disconnectClient env .sessionTakenOver).2 :=
    fun s => aside_disconnectClient env s .sessionTakenOver
  have he : e < r.broker.connections.length := h.wf.refers c e (by rw [hphase]; rfl)
  refine ⟨h.wf.goto_on hth (tends_aside _ haside) (fun _ => ?_) (fun _ heq => heq ▸ he) nofun, ?_⟩
  · rw [hphase]
    trivial
  · refine orderly_goto h.orderly hth (intact_aside haside) ?_
    rw [taken_on fun s => (haside s).isTakenOver, clients_on]
    exact .disconnect c e hphase

/-! Where the session is not continued, what the existing client holds is removed first. -/

theorem Sound.goto_emptied {f : Session → Session}
    (hclosed : ∀ s, (f s).client.closed = false → s.client.closed = false)
    (hf : ∀ s, (f s).client.id = s.client.id ∧ (f s).client.isTakenOver = s.client.isTakenOver ∧
      (f s).client.subscriptions = ∅) (hearly : Early p → Early (r.phase c))
    (hrefers : ∀ e, Refers e p → e < r.broker.connections.length) (hp : p ≠ .finished)
    (hstep : ∀ intact : Nat → Prop, intact e → Takeover.Step (registry id r)
      { registry id r with phase := Function.update r.phase c p, intact := intact }) :
    Sound id (r.goto c (r.broker.on e f) p) := by
  have htends : Tends (fun _ => False) r.broker (r.broker.on e f) :=
    tends_on (fun s => (hf s).1) hclosed (.inr fun s _ => (hf s).2.2)
  refine ⟨h.wf.goto_on hth htends hearly hrefers hp, ?_⟩
  rw [registry_goto hth, clients_on, taken_on fun s => (hf s).2.1]
  refine h.orderly.step (hstep _ (intact_of_empty fun cl' hcl' => ?_))
  obtain ⟨hne, -⟩ | ⟨-, cl, -, rfl, -⟩ := getElem?_on hcl'
  · exact absurd rfl hne
  · exact (hf _).2.2

theorem Sound.release (hphase : r.phase c = .disconnected e) :
    Sound id (r.goto c (r.broker.on e fun s => s.unsubscribeClient.clearInflights env) (.released e)) := by
  have hclear : ∀ s : Session, Aside s.unsubscribeClient (s.unsubscribeClient.clearInflights env) :=
    fun s => aside_clearInflights env _
  have he : e < r.broker.connections.length := h.wf.refers c e (by rw [hphase]; rfl)
  refine h.goto_emptied hth (fun s hc => ?_) (fun s => ?_) (fun _ => ?_) (fun _ heq => heq ▸ he) nofun
    (.release c e hphase)
  · have hopen := (hclear s).closed hc
    rw [unsubscribeClient_client] at hopen
    exact hopen
  · rw [(hclear s).id, (hclear s).isTakenOver, (hclear s).subscriptions, unsubscribeClient_client]
    exact ⟨rfl, rfl, rfl⟩
  · rw [hphase]
    trivial

theorem Sound.retireReleased (hphase : r.phase c = .released e) :
    Sound id (r.goto c (r.broker.on e Broker.markTakenOver) (.ready false)) := by
  have he : e < r.broker.connections.length := h.wf.refers c e (by rw [hphase]; rfl)
  have hintact : Intact id r.broker c := h.wf.intact_early (by rw [hphase]; trivial)
  refine ⟨h.wf.goto_on hth tends_mark (fun hp => hp.elim) (fun _ he => he.elim) nofun, ?_⟩
  refine orderly_goto h.orderly hth intact_mark ?_
  rw [taken_mark he, clients_on]
  exact .retireReleased c e hphase (intact_mark c hintact)

/-! Where it is continued, the existing client is marked first and its holdings pass to the new one. -/

theorem Sound.retire (hphase : r.phase c = .disconnected e) :
    Sound id (r.goto c (r.broker.on e Broker.markTakenOver) (.retired e)) := by
  have he : e < r.broker.connections.length := h.wf.refers c e (by rw [hphase]; rfl)
  refine ⟨h.wf.goto_on hth tends_mark (fun _ => ?_) (fun _ heq => heq ▸ he) nofun, ?_⟩
  · rw [hphase]
    trivial
  · refine orderly_goto h.orderly hth intact_mark ?_
    rw [taken_mark he, clients_on]
    exact .retire c e hphase

theorem Sound.transfer (hcl : r.broker.connections[c]? = some cl) {existing : Client}
    (he : r.broker.connections[e]? = some existing) (hphase : r.phase c = .retired e) :
    Sound id (r.goto c (r.broker.transfer env c e cl existing) (.ready true)) := by
  have hsubs : cl.subscriptions = ∅ := h.wf.early c cl hcl (by rw [hphase]; trivial)
  have hknows : r.broker.clients.lookup id = some e ∧ taken r.broker e = true := h.orderly.knows_at hphase
  have hce : c ≠ e := by
    rintro rfl
    have hregistered := h.orderly.current c hknows.1
    change (r.phase c).Registered ∨ r.phase c = .finished at hregistered
    rw [hphase] at hregistered
    exact hregistered.elim (fun hp => hp) nofun
  have hmarked : existing.isTakenOver = true := by
    have htaken := hknows.2
    unfold taken at htaken
    rw [he] at htaken
    exact htaken
  obtain ⟨htends, htaken, hintact, hkeep⟩ := transfer_facts env hce hcl he hmarked (h.wf.ids c cl hcl) hsubs
  refine ⟨h.wf.goto hth htends (fun _ hx => ⟨hx, fun hp => hp⟩) (fun hp => hp.elim) (fun _ he => he.elim)
    h.wf.current nofun, ?_⟩
  refine orderly_goto h.orderly hth hkeep ?_
  rw [htaken]
  exact .transfer c e hphase _ hintact fun _ hx => hx

variable {present : Bool}

theorem Sound.add (hcl : r.broker.connections[c]? = some cl) (hphase : r.phase c = .ready present) :
    Sound id (r.goto c { r.broker with clients := r.broker.clients.insert cl.id c } (.added present)) := by
  have hid := h.wf.ids c cl hcl
  have hlookup : (r.broker.clients.insert cl.id c).lookup id = some c := by
    rw [lookup_insert_eq, if_pos hid.symm]
  have htends : Tends (fun _ => False) r.broker { r.broker with clients := r.broker.clients.insert cl.id c } :=
    ⟨rfl, fun _ cl' hcl' => ⟨cl', hcl', rfl, fun hc => hc, .inr fun hs => hs⟩⟩
  refine ⟨h.wf.goto hth htends (fun _ hx => hx.elim) (fun hp => hp.elim) (fun _ he => he.elim) ?_ nofun, ?_⟩
  · intro e he
    cases hlookup.symm.trans he
    exact (List.getElem?_eq_some_iff.mp hcl).1
  · refine orderly_goto h.orderly hth (fun _ hx => hx) ?_
    dsimp only
    rw [hlookup]
    exact .add c present hphase

/-! ### The read loop and the teardown -/

theorem Sound.goto_aside {f : Session → Session} (hf : ∀ s, Aside s (f s))
    (hp : ¬ Early p) (hrefers : ∀ e, ¬ Refers e p)
    (hstopped : p = .finished → ∀ cl, r.broker.connections[c]? = some cl →
      (f (r.broker.session cl)).client.closed = true)
    (hstep : ∀ intact : Nat → Prop, Takeover.Step { registry id r with intact := intact }
      { registry id r with phase := Function.update r.phase c p, intact := intact }) :
    Sound id (r.goto c (r.broker.on c f) p) := by
  refine ⟨h.wf.goto hth (tends_aside (fun _ => False) hf) (fun _ hx => hx.elim) (fun hearly => absurd hearly hp)
    (fun e he => absurd he (hrefers e)) ?_ ?_, ?_⟩
  · rw [clients_on]
    exact h.wf.current
  · intro hfinished cl' hcl'
    obtain ⟨hne, -⟩ | ⟨-, cl, hcl, rfl, -⟩ := getElem?_on hcl'
    · exact absurd rfl hne
    · exact hstopped hfinished cl hcl
  · refine orderly_goto h.orderly hth (intact_aside hf) ?_
    rw [taken_on fun s => (hf s).isTakenOver, clients_on]
    exact hstep _

theorem Sound.establish (hcl : r.broker.connections[c]? = some cl)
    (hphase : r.phase c = .added present) :
    Sound id (r.goto c (r.broker.on c (Broker.establish env present))
      (if ((r.broker.session cl).establish env present).1.isSome then .finished else .serving)) := by
  have haside := aside_establishOrStop env present
  split
  · rename_i hfailed
    refine h.goto_aside hth haside (fun hp => hp) (fun _ hp => hp) ?_ fun intact => .abort c present hphase
    intro _ cl' hcl'
    cases hcl.symm.trans hcl'
    unfold Broker.establish
    split
    · exact closed_stop env _ none
    · rename_i heq
      rw [heq] at hfailed
      cases hfailed
  · exact h.goto_aside hth haside (fun hp => hp) (fun _ hp => hp) nofun fun intact => .establish c present hphase

theorem Sound.test (hcl : r.broker.connections[c]? = some cl) (hphase : r.phase c = .ended)
    (hnone : cl.expires = true → cl.isTakenOver = false → ∀ d, ¬ (r.phase d).InSection) :
    Sound id (if cl.expires && !cl.isTakenOver then r.goto c r.broker .expiring
      else r.goto c (r.broker.on c (·.stop env none)) .finished) := by
  split
  · rename_i htest
    rw [Bool.and_eq_true, Bool.not_eq_true'] at htest
    have htaken : taken r.broker c = false := by
      unfold taken
      rw [hcl]
      exact htest.2
    refine ⟨h.wf.goto_same hth (fun hp => hp.elim) (fun _ he => he.elim) nofun, ?_⟩
    exact orderly_goto h.orderly hth (fun _ hx => hx) (.expire c hphase htaken (hnone htest.1 htest.2))
  · exact h.goto_aside hth (fun s => aside_stop env s none) (fun hp => hp) (fun _ hp => hp)
      (fun _ _ _ => closed_stop env _ none) fun intact => .stay c hphase

theorem Sound.clear (hphase : r.phase c = .expiring) :
    Sound id (r.goto c (r.broker.on c (Broker.endSession env)) .cleared) := by
  have hclient : ∀ s : Session, (Broker.endSession env s).client =
      { (s.clearInflights env).client with subscriptions := ∅ } := fun s => unsubscribeClient_client _
  refine h.goto_emptied hth (fun s hc => ?_) (fun s => ?_) (fun hp => hp.elim) (fun _ he => he.elim) nofun
    (.clear c hphase)
  · rw [hclient] at hc
    exact (aside_clearInflights env s).closed hc
  · rw [hclient]
    exact ⟨(aside_clearInflights env s).id, (aside_clearInflights env s).isTakenOver, rfl⟩

theorem Sound.delete (hcl : r.broker.connections[c]? = some cl) (hphase : r.phase c = .cleared) :
    Sound id (r.goto c ({ r.broker with clients := r.broker.clients.erase cl.id }.on c (·.stop env none))
      .finished) := by
  have haside : ∀ s : Session, Aside s (s.stop env none) := fun s => aside_stop env s none
  have hlookup : (r.broker.clients.erase cl.id).lookup id = none := by
    rw [lookup_erase_eq, if_pos (h.wf.ids c cl hcl).symm]
  have herase : Tends (fun _ => False) r.broker
      ({ r.broker with clients := r.broker.clients.erase cl.id }.on c (·.stop env none)) :=
    have ht : Tends (fun _ => False) { r.broker with clients := r.broker.clients.erase cl.id } _ :=
      tends_aside (e := c) _ haside
    ⟨ht.length, ht.client⟩
  refine ⟨h.wf.goto hth herase (fun _ hx => hx.elim) (fun hp => hp.elim) (fun _ he => he.elim) ?_ ?_, ?_⟩
  · rw [clients_on]
    intro e he
    exact absurd (hlookup.symm.trans he) nofun
  · intro _ cl' hcl'
    obtain ⟨hne, -⟩ | ⟨-, cl, hcl, rfl, -⟩ := getElem?_on hcl'
    · exact absurd rfl hne
    · exact closed_stop env _ none
  · refine orderly_goto h.orderly hth ?_ ?_
    · exact fun x hx => intact_aside (b := { r.broker with clients := r.broker.clients.erase cl.id }) haside x hx
    · rw [taken_on fun s => (haside s).isTakenOver, clients_on]
      dsimp only
      rw [hlookup]
      exact .delete c hphase

end Steps

theorem Sound.advance (h : Sound id r) (hex : Move.Exclusive r (env, .advance c)) : Sound id (r.advance env c) := by
  unfold Race.advance
  split
  · rename_i th cl hth hcl
    have hphase := phase_of_thread hth
    have hnone := hex cl hcl
    split
    · rename_i hp
      exact h.lookUp hth hcl (hphase.trans hp) (hnone (.inl (hphase.trans hp)))
    · rename_i hp
      exact h.startFresh hth (hphase.trans hp)
    · rename_i e hp
      exact h.disconnect hth (hphase.trans hp)
    · rename_i e hp
      split
      · exact h
      · split
        · exact h.retire hth (hphase.trans hp)
        · exact h.release hth (hphase.trans hp)
    · rename_i e hp
      exact h.retireReleased hth (hphase.trans hp)
    · rename_i e hp
      split
      · exact h
      · rename_i existing he
        exact h.transfer hth hcl he (hphase.trans hp)
    · rename_i present hp
      exact h.add hth hcl (hphase.trans hp)
    · rename_i present hp
      exact h.establish hth hcl (hphase.trans hp)
    · rename_i hp
      have hended := hphase.trans hp
      exact h.test hth hcl hended fun hexpires htaken => hnone (.inr ⟨hended, hexpires, htaken⟩)
    · rename_i hp
      exact h.clear hth (hphase.trans hp)
    · rename_i hp
      exact h.delete hth hcl (hphase.trans hp)
    · exact h
  · exact h

/-! ### Between the steps of the calls -/

theorem Wf.between (h : Wf id r) (hb : Tends except r.broker b)
    (hexcept : ∀ x, except x → ¬ Early (r.phase x)) (hclients : b.clients = r.broker.clients) :
    Wf id { r with broker := b } := by
  refine ⟨?_, ?_, ?_, ?_, ?_, ?_⟩
  · exact h.length.trans hb.length.symm
  · intro x cl' hx
    obtain ⟨cl, hcl, hid, -⟩ := hb.client x cl' hx
    exact hid.trans (h.ids x cl hcl)
  · intro x cl' hx hp
    obtain ⟨cl, hcl, -, -, hsubs⟩ := hb.client x cl' hx
    exact hsubs.resolve_left (fun hx => hexcept x hx hp) (h.early x cl hcl hp)
  · intro x e hx
    show e < b.connections.length
    rw [hb.length]
    exact h.refers x e hx
  · intro e he
    show e < b.connections.length
    rw [hb.length]
    refine h.current e ?_
    rw [← hclients]
    exact he
  · intro x cl' hx hp
    exact hb.stopped (fun cl hcl => h.stopped x cl hcl hp) hx

theorem Sound.stop (h : Sound id r) (c : Nat) (err : Option Error) :
    Sound id { r with broker := r.broker.on c (·.stop env err) } := by
  have haside : ∀ s : Session, Aside s (s.stop env err) := fun s => aside_stop env s err
  refine ⟨h.wf.between (tends_aside (fun _ => False) haside) (fun _ hx => hx.elim) (clients_on _ _ _), ?_⟩
  exact orderly_between h.orderly (intact_aside haside) (taken_on fun s => (haside s).isTakenOver) (clients_on _ _ _)

theorem Sound.subscribe (h : Sound id r) (hphase : r.phase c = .serving) (sub : Subscription) :
    Sound id { r with broker := r.broker.on c fun s => (s.addSubscription sub).2 } := by
  have htends : Tends (· = c) r.broker (r.broker.on c fun s => (s.addSubscription sub).2) :=
    tends_on (fun _ => rfl) (fun _ hc => hc) (.inl rfl)
  have hgrow : ∀ a, (r.broker.server.topics.held a id).isSome = true →
      ((r.broker.on c fun s => (s.addSubscription sub).2).server.topics.held a id).isSome = true := by
    intro a ha
    unfold Broker.on
    split
    · exact ha
    · exact (held_addAll [⟨sub.filter, sub⟩] _).1 a id ha
  refine ⟨h.wf.between htends ?_ (clients_on _ _ _),
    orderly_between h.orderly ?_ (taken_on fun _ => rfl) (clients_on _ _ _)⟩
  · rintro x rfl
    rw [hphase]
    exact fun hp => hp
  · intro x hx cl' hcl' f hf
    obtain ⟨-, hold⟩ | ⟨rfl, cl, hcl, rfl, hserver⟩ := getElem?_on hcl'
    · exact hgrow _ (hx cl' hold f hf)
    · have hid := h.wf.ids x cl hcl
      have hall := (held_addAll [⟨sub.filter, sub⟩] (r.broker.session cl)).2
      rw [hserver, ← hid]
      refine hall (fun f hf => ?_) f hf
      have hheld := hx cl hcl f hf
      rw [← hid] at hheld
      exact hheld

section Connect
variable (env : Env) (r : Race) (assigned : Bytes) (pk : Packet)

theorem phase_connect : (Move.run env r (.connect assigned pk)).phase =
    Function.update r.phase r.threads.length .arriving := by
  funext x
  show (((r.threads ++ [⟨pk, .arriving⟩])[x]?).map Thread.phase).getD .absent = _
  rcases lt_trichotomy x r.threads.length with hlt | rfl | hgt
  · rw [List.getElem?_append_left hlt, Function.update_of_ne (Nat.ne_of_lt hlt)]
    rfl
  · rw [List.getElem?_concat_length, Function.update_self]
    rfl
  · rw [Function.update_of_ne (Nat.ne_of_gt hgt)]
    unfold phase
    rw [List.getElem?_eq_none (by rw [List.length_append]; exact hgt), List.getElem?_eq_none (Nat.le_of_lt hgt)]

theorem taken_connect : taken (Move.run env r (.connect assigned pk)).broker = taken r.broker := by
  funext x
  show (((r.broker.connections ++ [r.broker.parse assigned pk])[x]?).map _).getD false = _
  unfold taken
  rcases lt_trichotomy x r.broker.connections.length with hlt | rfl | hgt
  · rw [List.getElem?_append_left hlt]
  · rw [List.getElem?_concat_length, List.getElem?_eq_none (Nat.le_refl _)]
    rfl
  · rw [List.getElem?_eq_none (by rw [List.length_append]; exact hgt), List.getElem?_eq_none (Nat.le_of_lt hgt)]

variable {env r assigned pk}

theorem connect_cases (h : Wf id r) {x : Nat} {cl : Client}
    (hx : (Move.run env r (.connect assigned pk)).broker.connections[x]? = some cl) :
    r.broker.connections[x]? = some cl ∧ (Move.run env r (.connect assigned pk)).phase x = r.phase x ∨
      cl = r.broker.parse assigned pk ∧ (Move.run env r (.connect assigned pk)).phase x = .arriving := by
  rw [phase_connect, h.length]
  change (r.broker.connections ++ [r.broker.parse assigned pk])[x]? = some cl at hx
  rcases lt_trichotomy x r.broker.connections.length with hlt | rfl | hgt
  · rw [List.getElem?_append_left hlt] at hx
    exact .inl ⟨hx, Function.update_of_ne (Nat.ne_of_lt hlt) _ _⟩
  · rw [List.getElem?_concat_length] at hx
    exact .inr ⟨(Option.some.inj hx).symm, Function.update_self _ _ _⟩
  · rw [List.getElem?_eq_none (by rw [List.length_append]; exact hgt)] at hx
    cases hx

theorem Wf.connect (h : Wf id r) (hid : (r.broker.parse assigned pk).id = id) :
    Wf id (Move.run env r (.connect assigned pk)) := by
  have hlength : (Move.run env r (.connect assigned pk)).broker.connections.length = r.broker.connections.length + 1 :=
    List.length_append
  refine ⟨?_, ?_, ?_, ?_, ?_, ?_⟩
  · show (r.threads ++ [_]).length = _
    rw [hlength, List.length_append, h.length]
    rfl
  · intro x cl hx
    obtain ⟨hold, -⟩ | ⟨rfl, -⟩ := connect_cases h hx
    · exact h.ids x cl hold
    · exact hid
  · intro x cl hx hp
    obtain ⟨hold, hphase⟩ | ⟨rfl, -⟩ := connect_cases h hx
    · rw [hphase] at hp
      exact h.early x cl hold hp
    · rfl
  · intro x e hx
    rw [hlength]
    rw [phase_connect] at hx
    by_cases hxn : x = r.threads.length
    · rw [hxn, Function.update_self] at hx
      exact hx.elim
    · rw [Function.update_of_ne hxn] at hx
      exact Nat.lt_succ_of_lt (h.refers x e hx)
  · intro e he
    rw [hlength]
    exact Nat.lt_succ_of_lt (h.current e he)
  · intro x cl hx hp
    obtain ⟨hold, hphase⟩ | ⟨-, hphase⟩ := connect_cases h hx
    · rw [hphase] at hp
      exact h.stopped x cl hold hp
    · rw [hphase] at hp
      cases hp

theorem Sound.connect (h : Sound id r) (hid : (r.broker.parse assigned pk).id = id) :
    Sound id (Move.run env r (.connect assigned pk)) := by
  have habsent : r.phase r.threads.length = .absent := by
    unfold phase
    rw [List.getElem?_eq_none (Nat.le_refl _)]
    rfl
  have hregistry : registry id (Move.run env r (.connect assigned pk)) =
      { registry id r with
        phase := Function.update r.phase r.threads.length .arriving
        intact := Intact id (Move.run env r (.connect assigned pk)).broker } := by
    unfold registry
    rw [phase_connect, taken_connect]
    rfl
  refine ⟨h.wf.connect hid, ?_⟩
  rw [hregistry]
  refine (h.orderly.step (.acquire (Intact id (Move.run env r (.connect assigned pk)).broker) ?_)).step
    (.arrive r.threads.length habsent)
  intro x hx cl hcl f hf
  obtain ⟨hold, -⟩ | ⟨rfl, -⟩ := connect_cases h.wf hcl
  · exact hx cl hold f hf
  · exact absurd hf (AList.notMem_empty f)

end Connect

theorem Sound.run (h : Sound id r) {move : Move} {r' : Race} (hex : Move.Exclusive r (env, move))
    (hstep : Move.Step id r (env, move) r') : Sound id r' := by
  obtain ⟨hguard, rfl⟩ := hstep
  cases move with
  | connect assigned pk => exact h.connect hguard
  | advance c => exact h.advance hex
  | endRead c err =>
    show Sound id (match r.phase c with | .serving => _ | _ => r)
    split
    · rename_i hphase
      have hthread : ∃ th, r.threads[c]? = some th := by
        cases hth : r.threads[c]? with
        | some th => exact ⟨th, rfl⟩
        | none =>
          unfold phase at hphase
          rw [hth] at hphase
          cases hphase
      obtain ⟨th, hth⟩ := hthread
      exact h.goto_aside hth (fun s => aside_endRead env s err) (fun hp => hp) (fun _ hp => hp) nofun
        fun intact => .leave c hphase
    · exact h
  | subscribe c sub =>
    show Sound id (match r.phase c with | .serving => _ | _ => r)
    split
    · rename_i hphase
      exact h.subscribe hphase sub
    · exact h
  | stop c err => exact h.stop c err

/-! ### Runs -/

/-- In every run in which takeovers and teardowns exclude each other, a connection that has passed
`Clients.Add` and was neither stopped nor taken over is the one that `Clients.Get` returns, and its
subscriptions are in the index. There is at most one. -/
theorem registered_of_exclusive {server : Shared}
    (hr : Runs.Reach (Move.Step id) Move.Exclusive { broker := { server := server } } r) :
    (∀ (c : Nat) (cl : Client), r.broker.connections[c]? = some cl →
      (r.phase c).Registered ∨ r.phase c = .finished → cl.closed = false → cl.isTakenOver = false →
      r.broker.get id = some (c, cl) ∧
        ∀ f ∈ cl.subscriptions, (r.broker.server.topics.held (address f) id).isSome = true) ∧
      ∀ (c d : Nat) (cl cl' : Client), r.broker.connections[c]? = some cl → r.broker.connections[d]? = some cl' →
        (r.phase c).Registered ∨ r.phase c = .finished → (r.phase d).Registered ∨ r.phase d = .finished →
        cl.closed = false → cl'.closed = false → cl.isTakenOver = false → cl'.isTakenOver = false → c = d := by
  have hstart : Sound id { broker := { server := server } } := by
    refine ⟨⟨rfl, ?_, ?_, ?_, ?_, ?_⟩, ⟨?_, ?_, ?_, ?_, ?_⟩⟩
    · exact fun c cl hcl => absurd hcl nofun
    · exact fun c cl hcl => absurd hcl nofun
    · exact fun c e hp => hp.elim
    · exact fun e he => absurd he nofun
    · exact fun c cl hcl => absurd hcl nofun
    · exact fun c d hp => hp.elim
    · exact fun c hc => absurd hc nofun
    · exact fun c hp => hp.elim
    · exact fun c hp => hp.elim (fun hp => hp.elim) nofun
    · exact fun c => trivial
  have hsound : Sound id r := hr.invariant hstart fun h hex hstep => h.run hex hstep
  have hcurrent : ∀ (c : Nat) (cl : Client), r.broker.connections[c]? = some cl →
      (r.phase c).Registered ∨ r.phase c = .finished → cl.closed = false → cl.isTakenOver = false →
      r.broker.clients.lookup id = some c ∧ Intact id r.broker c := by
    intro c cl hcl hpassed hopen htaken
    have hnot : taken r.broker c = false := by
      unfold taken
      rw [hcl]
      exact htaken
    have hregistered : (r.phase c).Registered := by
      refine hpassed.resolve_right fun hfinished => ?_
      rw [hsound.wf.stopped c cl hcl hfinished] at hopen
      cases hopen
    exact ⟨hsound.orderly.present c hregistered hnot, hsound.orderly.intact c (.inl hregistered) hnot⟩
  constructor
  · intro c cl hcl hpassed hopen htaken
    obtain ⟨hlookup, hintact⟩ := hcurrent c cl hcl hpassed hopen htaken
    refine ⟨?_, hintact cl hcl⟩
    unfold Broker.get
    rw [hlookup, Option.bind_some, hcl]
    rfl
  · intro c d cl cl' hcl hcl' hpassed hpassed' hopen hopen' htaken htaken'
    have hc := (hcurrent c cl hcl hpassed hopen htaken).1
    have hd := (hcurrent d cl' hcl' hpassed' hopen' htaken').1
    exact Option.some.inj (hc.symm.trans hd)

/-! ### Two connections at once -/

def connectC : Packet :=
  { fixedHeader := { type := .connect }
    protocolVersion := 5
    connect := { protocolName := [77, 81, 84, 84], clientIdentifier := [99] } }

def runMoves (r : Race) (moves : List Move) : Race := moves.foldl (Move.run (.accepting 100)) r

/-- A connection subscribes, and a second one takes over its session. -/
def takenOver : Race :=
  runMoves {} [.connect [] connectC, .advance 0, .advance 0, .advance 0, .advance 0, .subscribe 0 { filter := [97] },
    .connect [] connectC, .advance 1, .advance 1, .advance 1, .advance 1, .advance 1]

def two : Race :=
  runMoves {} [.connect [] connectC, .connect [] connectC, .advance 0, .advance 1, .advance 0, .advance 1, .advance 0,
    .advance 1]

/-- The second connection is the one that `Clients.Get` returns, and it has the subscription. -/
theorem registered_of_takeover : ∃ cl, takenOver.broker.connections[1]? = some cl ∧ [97] ∈ cl.subscriptions ∧
    takenOver.broker.get [99] = some (1, cl) ∧
    (takenOver.broker.server.topics.held (address [97]) [99]).isSome = true := by
  have hreach : Runs.Reach (Move.Step [99]) Move.Exclusive {} takenOver := by
    have hfirst : ∀ d, ¬ ((runMoves {} [.connect [] connectC]).phase d).InSection
      | 0 => fun hp => hp
      | _ + 1 => fun hp => hp
    have hsecond : ∀ d, ¬ ((runMoves {} [.connect [] connectC, .advance 0, .advance 0, .advance 0, .advance 0,
        .subscribe 0 { filter := [97] }, .connect [] connectC]).phase d).InSection
      | 0 => fun hp => hp
      | 1 => fun hp => hp
      | _ + 2 => fun hp => hp
    refine Runs.Reach.replay Move.run (.accepting 100) _ ⟨⟨trivial, rfl, rfl⟩, ⟨fun _ _ _ => hfirst, trivial, rfl⟩,
      ⟨?_, trivial, rfl⟩, ⟨?_, trivial, rfl⟩, ⟨?_, trivial, rfl⟩, ⟨trivial, trivial, rfl⟩, ⟨trivial, rfl, rfl⟩,
      ⟨fun _ _ _ => hsecond, trivial, rfl⟩, ⟨?_, trivial, rfl⟩, ⟨?_, trivial, rfl⟩, ⟨?_, trivial, rfl⟩,
      ⟨?_, trivial, rfl⟩, trivial⟩
    all_goals exact fun _ _ hp => absurd hp nofun
  have hmem : ∃ cl, takenOver.broker.connections[1]? = some cl ∧ [97] ∈ cl.subscriptions ∧ cl.closed = false ∧
      cl.isTakenOver = false := ⟨_, rfl, by decide, rfl, rfl⟩
  obtain ⟨cl, hcl, hsub, hopen, htaken⟩ := hmem
  obtain ⟨hget, hheld⟩ := (registered_of_exclusive hreach).1 1 cl hcl (.inl trivial) hopen htaken
  exact ⟨cl, hcl, hsub, hget, hheld [97] hsub⟩

/-- Both connections have passed `Clients.Add`, and neither is stopped or taken over. `Clients.Get`
returns the second one. -/
theorem two_registered :
    Runs.Reach (Move.Step [99]) (fun _ _ => True) {} two ∧
      ∃ cl cl', two.broker.connections[0]? = some cl ∧ two.broker.connections[1]? = some cl' ∧
        two.phase 0 = .added false ∧ two.phase 1 = .added false ∧ cl.closed = false ∧ cl'.closed = false ∧
        cl.isTakenOver = false ∧ cl'.isTakenOver = false ∧ two.broker.get [99] = some (1, cl') := by
  refine ⟨Runs.Reach.replay Move.run (.accepting 100) _ ?_, _, _, rfl, rfl, rfl, rfl, rfl, rfl, rfl, rfl, rfl⟩
  exact ⟨⟨trivial, rfl, rfl⟩, ⟨trivial, rfl, rfl⟩, ⟨trivial, trivial, rfl⟩, ⟨trivial, trivial, rfl⟩,
    ⟨trivial, trivial, rfl⟩, ⟨trivial, trivial, rfl⟩, ⟨trivial, trivial, rfl⟩, ⟨trivial, trivial, rfl⟩, trivial⟩

end Race
end Mqtt
