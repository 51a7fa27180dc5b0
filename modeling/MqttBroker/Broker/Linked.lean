import MqttBroker.Broker.State
import MqttBroker.Session.Ownership

/-! The clients map, the subscriptions that each client keeps for itself and the
topic index, over connections, takeovers, ends of sessions and sweeps. -/

namespace Mqtt
open FiniteMap
namespace Broker
open Session

/-- The index holds what the registered clients hold. An open connection is registered unless its
session was taken over, and a connection that is not registered has no subscriptions. -/
structure Linked (b : Broker) : Prop where
  registered : ∀ id c, b.clients.lookup id = some c →
    ∃ cl, b.connections[c]? = some cl ∧ cl.id = id ∧ cl.isTakenOver = false ∧ Owns b.server.topics cl
  live : ∀ (c : Nat) (cl : Client), b.connections[c]? = some cl → cl.closed = false → cl.isTakenOver = false →
    b.clients.lookup cl.id = some c
  stopped : ∀ (c : Nat) (cl : Client), b.connections[c]? = some cl → cl.disconnected ≠ 0 → cl.closed = true
  idle : ∀ (c : Nat) (cl : Client), b.connections[c]? = some cl → b.clients.lookup cl.id ≠ some c → cl.subscriptions = ∅
  orphans : ∀ id, b.clients.lookup id = none → ∀ a, b.server.topics.held a id = none

variable {env : Env} {b : Broker} {c : Nat} {cl : Client} {id : Bytes} {t : Session} {f : Session → Session}

theorem Linked.held_iff (h : Linked b) (a : Address) (id : Bytes) :
    (b.server.topics.held a id).isSome = true ↔
      ∃ c cl, b.get id = some (c, cl) ∧ ∃ filter ∈ cl.subscriptions, address filter = a := by
  cases hlookup : b.clients.lookup id with
  | none =>
    rw [h.orphans id hlookup a]
    refine iff_of_false Bool.false_ne_true ?_
    rintro ⟨c, cl, hget, -⟩
    rw [get_eq_some_iff, hlookup] at hget
    exact absurd hget.1 nofun
  | some c =>
    obtain ⟨cl, hcl, rfl, -, howns⟩ := h.registered id c hlookup
    rw [howns.mirrors a]
    constructor
    · exact fun hfilter => ⟨c, cl, get_eq_some_iff.mpr ⟨hlookup, hcl⟩, hfilter⟩
    · rintro ⟨c', cl', hget, hfilter⟩
      obtain ⟨hc', hcl'⟩ := get_eq_some_iff.mp hget
      cases hlookup.symm.trans hc'
      cases hcl.symm.trans hcl'
      exact hfilter

theorem Linked.owns (h : Linked b) (hcl : b.connections[c]? = some cl)
    (hlookup : b.clients.lookup cl.id = some c) :
    cl.isTakenOver = false ∧ Owns (b.session cl).server.topics (b.session cl).client := by
  obtain ⟨cl', hcl', -, htaken, howns⟩ := h.registered cl.id c hlookup
  cases hcl.symm.trans hcl'
  exact ⟨htaken, howns⟩

theorem Linked.update (h : Linked b) (hcl : b.connections[c]? = some cl)
    (hst : Subscribes (b.session cl) t) (hown : b.clients.lookup cl.id = some c → Owns t.server.topics t.client)
    (hidle : b.clients.lookup cl.id ≠ some c →
      t.client.subscriptions = ∅ ∧ ∀ a, t.server.topics.held a cl.id = b.server.topics.held a cl.id) :
    Linked { b with connections := b.connections.set c t.client, server := t.server, log := t.log } := by
  have hid : t.client.id = cl.id := hst.id
  have hset : (b.connections.set c t.client)[c]? = some t.client := by
    rw [List.getElem?_set, if_pos rfl, if_pos (List.getElem?_eq_some_iff.mp hcl).1]
  have hheld : ∀ id, (id = cl.id → b.clients.lookup cl.id ≠ some c) →
      ∀ a, t.server.topics.held a id = b.server.topics.held a id := by
    intro id hne a
    by_cases heq : id = cl.id
    · rw [heq]
      exact (hidle (hne heq)).2 a
    · exact hst.others a id heq
  refine ⟨?_, ?_, ?_, ?_, ?_⟩
  · intro id c' hlookup
    obtain ⟨cl', hcl', rfl, htaken, howns⟩ := h.registered id c' hlookup
    by_cases hc : c' = c
    · subst hc
      cases hcl.symm.trans hcl'
      exact ⟨t.client, hset, hid, hst.isTakenOver.trans htaken, hown hlookup⟩
    · have hget : (b.connections.set c t.client)[c']? = some cl' := by
        rw [List.getElem?_set, if_neg (Ne.symm hc)]
        exact hcl'
      refine ⟨cl', hget, rfl, htaken, howns.congr (hheld cl'.id fun heq hc' => ?_)⟩
      rw [← heq, hlookup] at hc'
      exact hc (Option.some.inj hc')
  · intro c' cl' hget hclosed htaken
    obtain ⟨rfl, rfl⟩ | ⟨-, hcl'⟩ := Runs.getElem?_set_cases hget
    · have hlive := h.live c' cl hcl (hst.closed hclosed) (hst.isTakenOver.symm.trans htaken)
      rw [hid]
      exact hlive
    · exact h.live c' cl' hcl' hclosed htaken
  · intro c' cl' hget
    obtain ⟨rfl, rfl⟩ | ⟨-, hcl'⟩ := Runs.getElem?_set_cases hget
    · exact hst.stopped (h.stopped c' cl hcl)
    · exact h.stopped c' cl' hcl'
  · intro c' cl' hget hne
    obtain ⟨rfl, rfl⟩ | ⟨-, hcl'⟩ := Runs.getElem?_set_cases hget
    · rw [hid] at hne
      exact (hidle hne).1
    · exact h.idle c' cl' hcl' hne
  · intro id hlookup a
    rw [hheld id (fun heq hc => ?_) a]
    · exact h.orphans id hlookup a
    · rw [← heq] at hc
      exact absurd (hlookup.symm.trans hc) nofun

theorem Linked.aside (h : Linked b) (hcl : b.connections[c]? = some cl)
    (hst : Aside (b.session cl) t) :
    Linked { b with connections := b.connections.set c t.client, server := t.server, log := t.log } := by
  refine h.update hcl hst.subscribes ?_ ?_
  · exact fun hlookup => (h.owns hcl hlookup).2.aside hst
  · intro hne
    exact ⟨hst.subscriptions.trans (h.idle c cl hcl hne), fun a => hst.held a cl.id⟩

theorem Linked.on_aside (h : Linked b) (c : Nat) (hf : ∀ s, Aside s (f s)) : Linked (b.on c f) := by
  unfold Broker.on
  split
  · exact h
  · rename_i cl hcl
    exact h.aside hcl (hf _)

theorem Linked.forget (h : Linked b) (hlookup : b.clients.lookup id = some c)
    (hcl : b.connections[c]? = some cl) (hclosed : cl.closed = true) (hsubs : cl.subscriptions = ∅) :
    Linked { b with clients := b.clients.erase id } := by
  obtain ⟨cl', hcl', hid, -, howns⟩ := h.registered id c hlookup
  cases hcl.symm.trans hcl'
  have herase : ∀ id', (b.clients.erase id).lookup id' = if id' = id then none else b.clients.lookup id' :=
    fun id' => lookup_erase_eq b.clients id id'
  refine ⟨?_, ?_, h.stopped, ?_, ?_⟩
  · intro id' c' hlookup'
    dsimp only at hlookup'
    rw [herase] at hlookup'
    split at hlookup'
    · cases hlookup'
    · exact h.registered id' c' hlookup'
  · intro c' cl' hget hopen htaken
    have hlive := h.live c' cl' hget hopen htaken
    dsimp only
    rw [herase, if_neg, hlive]
    intro heq
    rw [heq, hlookup] at hlive
    cases hlive
    cases hcl.symm.trans hget
    rw [hclosed] at hopen
    cases hopen
  · intro c' cl' hget hne
    dsimp only at hne
    rw [herase] at hne
    by_cases heq : cl'.id = id
    · by_cases hc : c' = c
      · subst hc
        cases hcl.symm.trans hget
        exact hsubs
      · refine h.idle c' cl' hget ?_
        rw [heq, hlookup]
        exact fun h => hc (Option.some.inj h).symm
    · rw [if_neg heq] at hne
      exact h.idle c' cl' hget hne
  · intro id' hlookup' a
    dsimp only at hlookup'
    rw [herase] at hlookup'
    by_cases heq : id' = id
    · have hnone := howns.held_of_empty hsubs a
      rw [hid] at hnone
      rw [heq]
      exact hnone
    · rw [if_neg heq] at hlookup'
      exact h.orphans id' hlookup' a

/-! ### Connecting -/

theorem Linked.append_closed (h : Linked b) (hclosed : t.client.closed = true)
    (hsubs : t.client.subscriptions = ∅) (hheld : ∀ a id, t.server.topics.held a id = b.server.topics.held a id) :
    Linked { b with connections := b.connections ++ [t.client], server := t.server, log := t.log } := by
  refine ⟨?_, ?_, ?_, ?_, ?_⟩
  · intro id c hlookup
    obtain ⟨cl, hcl, hid, htaken, howns⟩ := h.registered id c hlookup
    have hget : (b.connections ++ [t.client])[c]? = some cl := by
      rw [List.getElem?_append_left (List.getElem?_eq_some_iff.mp hcl).1]
      exact hcl
    exact ⟨cl, hget, hid, htaken, howns.congr fun a => hheld a cl.id⟩
  · intro c cl hget hopen htaken
    obtain hcl | ⟨-, rfl⟩ := Runs.getElem?_concat_cases hget
    · exact h.live c cl hcl hopen htaken
    · rw [hclosed] at hopen
      cases hopen
  · intro c cl hget
    obtain hcl | ⟨-, rfl⟩ := Runs.getElem?_concat_cases hget
    · exact h.stopped c cl hcl
    · exact fun _ => hclosed
  · intro c cl hget hne
    obtain hcl | ⟨-, rfl⟩ := Runs.getElem?_concat_cases hget
    · exact h.idle c cl hcl hne
    · exact hsubs
  · intro id hlookup a
    rw [hheld]
    exact h.orphans id hlookup a

theorem Linked.register (h : Linked b) {before : List Client}
    (hlength : before.length = b.connections.length)
    (hbefore : ∀ c cl, before[c]? = some cl →
      b.connections[c]? = some cl ∧ b.clients.lookup t.client.id ≠ some c ∨
        cl.isTakenOver = true ∧ cl.subscriptions = ∅ ∧ (cl.disconnected ≠ 0 → cl.closed = true))
    (hkept : ∀ c cl, b.connections[c]? = some cl → b.clients.lookup t.client.id ≠ some c → before[c]? = some cl)
    (htaken : t.client.isTakenOver = false) (hstopped : t.client.disconnected ≠ 0 → t.client.closed = true)
    (hothers : SpareOthers t.client.id b.server.topics t.server.topics) (howns : Owns t.server.topics t.client) :
    Linked
      { connections := before ++ [t.client]
        clients := b.clients.insert t.client.id b.connections.length
        server := t.server
        log := t.log } := by
  have hinsert : ∀ id, (b.clients.insert t.client.id b.connections.length).lookup id =
      if id = t.client.id then some b.connections.length else b.clients.lookup id :=
    fun id => lookup_insert_eq b.clients _ id _
  refine ⟨?_, ?_, ?_, ?_, ?_⟩
  · intro id c hlookup
    dsimp only at hlookup
    rw [hinsert] at hlookup
    split at hlookup
    · rename_i hid
      refine ⟨t.client, ?_, hid.symm, htaken, howns⟩
      rw [← Option.some.inj hlookup, ← hlength]
      exact List.getElem?_concat_length
    · rename_i hid
      obtain ⟨cl, hcl, rfl, htaken', howns'⟩ := h.registered id c hlookup
      have hne : b.clients.lookup t.client.id ≠ some c := by
        intro heq
        obtain ⟨cl', hcl', hid', -⟩ := h.registered _ c heq
        cases hcl.symm.trans hcl'
        exact hid hid'
      have hkeep := hkept c cl hcl hne
      have hget : (before ++ [t.client])[c]? = some cl := by
        rw [List.getElem?_append_left (List.getElem?_eq_some_iff.mp hkeep).1]
        exact hkeep
      exact ⟨cl, hget, rfl, htaken', howns'.congr fun a => hothers a cl.id hid⟩
  · intro c cl hget hopen htaken'
    dsimp only
    rw [hinsert]
    obtain hcl | ⟨rfl, rfl⟩ := Runs.getElem?_concat_cases hget
    · rcases hbefore c cl hcl with ⟨hold, hne⟩ | ⟨hretired, -⟩
      · have hlive := h.live c cl hold hopen htaken'
        rw [if_neg, hlive]
        intro hid
        rw [hid] at hlive
        exact hne hlive
      · rw [hretired] at htaken'
        cases htaken'
    · rw [if_pos rfl, hlength]
  · intro c cl hget
    obtain hcl | ⟨-, rfl⟩ := Runs.getElem?_concat_cases hget
    · rcases hbefore c cl hcl with ⟨hold, -⟩ | ⟨-, -, hretired⟩
      · exact h.stopped c cl hold
      · exact hretired
    · exact hstopped
  · intro c cl hget hne
    dsimp only at hne
    rw [hinsert] at hne
    obtain hcl | ⟨rfl, rfl⟩ := Runs.getElem?_concat_cases hget
    · rcases hbefore c cl hcl with ⟨hold, hunder⟩ | ⟨-, hretired, -⟩
      · refine h.idle c cl hold ?_
        by_cases hid : cl.id = t.client.id
        · rw [hid]
          exact hunder
        · rw [if_neg hid] at hne
          exact hne
      · exact hretired
    · rw [if_pos rfl, hlength] at hne
      exact absurd rfl hne
  · intro id hlookup a
    dsimp only at hlookup
    rw [hinsert] at hlookup
    split at hlookup
    · cases hlookup
    · rename_i hid
      exact (hothers a id hid).trans (h.orphans id hlookup a)

structure Unregistered (cl : Client) : Prop where
  subscriptions : cl.subscriptions = ∅
  isTakenOver : cl.isTakenOver = false
  disconnected : cl.disconnected = 0

theorem unregistered_parse (b : Broker) (assigned : Bytes) (pk : Packet) : Unregistered (b.parse assigned pk) :=
  ⟨rfl, rfl, rfl⟩

theorem Linked.lookup_of_get_eq_none (h : Linked b) (hget : b.get id = none) : b.clients.lookup id = none := by
  cases hlookup : b.clients.lookup id with
  | none => rfl
  | some c =>
    obtain ⟨cl, hcl, -⟩ := h.registered id c hlookup
    rw [get_eq_some_iff.mpr ⟨hlookup, hcl⟩] at hget
    cases hget

theorem Linked.inherit (h : Linked b) (env : Env) (hcl : Unregistered cl) (pk : Packet) :
    Linked (b.inherit env pk cl).2 ∧
      ((b.inherit env pk cl).1 = false → ∀ a, (b.inherit env pk cl).2.server.topics.held a cl.id = none) := by
  unfold Broker.inherit
  cases hget : b.get cl.id with
  | none =>
    have hnone := h.lookup_of_get_eq_none hget
    have hne : ∀ c, b.clients.lookup cl.id ≠ some c := by
      rw [hnone]
      exact fun c => nofun
    have hheld : ∀ a, b.server.topics.held a cl.id = none := h.orphans cl.id hnone
    refine ⟨?_, fun _ => hheld⟩
    refine h.register (t := b.session cl) rfl ?_ ?_ hcl.isTakenOver ?_ ?_ ?_
    · exact fun c cl' hcl' => .inl ⟨hcl', hne c⟩
    · exact fun c cl' hcl' _ => hcl'
    · exact fun hstop => absurd hcl.disconnected hstop
    · exact fun _ _ _ => rfl
    · exact owns_of_empty hcl.subscriptions hheld
  | some found =>
    obtain ⟨c, existing⟩ := found
    obtain ⟨hlookup, hexisting⟩ := get_eq_some_iff.mp hget
    obtain ⟨cl', hcl', hid, htaken, howns⟩ := h.registered cl.id c hlookup
    cases hexisting.symm.trans hcl'
    have hsession : Owns (b.session existing).server.topics (b.session existing).client := howns
    obtain ⟨⟨hretired, hempty, hstop⟩, ⟨inflight, subscriptions, hclient⟩, hothers, hown⟩ :=
      owns_inheritClientSession env pk hsession htaken (h.stopped c existing hexisting) hid.symm
        hcl.subscriptions
    have hfresh := inheritClientSession_of_fst (b.session existing) env pk cl
    dsimp only
    generalize (b.session existing).inheritClientSession env pk cl = r
      at hretired hempty hstop hclient hothers hown hfresh
    obtain ⟨present, existing', t⟩ := r
    dsimp only at hretired hempty hstop hclient hothers hown hfresh ⊢
    have htid : t.client.id = cl.id := by rw [hclient]
    constructor
    · rw [← htid]
      rw [← htid] at hlookup hothers
      refine h.register List.length_set ?_ ?_ ?_ ?_ hothers hown
      · intro c' cl' hget'
        obtain ⟨-, rfl⟩ | ⟨hne, hold⟩ := Runs.getElem?_set_cases hget'
        · exact .inr ⟨hretired, hempty, hstop⟩
        · refine .inl ⟨hold, ?_⟩
          rw [hlookup]
          exact fun heq => hne (Option.some.inj heq).symm
      · intro c' cl' hold hne
        rw [hlookup] at hne
        rw [List.getElem?_set, if_neg fun heq => hne (congrArg some heq)]
        exact hold
      · rw [hclient]
        exact hcl.isTakenOver
      · rw [hclient]
        exact fun hstop => absurd hcl.disconnected hstop
    · intro hpresent a
      rw [← htid]
      refine hown.held_of_empty ?_ a
      rw [hfresh hpresent]
      exact hcl.subscriptions

theorem Linked.turnAway (h : Linked b) (hcl : Unregistered cl) {s : Session}
    (hs : Aside (b.session cl) s) : Linked (b.turnAway env s) := by
  have hstop := aside_stop env s none
  refine h.append_closed (t := { s with client := (s.stop env none).client }) (closed_stop env s none) ?_ ?_
  · exact (hstop.subscriptions.trans hs.subscriptions).trans hcl.subscriptions
  · exact fun a id => hs.held a id

theorem Linked.attach (h : Linked b) (assigned : Bytes) (pk : Packet) (admission : Admission) :
    Linked (b.attach env assigned pk admission) := by
  have hcl := unregistered_parse b assigned pk
  have hinherit := (h.inherit env hcl pk).1
  unfold Broker.attach
  dsimp only
  split
  · exact h.turnAway hcl (aside_sendConnack env _ _ false)
  · split
    · exact h.turnAway hcl (aside_sendConnack env _ _ false)
    · exact h.turnAway hcl (.refl _)
    · refine hinherit.on_aside _ fun s => ?_
      have hestablish := aside_establish env s (b.inherit env pk (b.parse assigned pk)).1
      unfold Broker.establish
      split
      · rename_i heq
        rw [heq] at hestablish
        exact hestablish.trans (aside_stop env _ none)
      · rename_i heq
        rw [heq] at hestablish
        exact hestablish

/-! ### Disconnecting -/

theorem Linked.detach (h : Linked b) (c : Nat) (err : Option Error)
    (hc : ∀ cl, b.connections[c]? = some cl → cl.isTakenOver = true ∨ b.clients.lookup cl.id = some c) :
    Linked (b.detach env c err) := by
  unfold Broker.detach
  split
  · exact h
  · rename_i cl hcl
    have hread := aside_endRead env (b.session cl) err
    dsimp only
    generalize (b.session cl).endRead env err = s at hread ⊢
    by_cases hends : (s.client.expires && !s.client.isTakenOver) = true
    · rw [if_pos hends, if_pos hends]
      rw [Bool.and_eq_true, Bool.not_eq_true'] at hends
      have htaken : cl.isTakenOver = false := hread.isTakenOver.symm.trans hends.2
      have hlookup : b.clients.lookup cl.id = some c := by
        refine (hc cl hcl).resolve_left ?_
        rw [htaken]
        exact Bool.false_ne_true
      -- the session ends: its inflight messages and its subscriptions go, and the connection is closed
      have hclear := hread.trans (aside_clearInflights env s)
      obtain ⟨hunsubscribed, howns', hsubs⟩ := owns_unsubscribeClient ((h.owns hcl hlookup).2.aside hclear)
        (hclear.isTakenOver.trans htaken)
      have hstop := aside_stop env (endSession env s) none
      have hall := (hclear.subscribes.trans hunsubscribed).trans hstop.subscribes
      have hupdated := h.update hcl hall (fun _ => howns'.aside hstop) fun hne => absurd hlookup hne
      have hid : ((endSession env s).stop env none).client.id = cl.id := hall.id
      rw [hid]
      refine hupdated.forget hlookup ?_ (closed_stop env _ none) (hstop.subscriptions.trans hsubs)
      dsimp only
      rw [List.getElem?_set, if_pos rfl, if_pos (List.getElem?_eq_some_iff.mp hcl).1]
    · rw [if_neg hends, if_neg hends]
      exact h.aside hcl (hread.trans (aside_stop env s none))

/-! ### Sweeps -/

theorem Linked.clearExpiredClients (h : Linked b) (dt : Int)
    (hsubs : ∀ id c cl, b.get id = some (c, cl) → b.isExpired dt cl = true → cl.subscriptions = ∅) :
    Linked (b.clearExpiredClients dt) := by
  have hall : Linked (b.clearExpiredClients dt) ∧ (b.clearExpiredClients dt).connections = b.connections ∧
      (b.clearExpiredClients dt).server = b.server ∧
      ∀ id c, (b.clearExpiredClients dt).clients.lookup id = some c → b.clients.lookup id = some c := by
    refine List.foldlRecOn (motive := fun b' : Broker => Linked b' ∧ b'.connections = b.connections ∧
      b'.server = b.server ∧ ∀ id c, b'.clients.lookup id = some c → b.clients.lookup id = some c) _ _
      ⟨h, rfl, rfl, fun _ _ hlookup => hlookup⟩ ?_
    rintro b' ⟨hlinked, hconnections, hserver, hclients⟩ id -
    unfold clearExpiredClient
    split
    · exact ⟨hlinked, hconnections, hserver, hclients⟩
    · rename_i c cl hget
      split
      · rename_i hexpired
        obtain ⟨hlookup, hcl⟩ := get_eq_some_iff.mp hget
        have hbefore : b.get id = some (c, cl) := by
          rw [hconnections] at hcl
          exact get_eq_some_iff.mpr ⟨hclients id c hlookup, hcl⟩
        have hexpired' : b.isExpired dt cl = true := by
          unfold isExpired at hexpired ⊢
          rw [hserver] at hexpired
          exact hexpired
        have hclosed : cl.closed = true := by
          refine hlinked.stopped c cl hcl ?_
          unfold isExpired at hexpired
          rw [Bool.and_eq_true, bne_iff_ne] at hexpired
          exact hexpired.1
        refine ⟨hlinked.forget hlookup hcl hclosed (hsubs id c cl hbefore hexpired'), hconnections, hserver, ?_⟩
        intro id' c' hlookup'
        dsimp only at hlookup'
        rw [lookup_erase_eq] at hlookup'
        split at hlookup'
        · cases hlookup'
        · exact hclients id' c' hlookup'
      · exact ⟨hlinked, hconnections, hserver, hclients⟩
  exact hall.1

/-! ### Runs -/

inductive Change where
  | attach (assigned : Bytes) (pk : Packet) (admission : Admission)
  | disconnect (c : Nat) (pk : Option Packet) (err : Option Error)
  | subscribe (c : Nat) (pk : Packet)
  | unsubscribe (c : Nat) (pk : Packet)
  | unsubscribeClient (c : Nat)
  | clearExpiredClients (dt : Int)

namespace Change

def run (env : Env) (b : Broker) : Change → Broker
  | attach assigned pk admission => b.attach env assigned pk admission
  | disconnect c (some pk) err => (b.on c fun s => (s.processDisconnect env pk).2).detach env c err
  | disconnect c none err => b.detach env c err
  | subscribe c pk => b.on c fun s => (s.processSubscribe env pk).2
  | unsubscribe c pk => b.on c fun s => (s.processUnsubscribe env pk).2
  | unsubscribeClient c => b.on c Session.unsubscribeClient
  | clearExpiredClients dt => b.clearExpiredClients dt

/-- Packets are handled on open connections, and a connection ends once: it is open, or it was
closed by the one that took its session over. -/
def Enabled (b : Broker) : Change → Prop
  | disconnect c _ _ => ∀ cl, b.connections[c]? = some cl → cl.closed = false ∨ cl.isTakenOver = true
  | subscribe c _ => ∀ cl, b.connections[c]? = some cl → cl.closed = false
  | unsubscribe c _ => ∀ cl, b.connections[c]? = some cl → cl.closed = false
  | _ => True

def Step (b : Broker) (call : Env × Change) (b' : Broker) : Prop := call.2.Enabled b ∧ b' = call.2.run call.1 b

/-- A client whose session was not taken over names filters so that no two of its filters have one
address, and a sweep removes only clients without subscriptions. -/
def Safe (b : Broker) (call : Env × Change) : Prop :=
  match call with
  | (env, subscribe c pk) => ∀ cl, b.connections[c]? = some cl →
      cl.isTakenOver = false ∧ Separate cl (env.onSubscribe pk).filters
  | (env, unsubscribe c pk) => ∀ cl, b.connections[c]? = some cl →
      cl.isTakenOver = false ∧ ∀ sub ∈ (env.onUnsubscribe pk).filters, ∀ f ∈ cl.subscriptions,
        address f = address sub.filter → f = sub.filter
  | (_, clearExpiredClients dt) => ∀ id c cl, b.get id = some (c, cl) → b.isExpired dt cl = true →
      cl.subscriptions = ∅
  | _ => True

end Change

theorem Linked.on_registered (h : Linked b)
    (hc : ∀ cl, b.connections[c]? = some cl → b.clients.lookup cl.id = some c)
    (hf : ∀ cl, b.connections[c]? = some cl → Owns (b.session cl).server.topics (b.session cl).client →
      Subscribes (b.session cl) (f (b.session cl)) ∧ Owns (f (b.session cl)).server.topics (f (b.session cl)).client) :
    Linked (b.on c f) := by
  unfold Broker.on
  split
  · exact h
  · rename_i cl hcl
    have hlookup := hc cl hcl
    obtain ⟨hst, howns'⟩ := hf cl hcl (h.owns hcl hlookup).2
    exact h.update hcl hst (fun _ => howns') fun hne => absurd hlookup hne

theorem Linked.on_unsubscribeClient (h : Linked b) (c : Nat) : Linked (b.on c unsubscribeClient) := by
  unfold Broker.on
  split
  · exact h
  · rename_i cl hcl
    by_cases hlookup : b.clients.lookup cl.id = some c
    · obtain ⟨htaken, howns⟩ := h.owns hcl hlookup
      obtain ⟨hst, howns', -⟩ := owns_unsubscribeClient howns htaken
      exact h.update hcl hst (fun _ => howns') fun hne => absurd hlookup hne
    · have hsubs : (b.session cl).client.subscriptions = ∅ := h.idle c cl hcl hlookup
      exact h.aside hcl (aside_unsubscribeClient hsubs)

theorem Linked.disconnect (h : Linked b) (c : Nat) (pk : Option Packet) (err : Option Error)
    (henabled : (Change.disconnect c pk err).Enabled b) : Linked ((Change.disconnect c pk err).run env b) := by
  have hc : ∀ cl, b.connections[c]? = some cl → cl.isTakenOver = true ∨ b.clients.lookup cl.id = some c := by
    intro cl hcl
    rcases henabled cl hcl with hopen | htaken
    · cases htaken : cl.isTakenOver with
      | true => exact .inl rfl
      | false => exact .inr (h.live c cl hcl hopen htaken)
    · exact .inl htaken
  cases pk with
  | none => exact h.detach c err hc
  | some pk =>
    refine (h.on_aside c fun s => aside_processDisconnect).detach c err ?_
    intro cl' hcl'
    obtain ⟨hne, -⟩ | ⟨-, cl, hcl, rfl, -⟩ := Broker.getElem?_on hcl'
    · exact absurd rfl hne
    · have haside : Aside (b.session cl) ((b.session cl).processDisconnect env pk).2 := aside_processDisconnect
      rw [haside.id, haside.isTakenOver, Broker.clients_on]
      exact hc cl hcl

theorem Linked.run (h : Linked b) {change : Change} (henabled : change.Enabled b)
    (hsafe : Change.Safe b (env, change)) :
    Linked (change.run env b) := by
  cases change with
  | attach assigned pk admission => exact h.attach assigned pk admission
  | disconnect c pk err => exact h.disconnect c pk err henabled
  | subscribe c pk =>
    show Linked (b.on c fun s => (s.processSubscribe env pk).2)
    refine h.on_registered (fun cl hcl => h.live c cl hcl (henabled cl hcl) (hsafe cl hcl).1) fun cl hcl howns => ?_
    exact owns_processSubscribe howns (hsafe cl hcl).2
  | unsubscribe c pk =>
    show Linked (b.on c fun s => (s.processUnsubscribe env pk).2)
    refine h.on_registered (fun cl hcl => h.live c cl hcl (henabled cl hcl) (hsafe cl hcl).1) fun cl hcl howns => ?_
    exact owns_processUnsubscribe howns (hsafe cl hcl).2
  | unsubscribeClient c => exact h.on_unsubscribeClient c
  | clearExpiredClients dt => exact h.clearExpiredClients dt hsafe

/-- In every run in which no client names two filters of one address and sweeps remove only clients
without subscriptions, the index holds a subscription of a client just where the clients map has the
client and the client has a filter for it. A client that connects without a session has none. -/
theorem index_linked_of_safe {server : Shared} (hstart : ∀ a id, server.topics.held a id = none)
    (hr : Runs.Reach Change.Step Change.Safe { server := server } b) :
    (∀ a id, (b.server.topics.held a id).isSome = true ↔
      ∃ c cl, b.get id = some (c, cl) ∧ ∃ filter ∈ cl.subscriptions, address filter = a) ∧
      ∀ env assigned pk, (b.inherit env pk (b.parse assigned pk)).1 = false →
        ∀ a, (b.inherit env pk (b.parse assigned pk)).2.server.topics.held a (b.parse assigned pk).id = none := by
  have hempty : Linked { server := server } := by
    refine ⟨?_, ?_, ?_, ?_, fun id _ a => hstart a id⟩
    · exact fun id c hlookup => absurd hlookup nofun
    · exact fun c cl hcl => absurd hcl nofun
    · exact fun c cl hcl => absurd hcl nofun
    · exact fun c cl hcl => absurd hcl nofun
  have hb : Linked b := by
    refine hr.invariant hempty ?_
    rintro u ⟨env, change⟩ v hu hsafe ⟨henabled, hv⟩
    rw [hv]
    exact hu.run henabled hsafe
  exact ⟨hb.held_iff, fun env assigned pk => (hb.inherit env (unregistered_parse b assigned pk) pk).2⟩

/-! ### A session that expires -/

def briefConnect : Packet :=
  { fixedHeader := { type := .connect }
    protocolVersion := 5
    properties := { sessionExpiryInterval := 1, sessionExpiryIntervalFlag := true }
    connect := { protocolName := [77, 81, 84, 84], clean := true, clientIdentifier := [99] } }

def subscribeA : Packet :=
  { fixedHeader := { type := .subscribe }, packetID := 1, filters := [{ filter := [97], retainHandling := 2 }] }

def connectedC : Broker := (Change.attach [] briefConnect .accept).run (.accepting 100) {}

def subscribedC : Broker := (Change.subscribe 0 subscribeA).run (.accepting 100) connectedC

def expiredC : Broker :=
  (Change.clearExpiredClients 200).run (.accepting 200)
    ((Change.disconnect 0 none none).run (.accepting 100) subscribedC)

theorem index_linked_of_subscribe :
    ∃ c cl, subscribedC.get [99] = some (c, cl) ∧ ∃ filter ∈ cl.subscriptions, address filter = address [97] := by
  have hconnected : Runs.Reach Change.Step Change.Safe {} connectedC :=
    .next (i := (.accepting 100, .attach [] briefConnect .accept)) .refl trivial ⟨trivial, rfl⟩
  have hsafe : Change.Safe connectedC (.accepting 100, .subscribe 0 subscribeA) := by
    rintro cl ⟨⟩
    have honly : ∀ f, (f ∈ (∅ : Map Bytes Subscription) ∨ ∃ sub ∈ subscribeA.filters, sub.filter = f) → f = [97] := by
      rintro f (hf | ⟨sub, hsub, rfl⟩)
      · exact absurd hf (AList.notMem_empty f)
      · rw [List.mem_singleton.mp hsub]
    exact ⟨rfl, fun f g hf hg _ => (honly f hf).trans (honly g hg).symm⟩
  have hsubscribed : Runs.Reach Change.Step Change.Safe {} subscribedC :=
    hconnected.next hsafe ⟨by rintro cl ⟨⟩; rfl, rfl⟩
  have hlinked := (@index_linked_of_safe subscribedC {} (fun a id => TopicsIndex.held_new a id) hsubscribed).1
  exact (hlinked (address [97]) [99]).mp (by decide +kernel)

/-- The client is swept away with its session, and its subscription stays in the index. The next
session of that id is told that none was present, and it has the subscription. -/
theorem subscription_outlives_session :
    expiredC.get [99] = none ∧ (expiredC.server.topics.held (address [97]) [99]).isSome = true ∧
      (expiredC.inherit (.accepting 300) briefConnect (expiredC.parse [] briefConnect)).1 = false ∧
      ((expiredC.inherit (.accepting 300) briefConnect (expiredC.parse [] briefConnect)).2.server.topics.held
        (address [97]) [99]).isSome = true := by
  decide +kernel

end Broker
end Mqtt
