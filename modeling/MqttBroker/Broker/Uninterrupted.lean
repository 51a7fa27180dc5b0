import MqttBroker.Broker.Handover
import MqttBroker.Broker.Lifecycle
import MqttBroker.Broker.Race

/-!
Broker/State makes `attachClient` two steps, up to its read loop and after it. Race, Lifecycle and Handover cut it where
another goroutine can come between. When none does, the cuts together do what those two steps do.
-/
namespace Mqtt
open FiniteMap
open Function (iterate_succ_apply iterate_zero_apply iterate_succ_apply')

namespace Broker

variable {b : Broker} {c : Nat} {cl : Client} {f g : Session → Session}

theorem on_on (h : b.connections[c]? = some cl) : (b.on c f).on c g = b.on c (g ∘ f) := by
  rw [on_eq (getElem?_on_self h), on_eq h, on_eq h]
  dsimp only [Function.comp_apply]
  rw [List.set_set]
  rfl

theorem set_self (h : b.connections[c]? = some cl) : b.connections.set c cl = b.connections := by
  obtain ⟨hc, rfl⟩ := List.getElem?_eq_some_iff.mp h
  exact List.set_getElem_self hc

theorem on_of_eq (h : b.connections[c]? = some cl) (hf : f (b.session cl) = b.session cl) : b.on c f = b := by
  rw [on_eq h, hf]
  exact congrArg (fun cls => { b with connections := cls }) (set_self h)

theorem on_clients {m : Map Bytes Nat} (h : b.connections[c]? = some cl) :
    ({ b with clients := m } : Broker).on c f = { b.on c f with clients := m } := by
  rw [on_eq h, @on_eq { b with clients := m } c cl f h]
  rfl

theorem id_finishWill {pk : Packet} {s : Session} : (finishWill pk s).client.id = s.client.id := by
  unfold finishWill Session.retainMessage
  repeat' split
  all_goals rfl

end Broker

namespace Race
open Session Broker

variable {env : Env} {r : Race} {b b' : Broker} {c e : Nat} {cl existing : Client} {th : Thread}
  {p p' : Takeover.Phase Nat} {assigned : Bytes} {err : Option Error}

theorem broker_goto : (r.goto c b p).broker = b := rfl

theorem goto_goto : (r.goto c b p).goto c b' p' = r.goto c b' p' := by
  unfold goto
  simp [List.modify_modify_eq, Function.comp_def]

theorem threads_goto (h : r.threads[c]? = some th) : (r.goto c b p).threads[c]? = some { th with phase := p } := by
  unfold goto
  simp [h]

theorem advances_transfer (hth : r.threads[c]? = some th) (hcl : b.connections[c]? = some cl)
    (hexisting : b.connections[e]? = some existing) (htaken : existing.isTakenOver = true) (hne : e ≠ c) :
    (advance env · c)^[2] (r.goto c b (.retired e)) =
      r.goto c { b.transfer env c e cl existing with clients := b.clients.insert cl.id c } (.added true) := by
  have hc : (b.transfer env c e cl existing).connections[c]? = some ((b.session cl).transfer env existing).2.client :=
    (List.getElem?_set_ne hne).trans (List.getElem?_set_self (List.getElem?_eq_some_iff.mp hcl).1)
  have hid : ((b.session cl).transfer env existing).2.client.id = cl.id := by
    rw [transfer_of_isTakenOver htaken, (foldl_addSubscription _ _).1]
    rfl
  simp only [iterate_succ_apply, iterate_zero_apply, advance, threads_goto hth, broker_goto,
    goto_goto, hcl, hexisting, hc, hid]
  rfl

theorem advances_inherit (hth : r.threads[c]? = some th) (hcl : b.connections[c]? = some cl)
    (he : b.clients.lookup cl.id = some e) (hexisting : b.connections[e]? = some existing) (hne : e ≠ c) :
    let (present, left, s) := (b.session existing).inheritClientSession env th.packet cl
    (advance env · c)^[5] (r.goto c b .arriving) =
      r.goto c
        { connections := (b.connections.set c s.client).set e left
          clients := b.clients.insert cl.id c
          server := s.server
          log := s.log } (.added present) := by
  unfold inheritClientSession
  cases hcont : continues ((b.session existing).disconnectClient env .sessionTakenOver).2.client th.packet with
  | false =>
    simp only [iterate_succ_apply, iterate_zero_apply, advance, threads_goto hth, broker_goto,
      goto_goto, hcl, he, getElem?_on_of_ne hne, getElem?_on_self hexisting, hcont, if_neg Bool.false_ne_true]
    rw [on_on (getElem?_on_self hexisting), on_on hexisting, on_eq hexisting]
    simp [set_self hcl]
    rfl
  | true =>
    have hretired : (advance env · c)^[3] (r.goto c b .arriving) = r.goto c
        ((b.on e fun s => (s.disconnectClient env .sessionTakenOver).2).on e markTakenOver) (.retired e) := by
      simp only [iterate_succ_apply, iterate_zero_apply, advance, threads_goto hth, broker_goto,
        goto_goto, hcl, he, getElem?_on_of_ne hne, getElem?_on_self hexisting, hcont, if_true]
    show (advance env · c)^[2] ((advance env · c)^[3] _) = _
    rw [hretired, advances_transfer hth (by rw [getElem?_on_of_ne hne, getElem?_on_of_ne hne, hcl])
      (getElem?_on_self (getElem?_on_self hexisting)) rfl hne, on_on hexisting, on_eq hexisting]
    unfold Broker.transfer
    dsimp only
    rw [List.set_comm _ _ hne, List.set_set, hcont]
    rfl

/-- If nothing comes between its steps, a call of `attachClient` comes to its read loop, or to its end, and has done
what `attach` does. -/
theorem advances_attach (hth : r.threads[c]? = some th) (hc : b.connections.length = c)
    (hregistered : ∀ e, b.clients.lookup (b.parse assigned th.packet).id = some e → e < c)
    (hvalid : (b.parse assigned th.packet).validateConnect b.server.caps th.packet = .success) :
    ∃ n p, (p = .serving ∨ p = .finished) ∧
      (advance env · c)^[n]
        (r.goto c { b with connections := b.connections ++ [b.parse assigned th.packet] } .arriving) =
        r.goto c (b.attach env assigned th.packet .accept) p := by
  subst hc
  unfold attach
  generalize b.parse assigned th.packet = cl at hregistered hvalid ⊢
  have hcl : (b.connections ++ [cl])[b.connections.length]? = some cl := List.getElem?_concat_length
  obtain ⟨n, cl', hn, hcl'⟩ : ∃ n cl', (advance env · b.connections.length)^[n]
      (r.goto b.connections.length { b with connections := b.connections ++ [cl] } .arriving) =
        r.goto b.connections.length (b.inherit env th.packet cl).2 (.added (b.inherit env th.packet cl).1) ∧
      (b.inherit env th.packet cl).2.connections[b.connections.length]? = some cl' := by
    unfold inherit
    cases hlookup : b.clients.lookup cl.id with
    | none =>
      rw [show b.get cl.id = none by rw [Broker.get, hlookup]; rfl]
      refine ⟨3, cl, ?_, hcl⟩
      simp only [iterate_succ_apply, iterate_zero_apply, advance, threads_goto hth, broker_goto,
        goto_goto, hcl, hlookup]
    | some e =>
      have hlt := hregistered e hlookup
      have hexisting : b.connections[e]? = some b.connections[e] := List.getElem?_eq_getElem hlt
      rw [get_eq_some_iff.mpr ⟨hlookup, hexisting⟩]
      have hinherit := @advances_inherit env r { b with connections := b.connections ++ [cl] } _ e cl _ th hth hcl
        hlookup ((List.getElem?_append_left hlt).trans hexisting) hlt.ne
      refine ⟨5, _, hinherit.trans ?_, by rw [← List.length_set]; exact List.getElem?_concat_length⟩
      simp [hlt]
      rfl
  refine ⟨n + 1, if (((b.inherit env th.packet cl).2.session cl').establish env (b.inherit env th.packet cl).1).1.isSome
    then .finished else .serving, by split <;> simp, ?_⟩
  rw [iterate_succ_apply', hn]
  simp only [advance, threads_goto hth, broker_goto, goto_goto, hcl', hvalid, ne_eq, not_true_eq_false, if_false]
  rfl

/-- Likewise from the end of the read loop to the return of `attachClient`. -/
theorem advances_detach (hth : r.threads[c]? = some th) (hcl : b.connections[c]? = some cl) :
    ∃ n, (advance env · c)^[n] (r.goto c (b.on c (·.endRead env err)) .ended) =
      r.goto c (b.detach env c err) .finished := by
  have hended := @getElem?_on_self b c cl (·.endRead env err) hcl
  unfold detach
  rw [hcl]
  dsimp only
  cases hends : ((b.session cl).endRead env err).client.expires &&
      !((b.session cl).endRead env err).client.isTakenOver with
  | false =>
    refine ⟨1, ?_⟩
    simp only [iterate_succ_apply, iterate_zero_apply, advance, threads_goto hth, broker_goto,
      goto_goto, hended, hends, if_neg Bool.false_ne_true]
    rw [on_on hcl, on_eq hcl]
    rfl
  | true =>
    have hcleared := @getElem?_on_self _ c _ (endSession env) hended
    refine ⟨3, ?_⟩
    simp only [iterate_succ_apply, iterate_zero_apply, advance, threads_goto hth, broker_goto,
      goto_goto, hended, hends, if_true, hcleared, (aside_stop env _ none).id]
    rw [clients_on, clients_on, on_clients hcleared, on_on hended, on_on hcl, on_eq hcl, on_eq hcl]
    rfl

end Race

namespace Attachment
open Session

variable {env : Env} {x : Attachment} {b : Broker} {c : Nat} {cl : Client} {pk : Packet} {id : Bytes}

theorem advances_establish (hphase : x.phase = .added) :
    ((advance env)^[2] x).session = Broker.establish env x.present x.session := by
  simp only [iterate_succ_apply, iterate_zero_apply, advance, hphase]
  unfold Broker.establish Session.establish
  rcases x.session.sendConnack env .success x.present with ⟨_ | err, s⟩
  · cases x.present with
    | false => rfl
    | true =>
      simp only [if_true]
      rcases resendInflightMessages env _ with ⟨_ | err, t⟩ <;> rfl
  · rfl

theorem advances_detach {err : Option Error} (hcl : b.connections[c]? = some cl) (hsession : x.session = b.session cl)
    (hphase : x.phase = .ended err) (hregistered : x.registered = true) :
    ∃ n, let y := (advance env)^[n] x
      y.phase = .returned ∧ b.detach env c err =
        { connections := b.connections.set c y.session.client
          clients := if y.registered then b.clients else b.clients.erase y.session.client.id
          server := y.session.server
          log := y.session.log } := by
  unfold Broker.detach
  rw [hcl]
  dsimp only
  cases hends : ((b.session cl).endRead env err).client.expires &&
    !((b.session cl).endRead env err).client.isTakenOver with
  | false => exact ⟨2, by simp [iterate_succ_apply, advance, hphase, hsession, hends, leave, hregistered]⟩
  | true => exact ⟨5, by simp [iterate_succ_apply, advance, hphase, hsession, hends, leave, Broker.endSession]⟩

/-- The turn of `sendDelayedLWT` for the client. -/
theorem sendDelayed_eq {dt : Int} (hget : b.get id = some (c, cl)) (hid : cl.id = id)
    (hpk : b.server.willDelayed.lookup id = some pk) : b.sendDelayed dt id pk = b.on c (sendDelayed dt) := by
  subst hid
  have hcl := (Broker.get_eq_some_iff.mp hget).2
  have hforward : ({ b with log := b.log ++ [.forward pk] } : Broker).get cl.id = some (c, cl) := hget
  have hdelayed : sendDelayed dt (b.session cl) = if pk.expiry < dt then
      let s := Broker.finishWill pk ((b.session cl).emit (.forward pk))
      { s with server := { s.server with willDelayed := s.server.willDelayed.erase s.client.id } }
      else b.session cl := by
    unfold sendDelayed
    rw [show (b.session cl).server.willDelayed.lookup (b.session cl).client.id = some pk from hpk]
  unfold Broker.sendDelayed
  split
  · rename_i hdue
    rw [if_pos hdue] at hdelayed
    dsimp only
    rw [hforward, Broker.on_eq hcl, hdelayed]
    dsimp only
    rw [@Broker.on_eq { b with log := b.log ++ [.forward pk] } c cl _ hcl, Broker.id_finishWill]
    rfl
  · rename_i hearly
    exact (Broker.on_of_eq hcl (hdelayed.trans (if_neg hearly))).symm

end Attachment

namespace Handover
open Session

variable {env : Env} {x : Handover} {b : Broker} {c : Nat} {pk : Packet} {p : Party}

theorem leaves_detach {err : Option Error} (hcl : b.connections[c]? = some x.old) (hserver : b.server = x.server)
    (hlog : b.log = x.log) (hholder : x.holder ≠ none) (hending : x.ending = .ended err) :
    let y := (leave env)^[2] x
    b.detach env c err =
      { connections := b.connections.set c y.old
        clients := if y.holder = none then b.clients.erase y.old.id else b.clients
        server := y.server
        log := y.log } := by
  unfold Broker.detach
  rw [hcl]
  cases hends : ((x.session .old).endRead env err).client.expires &&
      !((x.session .old).endRead env err).client.isTakenOver <;>
    simp only [session] at hends <;>
    simp [iterate_succ_apply, leave, hending, on, session, Broker.session, hserver, hlog, hends, hholder]

theorem arrives_inherit (harrival : x.arrival = .arriving)
    (hget : b.get x.new.id = if x.holder = some .old then some (c, x.old) else none)
    (hserver : b.server = x.server) (hlog : b.log = x.log) :
    let y := (arrive env)^[2] x
    ∃ present, y.arrival = .added present ∧ b.inherit env x.connect x.new = (present,
      { connections := (if x.holder = some .old then b.connections.set c y.old else b.connections) ++ [y.new]
        clients := b.clients.insert x.new.id b.connections.length
        server := y.server
        log := y.log }) := by
  unfold Broker.inherit
  rw [hget]
  by_cases hholder : x.holder = some .old <;>
    simp [iterate_succ_apply, arrive, harrival, hholder, Broker.session, session, hserver, hlog]

theorem arrives_establish {present : Bool} (harrival : x.arrival = .added present) (hid : x.new.id = x.id) :
    ((arrive env)^[3] x).session .new = Broker.establish env present (x.session .new) := by
  have hsame := (aside_sendConnack env (x.session .new) .success present).id.trans hid
  simp only [iterate_succ_apply, iterate_zero_apply, arrive, harrival]
  unfold Broker.establish Session.establish
  generalize (x.session .new).sendConnack env .success present = sent at hsame
  rcases sent with ⟨_ | err, s⟩
  · dsimp only at hsame
    cases present with
    | false => simp [session, on, hsame]
    | true =>
      simp only [session, on, hsame, if_true]
      rcases resendInflightMessages env _ with ⟨_ | err, t⟩ <;> rfl
  · rfl

theorem sendsDue_eq (hround : x.round = none) (hholder : x.holder = some p) (hid : (x.session p).client.id = x.id) :
    (sendDue^[2] x).session p = Attachment.sendDelayed x.now (x.session p) := by
  have hserver : (x.session p).server = x.server := by cases p <;> rfl
  simp only [iterate_succ_apply, iterate_zero_apply, sendDue, hround]
  unfold Attachment.sendDelayed
  rw [hid, hserver]
  cases x.server.willDelayed.lookup x.id with
  | none => cases p <;> rfl
  | some pk =>
    by_cases hdue : pk.expiry < x.now
    · have hsame : (Broker.finishWill pk ((x.session p).emit (.forward pk))).client.id = x.id :=
        Broker.id_finishWill.trans hid
      simp only [if_pos hdue, hholder, hsame]
      cases p <;> rfl
    · simp only [if_neg hdue]
      cases p <;> rfl

end Handover
end Mqtt
