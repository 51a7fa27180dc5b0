import Mathlib.Algebra.Ring.Int.Defs
import MqttBroker.Session.Gauge
import MqttBroker.Session.Steps

/-! The gauge of inflight messages while calls run at the same time. A step that
has taken an entry out of the map may still owe its decrement of the gauge. Apart
from what is owed the gauge is exact, as long as a step that takes an entry out
finds it as the copy said by which it decides. -/

namespace Mqtt
open FiniteMap
namespace Session
open Inflight

variable {env : Env} {s : Session}

/-! ### Steps -/

def Resuming.Fresh (s : Session) : Resuming → Prop
  | .repark next _ _ => ∃ e, s.client.inflight.get next.packetID = some e ∧ e.isCounted = true
  | _ => True

instance (r : Resuming) : Decidable (r.Fresh s) := by
  cases r with
  | repark next err increases => exact inferInstanceAs (Decidable (∃ e : Packet, _ = some e ∧ e.isCounted = true))
  | _ => exact .isTrue trivial

theorem Resuming.gap_step {r : Resuming} (h : r.Fresh s) : (r.step env s).2.gap = s.gap := by
  cases r with
  | recover => exact gap_onInflight (counted_recoverStarvedSendQuota _)
  | test => rfl
  | take =>
    unfold Resuming.step
    dsimp only
    obtain ⟨htake, -⟩ | ⟨pk, hpk, hdef, -, htake⟩ := s.client.inflight.takeNextImmediate_cases env.order
    · rw [htake]
    · rw [htake]
      refine gap_onInflight (counted_put_over hpk ?_)
      unfold Packet.isCounted
      rw [hdef]
      rfl
  | decrease next =>
    unfold Resuming.step
    dsimp only
    have hquota := counted_decreaseSendQuota s.client.inflight
    rcases hdec : s.client.inflight.decreaseSendQuota with ⟨_ | _, f⟩
    · rfl
    · rw [hdec] at hquota
      exact gap_onInflight hquota
  | write next =>
    unfold Resuming.step
    dsimp only
    split
    · rfl
    · have hwrite := gap_writePacket env s next
      rcases hw : s.writePacket env next with ⟨_ | err, t⟩
      · rw [hw] at hwrite
        exact hwrite
      · rw [hw] at hwrite
        exact hwrite
  | repark next err increases =>
    obtain ⟨e, he, hcounted⟩ := h
    exact gap_onInflight (counted_put_over (m := { next with expiry := inflightExpiryDeferred }) he hcounted)
  | increase err => exact gap_onInflight (counted_increaseSendQuota _)
  | reset err => exact gap_onInflight (counted_resetSendQuotaIfEmpty _)
  | done err => rfl

theorem gap_remove_counted {id : UInt16} {e : Packet} (hget : s.client.inflight.get id = some e)
    (he : e.isCounted = true) : (s.onInflight fun f => f.remove id).gap - 1 = s.gap - 0 := by
  have hremove := counted_remove_counted hget he
  show s.server.info.inflight - ((s.client.inflight.remove id).counted : Int) - 1 =
    s.server.info.inflight - (s.client.inflight.counted : Int) - 0
  omega

theorem gap_uncount (s : Session) : (s.countInflight (-1)).gap - 0 = s.gap - 1 := by
  show s.server.info.inflight + -1 - (s.client.inflight.counted : Int) - 0 =
    s.server.info.inflight - (s.client.inflight.counted : Int) - 1
  omega

theorem deferred_ne_reserved : inflightExpiryDeferred ≠ inflightExpiryReserved := by decide

namespace Publishing

def owes : Publishing → Int
  | .uncount .. => 1
  | _ => 0

def Storable : Publishing → Prop
  | .waiting _ out => out.expiry ≠ inflightExpiryReserved
  | .search _ out _ _ _ => out.expiry ≠ inflightExpiryReserved
  | .reserved _ out => out.expiry ≠ inflightExpiryReserved
  | .resetQuota _ out => out.expiry ≠ inflightExpiryReserved
  | .park _ out => out.expiry ≠ inflightExpiryReserved
  | .store _ out _ => out.expiry ≠ inflightExpiryReserved
  | _ => True

/-- A call that drops its message finds it, or nothing; one that was refused finds a reservation, or
nothing. -/
def Fresh (s : Session) : Publishing → Prop
  | .drop _ out _ => ∀ e, s.client.inflight.get out.packetID = some e → e.isCounted = true
  | .discard _ out => ∀ e, s.client.inflight.get out.packetID = some e → e.isCounted = false
  | .resume _ _ r => r.Fresh s
  | _ => True

instance (p : Publishing) : Decidable (p.Fresh s) := by
  cases p with
  | drop pk out code => exact inferInstanceAs (Decidable (∀ e : Packet, _ = some e → e.isCounted = true))
  | discard pk out => exact inferInstanceAs (Decidable (∀ e : Packet, _ = some e → e.isCounted = false))
  | resume pk out r => exact inferInstanceAs (Decidable (r.Fresh s))
  | _ => exact .isTrue trivial

theorem gap_reserve (env : Env) (s : Session) (pk out : Packet) (started i : Nat) (overflowed : Bool) :
    (reserve env s pk out started i overflowed).2.gap = s.gap ∧
      (reserve env s pk out started i overflowed).1.owes = 0 ∧
      (out.expiry ≠ inflightExpiryReserved → (reserve env s pk out started i overflowed).1.Storable) := by
  unfold reserve
  split
  · exact ⟨rfl, rfl, fun _ => trivial⟩
  · split
    · exact ⟨rfl, rfl, fun h => h⟩
    · rcases hreserve : s.client.inflight.tryReserve env.now (UInt16.ofNat (i + 1)) s.server.caps.maximumInflight.toNat
        with ⟨_ | _ | _, f⟩
      · obtain ⟨hfree, rfl⟩ := s.client.inflight.tryReserve_ok hreserve
        refine ⟨?_, rfl, fun h => ?_⟩
        · show s.server.info.inflight -
            ((s.client.inflight.put (reservation env.now (UInt16.ofNat (i + 1)))).counted : Int) = _
          rw [counted_reserve hfree]
          rfl
        · show (Packet.fillFrom _ pk).expiry ≠ inflightExpiryReserved
          rw [Packet.fillFrom_expiry]
          exact h
      · exact ⟨rfl, rfl, fun h => h⟩
      · exact ⟨rfl, rfl, fun _ => trivial⟩

theorem gap_takeQuota (pk out : Packet) :
    (takeQuota s pk out).2.gap = s.gap ∧ (takeQuota s pk out).1.owes = 0 ∧
      (out.expiry ≠ inflightExpiryReserved → (takeQuota s pk out).1.Storable) := by
  unfold takeQuota
  split
  · split
    · have hquota := counted_decreaseSendQuota s.client.inflight
      rcases hdec : s.client.inflight.decreaseSendQuota with ⟨_ | _, f⟩
      · exact ⟨rfl, rfl, fun _ => deferred_ne_reserved⟩
      · rw [hdec] at hquota
        exact ⟨gap_onInflight hquota, rfl, fun h => h⟩
    · exact ⟨rfl, rfl, fun h => h⟩
  · split
    · exact ⟨rfl, rfl, fun h => h⟩
    · exact ⟨rfl, rfl, fun h => h⟩

theorem gap_replace {out : Packet} (hout : out.expiry ≠ inflightExpiryReserved) (kept refused : Publishing)
    (hkept : kept.owes = 0 ∧ kept.Storable) (hrefused : refused.owes = 0 ∧ refused.Storable) :
    (replace s out kept refused).2.gap = s.gap ∧ (replace s out kept refused).1.owes = 0 ∧
      (replace s out kept refused).1.Storable := by
  have hput : (s.client.inflight.get out.packetID).any Packet.isCounted = false →
      (((s.onInflight fun _ => s.client.inflight.put out).countInflight 1).emit (.qosPublish out)).gap = s.gap := by
    intro hnone
    rw [gap_emit]
    refine gap_countInflight ?_
    rw [counted_put_new hnone (Packet.isCounted_iff.mpr hout)]
    rfl
  unfold replace replaceCounted
  cases hget : s.client.inflight.get out.packetID with
  | none =>
    refine ⟨hput ?_, hkept⟩
    rw [hget]
    rfl
  | some old =>
    dsimp only
    by_cases hold : old.expiry = inflightExpiryReserved
    · rw [if_neg (not_not.mpr hold)]
      refine ⟨hput ?_, hkept⟩
      rw [hget, Option.any_some, Packet.isCounted_of_reserved hold]
    · rw [if_pos hold]
      exact ⟨rfl, hrefused⟩

theorem gap_step (env : Env) {p : Publishing} (hp : p.Storable) (h : p.Fresh s) :
    (p.step env s).2.gap - (p.step env s).1.owes = s.gap - p.owes ∧ (p.step env s).1.Storable := by
  cases p with
  | waiting pk out => exact ⟨rfl, hp⟩
  | search pk out started i overflowed =>
    obtain ⟨hgap, howes, hstorable⟩ := gap_reserve env s pk out started i overflowed
    refine ⟨?_, hstorable hp⟩
    show (reserve env s pk out started i overflowed).2.gap - (reserve env s pk out started i overflowed).1.owes = _
    rw [hgap, howes]
    rfl
  | reserved pk out =>
    obtain ⟨hgap, howes, hstorable⟩ := gap_takeQuota (s := s) pk out
    refine ⟨?_, hstorable hp⟩
    show (takeQuota s pk out).2.gap - (takeQuota s pk out).1.owes = _
    rw [hgap, howes]
    rfl
  | resetQuota pk out => exact ⟨rfl, hp⟩
  | park pk out =>
    obtain ⟨hgap, howes, hstorable⟩ := gap_replace (s := s) hp (.resume pk out .recover) (.discard pk out)
      ⟨rfl, trivial⟩ ⟨rfl, trivial⟩
    refine ⟨?_, hstorable⟩
    unfold step
    dsimp only
    rw [hgap, howes]
    rfl
  | store pk out took =>
    obtain ⟨hgap, howes, hstorable⟩ := gap_replace (s := s) hp (.stored pk out)
      (if took then .undo pk out else .discard pk out) ⟨rfl, trivial⟩
      (by cases took <;> exact ⟨rfl, trivial⟩)
    refine ⟨?_, hstorable⟩
    unfold step
    dsimp only
    rw [hgap, howes]
    rfl
  | undo pk out =>
    refine ⟨?_, trivial⟩
    unfold step
    rw [gap_onInflight (counted_increaseSendQuota _)]
    rfl
  | discard pk out =>
    refine ⟨?_, trivial⟩
    have hremoved : (s.onInflight fun f => f.remove out.packetID).gap = s.gap := by
      refine gap_onInflight ?_
      have hremove := s.client.inflight.counted_remove out.packetID
      cases hget : s.client.inflight.get out.packetID with
      | none =>
        rw [hget] at hremove
        exact hremove
      | some e => exact counted_remove_reserved hget (h e hget)
    unfold step
    show ((s.onInflight fun f => f.remove out.packetID).dropInflight).gap - 0 = s.gap - 0
    rw [← hremoved]
    rfl
  | stored pk out =>
    refine ⟨?_, trivial⟩
    unfold step
    dsimp only
    split
    · rw [gap_onInflight (counted_decreaseSendQuota _)]
      rfl
    · rfl
  | check pk out =>
    unfold step
    dsimp only
    split
    · split
      · exact ⟨rfl, trivial⟩
      · exact ⟨rfl, trivial⟩
    · exact ⟨rfl, trivial⟩
  | push pk out =>
    unfold step tryPush
    dsimp only
    split
    · exact ⟨rfl, trivial⟩
    · exact ⟨rfl, trivial⟩
  | drop pk out code =>
    unfold step Inflight.delete
    dsimp only
    cases hget : s.client.inflight.get out.packetID with
    | none => exact ⟨rfl, trivial⟩
    | some e => exact ⟨gap_remove_counted hget (h e hget), trivial⟩
  | uncount pk out code => exact ⟨gap_uncount s, trivial⟩
  | refund pk out code =>
    refine ⟨?_, trivial⟩
    unfold step
    rw [gap_onInflight (counted_increaseSendQuota _)]
    rfl
  | resume pk out r =>
    have hstep : (r.step env s).2.gap = s.gap := r.gap_step h
    cases r with
    | done err => exact ⟨rfl, trivial⟩
    | _ =>
      refine ⟨?_, trivial⟩
      exact congrArg (· - (0 : Int)) hstep
  | returned pk out err => exact ⟨rfl, trivial⟩

end Publishing

namespace Acking

def owes : Acking → Int
  | .refund _ _ => 1
  | .uncount _ _ => 1
  | _ => 0

def Fresh (s : Session) : Acking → Prop
  | .delete pk entry => ∀ e, s.client.inflight.get pk.packetID = some e → e.isCounted = entry.isCounted
  | .resume r => r.Fresh s
  | _ => True

instance (a : Acking) : Decidable (a.Fresh s) := by
  cases a with
  | delete pk entry => exact inferInstanceAs (Decidable (∀ e : Packet, _ = some e → e.isCounted = entry.isCounted))
  | resume r => exact inferInstanceAs (Decidable (r.Fresh s))
  | _ => exact .isTrue trivial

theorem gap_step (env : Env) {a : Acking} (h : a.Fresh s) :
    (a.step env s).2.gap - (a.step env s).1.owes = s.gap - a.owes := by
  cases a with
  | get pk =>
    unfold step
    dsimp only
    split <;> rfl
  | delete pk entry =>
    unfold step Inflight.delete
    dsimp only
    cases hget : s.client.inflight.get pk.packetID with
    | none => rfl
    | some e =>
      have hsame := h e hget
      dsimp only [Option.isSome_some]
      rw [if_pos rfl]
      split
      · rename_i hreserved
        rw [Packet.isCounted_of_reserved hreserved] at hsame
        rw [gap_onInflight (counted_remove_reserved hget hsame)]
        rfl
      · rename_i hcounted
        rw [Packet.isCounted_iff.mpr hcounted] at hsame
        exact gap_remove_counted hget hsame
  | refund pk entry =>
    unfold step
    rw [gap_onInflight (counted_increaseSendQuota _)]
    rfl
  | uncount pk entry => exact gap_uncount s
  | resume r =>
    have hstep : (r.step env s).2.gap = s.gap := r.gap_step h
    cases r with
    | done err => rfl
    | _ => exact congrArg (· - (0 : Int)) hstep
  | done => rfl

end Acking

namespace Clearing

def owes : Clearing → Int
  | .uncount _ => 1
  | _ => 0

def Fresh (s : Session) : Clearing → Prop
  | .delete (tk :: _) => ∀ e, s.client.inflight.get tk.packetID = some e → e.isCounted = tk.isCounted
  | _ => True

instance (p : Clearing) : Decidable (p.Fresh s) := by
  rcases p with _ | (_ | ⟨tk, tks⟩) | _
  case delete.cons => exact inferInstanceAs (Decidable (∀ e : Packet, _ = some e → e.isCounted = tk.isCounted))
  all_goals exact .isTrue trivial

theorem gap_step (env : Env) {p : Clearing} (h : p.Fresh s) :
    (p.step env s).2.gap - (p.step env s).1.owes = s.gap - p.owes := by
  cases p with
  | snapshot => rfl
  | delete tks =>
    cases tks with
    | nil => rfl
    | cons tk tks =>
      unfold step Inflight.delete
      dsimp only
      cases hget : s.client.inflight.get tk.packetID with
      | none => rfl
      | some e =>
        have hsame := h e hget
        dsimp only [Option.isSome_some]
        rw [if_pos rfl]
        split
        · rename_i hcounted
          rw [Packet.isCounted_iff.mpr hcounted] at hsame
          rw [gap_emit]
          exact gap_remove_counted hget hsame
        · rename_i hreserved
          rw [not_not] at hreserved
          rw [Packet.isCounted_of_reserved hreserved] at hsame
          rw [gap_emit, gap_onInflight (counted_remove_reserved hget hsame)]
          rfl
  | uncount tks => exact gap_uncount s

end Clearing
end Session

namespace Traffic
open Session

/-! ### Runs -/

variable {t t' : Traffic} {env : Env}

def owed (t : Traffic) : Int :=
  (t.calls.map Publishing.owes).sum + t.reader.owes + (t.clears.map Clearing.owes).sum

def gap (t : Traffic) : Int := t.session.gap - t.owed

structure Idle (t : Traffic) : Prop where
  calls : ∀ p ∈ t.calls, ∃ pk out err, p = .returned pk out err
  reader : t.reader = .done
  clears : ∀ p ∈ t.clears, p = .delete []

instance (p : Publishing) : Decidable (∃ pk out err, p = .returned pk out err) := by
  cases p with
  | returned pk out err => exact .isTrue ⟨pk, out, err, rfl⟩
  | _ => exact .isFalse fun ⟨_, _, _, h⟩ => by cases h

instance (p : Clearing) : Decidable (p = .delete []) := by
  rcases p with _ | (_ | _) | _
  all_goals first | exact .isTrue rfl | exact .isFalse fun h => by cases h

instance (a : Acking) : Decidable (a = .done) := by
  cases a with
  | done => exact .isTrue rfl
  | _ => exact .isFalse fun h => by cases h

instance : Decidable t.Idle :=
  decidable_of_iff ((∀ p ∈ t.calls, ∃ pk out err, p = .returned pk out err) ∧ t.reader = .done ∧
      ∀ p ∈ t.clears, p = .delete [])
    ⟨fun ⟨hcalls, hreader, hclears⟩ => ⟨hcalls, hreader, hclears⟩, fun h => ⟨h.calls, h.reader, h.clears⟩⟩

theorem Idle.owed (h : t.Idle) : t.owed = 0 := by
  have hcalls : (t.calls.map Publishing.owes).sum = 0 := by
    refine List.sum_eq_zero fun x hx => ?_
    obtain ⟨p, hp, rfl⟩ := List.mem_map.mp hx
    obtain ⟨pk, out, err, rfl⟩ := h.calls p hp
    rfl
  have hclears : (t.clears.map Clearing.owes).sum = 0 := by
    refine List.sum_eq_zero fun x hx => ?_
    obtain ⟨p, hp, rfl⟩ := List.mem_map.mp hx
    rw [h.clears p hp]
    rfl
  unfold Traffic.owed
  rw [hcalls, hclears, h.reader]
  rfl

/-- A step that takes an entry out, or puts a deferred one back, finds it as the copy said by which it
decides. -/
def Fresh (t : Traffic) : Env × Move → Prop
  | (_, .advance c) => ∀ p, t.calls[c]? = some p → p.Fresh t.session
  | (_, .read) => t.reader.Fresh t.session
  | (_, .clearNext k) => ∀ p, t.clears[k]? = some p → p.Fresh t.session
  | _ => True

instance (move : Env × Move) : Decidable (t.Fresh move) := by
  obtain ⟨env, move⟩ := move
  cases move with
  | advance c => exact inferInstanceAs (Decidable (∀ p : Publishing, _ = some p → p.Fresh t.session))
  | read => exact inferInstanceAs (Decidable (t.reader.Fresh t.session))
  | clearNext k => exact inferInstanceAs (Decidable (∀ p : Clearing, _ = some p → p.Fresh t.session))
  | _ => exact .isTrue trivial

def Storable (t : Traffic) : Prop := ∀ p ∈ t.calls, p.Storable

theorem gap_publish (env : Env) (sub : Subscription) (m : Message) (h : t.Storable) :
    (t.publish env sub m).gap = t.gap ∧ (t.publish env sub m).Storable := by
  unfold publish
  dsimp only
  split
  · exact ⟨rfl, h⟩
  · split
    · exact ⟨rfl, h⟩
    · obtain ⟨outbound, hprep⟩ := prepare_client t.session sub m.packet
      have hexp := prepare_expiry t.session sub m.packet
      generalize t.session.prepare sub m.packet = prepared at hprep hexp
      obtain ⟨out, s'⟩ := prepared
      dsimp only at hprep hexp ⊢
      split
      · refine ⟨?_, ?_⟩
        · unfold gap owed
          dsimp only
          have hnew : ([Publishing.waiting m.packet out].map Publishing.owes).sum = 0 := rfl
          rw [List.map_append, List.sum_append, hnew, add_zero, hprep]
          rfl
        · intro p hp
          rcases List.mem_append.mp hp with hp | hp
          · exact h p hp
          · rw [List.mem_singleton.mp hp]
            show out.expiry ≠ inflightExpiryReserved
            rw [hexp]
            exact m.plain.2
      · exact ⟨rfl, h⟩

theorem gap_advance {c : Nat} (h : t.Storable) (hfresh : ∀ p, t.calls[c]? = some p → p.Fresh t.session) :
    (t.advance env c).gap = t.gap ∧ (t.advance env c).Storable := by
  unfold advance
  split
  · exact ⟨rfl, h⟩
  · rename_i p hp
    split
    · exact ⟨rfl, h⟩
    · obtain ⟨hgap, hstorable⟩ := Publishing.gap_step env (h p (List.mem_of_getElem? hp)) (hfresh p hp)
      have hsum := Runs.sum_map_set Publishing.owes t.calls (p.step env t.session).1 hp
      refine ⟨?_, ?_⟩
      · show (p.step env t.session).2.gap -
            (((t.calls.set c (p.step env t.session).1).map Publishing.owes).sum + t.reader.owes +
              (t.clears.map Clearing.owes).sum) =
          t.session.gap - ((t.calls.map Publishing.owes).sum + t.reader.owes + (t.clears.map Clearing.owes).sum)
        omega
      · intro q hq
        rcases List.mem_or_eq_of_mem_set hq with hq | rfl
        · exact h q hq
        · exact hstorable

theorem gap_clearNext {k : Nat} (hfresh : ∀ p, t.clears[k]? = some p → p.Fresh t.session) :
    (t.clearNext env k).gap = t.gap := by
  unfold clearNext
  split
  · rfl
  · rename_i p hp
    have hgap := Clearing.gap_step env (hfresh p hp)
    have hsum := Runs.sum_map_set Clearing.owes t.clears (p.step env t.session).1 hp
    show (p.step env t.session).2.gap - ((t.calls.map Publishing.owes).sum + t.reader.owes +
        ((t.clears.set k (p.step env t.session).1).map Clearing.owes).sum) =
      t.session.gap - ((t.calls.map Publishing.owes).sum + t.reader.owes + (t.clears.map Clearing.owes).sum)
    omega

theorem gap_read (hfresh : t.reader.Fresh t.session) : (t.read env).gap = t.gap := by
  have hgap := Acking.gap_step env hfresh
  show (t.reader.step env t.session).2.gap - ((t.calls.map Publishing.owes).sum +
      (t.reader.step env t.session).1.owes + (t.clears.map Clearing.owes).sum) =
    t.session.gap - ((t.calls.map Publishing.owes).sum + t.reader.owes + (t.clears.map Clearing.owes).sum)
  omega

theorem gap_writeNext (env : Env) (s : Session) : (s.writeNext env).gap = s.gap := by
  unfold writeNext
  split
  · rfl
  · unfold Session.gap
    rw [writePacketOn_client, writePacketOn_server]

theorem gap_move {move : Env × Move} (h : t.Storable) (hfresh : t.Fresh move) (hstep : Move.Step t move t') :
    t'.gap = t.gap ∧ t'.Storable := by
  obtain ⟨env, move⟩ := move
  rw [hstep]
  cases move with
  | publish sub m => exact gap_publish env sub m h
  | advance c => exact gap_advance h hfresh
  | writeNext => exact ⟨congrArg (· - t.owed) (gap_writeNext env t.session), h⟩
  | puback pk =>
    show (t.puback pk).gap = t.gap ∧ (t.puback pk).Storable
    unfold puback
    split
    · rename_i hdone
      refine ⟨?_, h⟩
      unfold gap owed
      rw [hdone]
      rfl
    · exact ⟨rfl, h⟩
  | read => exact ⟨gap_read hfresh, h⟩
  | clear =>
    refine ⟨?_, h⟩
    show t.session.gap - ((t.calls.map Publishing.owes).sum + t.reader.owes +
      ((t.clears ++ [Clearing.snapshot]).map Clearing.owes).sum) = _
    have hnew : ([Clearing.snapshot].map Clearing.owes).sum = 0 := rfl
    rw [List.map_append, List.sum_append, hnew, add_zero]
    rfl
  | clearNext k =>
    refine ⟨gap_clearNext hfresh, ?_⟩
    show (t.clearNext env k).Storable
    unfold clearNext
    split
    · exact h
    · exact h
  | stop err => exact ⟨congrArg (· - t.owed) (gap_stop env t.session err), h⟩

/-- In every run from a state in which no call is in progress and the gauge is exact, and whose steps
find the entries as they read them, the gauge is exact whenever no call is in progress. -/
theorem gauge_exact_of_fresh (hidle : t.Idle)
    (hexact : t.session.server.info.inflight = t.session.client.inflight.counted)
    (hr : Runs.Reach Move.Step Fresh t t') (hdone : t'.Idle) :
    t'.session.server.info.inflight = t'.session.client.inflight.counted := by
  have hstart : t.gap = t.gap ∧ t.Storable := by
    refine ⟨rfl, fun p hp => ?_⟩
    obtain ⟨pk, out, err, rfl⟩ := hidle.calls p hp
    trivial
  have hsteps : ∀ {u v : Traffic} {move : Env × Move}, (u.gap = t.gap ∧ u.Storable) → u.Fresh move →
      Move.Step u move v → (v.gap = t.gap ∧ v.Storable) := by
    intro u v move hu hfresh hstep
    obtain ⟨hgap, hstorable⟩ := gap_move hu.2 hfresh hstep
    exact ⟨hgap.trans hu.1, hstorable⟩
  have hend : t'.gap = t.gap ∧ t'.Storable := @Runs.Reach.invariant _ _ _ _ _ _ (fun u => u.gap = t.gap ∧ u.Storable)
    hr hstart hsteps
  have hgap := hend.1
  unfold gap Session.gap at hgap
  rw [hidle.owed, hdone.owed] at hgap
  omega

/-! ### Three messages -/

def runAll (env : Env) (t : Traffic) (moves : List Move) : Traffic := moves.foldl (Move.run env) t

theorem reach_runAll {ok : Traffic → Env × Move → Prop} {moves : List Move} (hr : Runs.Reach Move.Step ok t t')
    (h : Runs.Along (Move.run env) (fun u move => ok u (env, move)) t' moves) :
    Runs.Reach Move.Step ok t (t'.runAll env moves) := by
  induction moves generalizing t' with
  | nil => exact hr
  | cons move moves ih => exact ih (hr.next h.1 rfl) h.2

theorem clearNext_of_one {k : Nat} {e : Packet} (hk : t.clears[k]? = some .snapshot)
    (he : values t.session.client.inflight.internal = [e]) :
    t.clearNext env k = { t with clears := t.clears.set k (.delete [e]) } := by
  unfold clearNext
  rw [hk]
  unfold Clearing.step update
  dsimp only
  rw [Inflight.getAll_of_values _ he, List.drop_length]
  rfl

def calm : Traffic := { session := { client := {} } }

theorem plain_message : Plain message.expiry := ⟨by decide, by decide⟩

def publishOne : Move := .publish { filter := [97], qos := 2 } ⟨message, plain_message⟩

/-- Two messages are sent and the client acknowledges the first. When `ClearInflights` begins, the reader has taken that
one from the map and still owes the gauge its decrement. -/
def acknowledged : Traffic :=
  calm.runAll (.accepting 100) (List.flatten [[publishOne, publishOne], .replicate 7 (.advance 0),
    .replicate 7 (.advance 1), [.puback { packetID := 1 }, .read, .read, .clear]])

/-- `acknowledged` with the snapshot that is taken in it. -/
def snapshotted : Traffic :=
  { acknowledged with clears := [.delete [(values acknowledged.session.client.inflight.internal).headD {}]] }

/-- The second message is deleted in turns with the reader, and a third is sent. -/
def cleared : Traffic :=
  snapshotted.runAll (.accepting 100)
    (List.flatten [[.clearNext 0, .read, .clearNext 0], .replicate 7 .read, [publishOne], .replicate 7 (.advance 2)])

theorem gauge_exact_of_cleared : cleared.session.server.info.inflight = 1 ∧
    cleared.session.client.inflight.counted = 1 := by
  have hacknowledged : Runs.Reach Move.Step Fresh calm acknowledged := reach_runAll .refl (by decide +kernel)
  have hsecond : values acknowledged.session.client.inflight.internal =
      [(values acknowledged.session.client.inflight.internal).headD {}] := by decide +kernel
  have hsnapshot : acknowledged.clearNext (.accepting 100) 0 = snapshotted := clearNext_of_one rfl hsecond
  have hsnapshotted : Runs.Reach Move.Step Fresh calm snapshotted :=
    .next (i := (.accepting 100, .clearNext 0)) hacknowledged (by decide +kernel) hsnapshot.symm
  have hcleared : Runs.Reach Move.Step Fresh calm cleared := reach_runAll hsnapshotted (by decide +kernel)
  have hcounted : cleared.session.client.inflight.counted = 1 := by decide +kernel
  refine ⟨?_, hcounted⟩
  rw [gauge_exact_of_fresh (by decide +kernel) rfl hcleared (by decide +kernel), hcounted]
  rfl

def midway : Traffic := calm.runAll (.accepting 100) [publishOne, .advance 0, .advance 0, .clear]

/-- `ClearInflights` takes its snapshot while the id is reserved and deletes the entry after the message
was stored: the gauge counts the message, which is gone. -/
theorem gauge_high_of_snapshot :
    let t := (midway.clearNext (.accepting 100) 0).runAll (.accepting 100)
      [.advance 0, .advance 0, .clearNext 0, .advance 0, .advance 0, .advance 0]
    t.Idle ∧ t.session.server.info.inflight = 1 ∧ t.session.client.inflight.counted = 0 := by
  rw [clearNext_of_one (e := Inflight.reservation 100 1) rfl rfl]
  decide +kernel

end Traffic
end Mqtt
