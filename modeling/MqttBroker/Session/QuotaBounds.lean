import Mathlib.Algebra.Ring.Int.Defs
import MqttBroker.Session.Inflight

/-! The range of the quotas. The code has them in 32 bits. In every order of calls both quotas stay between zero
and their maximum, no sum or difference leaves the 32 bits, and so the counters are the integers of the model. -/

namespace Mqtt
open FiniteMap

def int32 (x : Int) : Int := x.bmod (2 ^ 32)

theorem int32_of_lt {x : Int} (hlow : -2 ^ 31 ≤ x) (hhigh : x < 2 ^ 31) : int32 x = x :=
  Int.bmod_eq_of_le hlow hhigh

namespace Inflight

inductive Call where
  | set (m : Packet)
  | tryReserve (now : Int) (id : UInt16) (max : Int)
  | replaceCounted (m : Packet)
  | delete (id : UInt16)
  | takeNextImmediate (order : RangeOrder)
  | decreaseSendQuota
  | increaseSendQuota
  | decreaseReceiveQuota
  | increaseReceiveQuota
  | resetSendQuota (n : UInt16)
  | resetReceiveQuota (n : UInt16)
  | reconcileSendQuotaCap (max : Int32)
  | recoverStarvedSendQuota
  | resetSendQuotaIfEmpty
  | clone

namespace Call

def run (f : Inflight) : Call → Inflight
  | set m => (f.set m).2
  | tryReserve now id max => (f.tryReserve now id max).2
  | replaceCounted m => (f.replaceCounted m).2
  | delete id => (f.delete id).2
  | takeNextImmediate order => (f.takeNextImmediate order).2
  | decreaseSendQuota => f.decreaseSendQuota.2
  | increaseSendQuota => f.increaseSendQuota.2
  | decreaseReceiveQuota => f.decreaseReceiveQuota.2
  | increaseReceiveQuota => f.increaseReceiveQuota.2
  | resetSendQuota n => f.resetSendQuota n.toNat
  | resetReceiveQuota n => f.resetReceiveQuota n.toNat
  | reconcileSendQuotaCap max => f.reconcileSendQuotaCap max.toInt
  | recoverStarvedSendQuota => f.recoverStarvedSendQuota.2
  | resetSendQuotaIfEmpty => f.resetSendQuotaIfEmpty.2
  | clone => f.clone

/-- `left` of `Clone` and `ReconcileSendQuotaCap`. -/
def left32 (f : Inflight) (max : Int) : Int :=
  let left := int32 (max - int32 f.holding)
  if left < 0 then 0 else left

def run32 (f : Inflight) : Call → Inflight
  | decreaseSendQuota => if f.sendQuota ≤ 0 then f else { f with sendQuota := int32 (f.sendQuota - 1) }
  | increaseSendQuota =>
    if f.maximumSendQuota ≤ f.sendQuota then f else { f with sendQuota := int32 (f.sendQuota + 1) }
  | decreaseReceiveQuota => if f.receiveQuota ≤ 0 then f else { f with receiveQuota := int32 (f.receiveQuota - 1) }
  | increaseReceiveQuota =>
    if f.maximumReceiveQuota ≤ f.receiveQuota then f else { f with receiveQuota := int32 (f.receiveQuota + 1) }
  | reconcileSendQuotaCap max =>
    if max.toInt ≤ 0 then f else { f with maximumSendQuota := max.toInt, sendQuota := left32 f max.toInt }
  | clone => { f with sendQuota := if 0 < f.maximumSendQuota then left32 f f.maximumSendQuota else 0 }
  | call => call.run f

end Call

structure Bounded (f : Inflight) : Prop where
  send_nonneg : 0 ≤ f.sendQuota
  send_le : f.sendQuota ≤ f.maximumSendQuota
  receive_nonneg : 0 ≤ f.receiveQuota
  receive_le : f.receiveQuota ≤ f.maximumReceiveQuota

/-- And the maximum is an `int32`. -/
structure Within (f : Inflight) : Prop extends Bounded f where
  send_lt : f.maximumSendQuota < 2 ^ 31
  receive_lt : f.maximumReceiveQuota < 2 ^ 31

variable {f : Inflight}

theorem holding_le (f : Inflight) : f.holding ≤ 65536 := by
  have hkeys : f.internal.keys.map UInt16.toNat ⊆ List.range 65536 := by
    intro n hn
    obtain ⟨id, -, rfl⟩ := List.mem_map.mp hn
    exact List.mem_range.mpr id.toNat_lt
  have hnodup : (f.internal.keys.map UInt16.toNat).Nodup :=
    f.internal.keys_nodup.map fun _ _ => UInt16.toNat_inj.mp
  calc f.holding ≤ (values f.internal).length := List.countP_le_length
    _ = (f.internal.keys.map UInt16.toNat).length := by simp [values, AList.keys, List.keys]
    _ ≤ (List.range 65536).length := (hnodup.subperm hkeys).length_le
    _ = 65536 := List.length_range

theorem left32_eq {max : Int} (hpos : 0 < max) (hlt : max < 2 ^ 31) :
    Call.left32 f max = Max.max 0 (max - f.holding) := by
  have hholding := f.holding_le
  have hcount : int32 f.holding = f.holding := int32_of_lt (by omega) (by omega)
  have hleft : int32 (max - f.holding) = max - f.holding := int32_of_lt (by omega) (by omega)
  unfold Call.left32
  rw [hcount, hleft]
  dsimp only
  omega

theorem Within.run32_eq (h : Within f) (call : Call) : call.run32 f = call.run f := by
  obtain ⟨⟨hsend, hsendle, hreceive, hreceivele⟩, hsendlt, hreceivelt⟩ := h
  cases call with
  | decreaseSendQuota =>
    have hone : int32 (f.sendQuota - 1) = f.sendQuota - 1 := int32_of_lt (by omega) (by omega)
    rw [Call.run32, Call.run, Inflight.decreaseSendQuota, hone]
    split <;> rfl
  | increaseSendQuota =>
    rw [Call.run32, Call.run, Inflight.increaseSendQuota]
    split
    · rfl
    · rw [int32_of_lt (by omega) (by omega)]
  | decreaseReceiveQuota =>
    have hone : int32 (f.receiveQuota - 1) = f.receiveQuota - 1 := int32_of_lt (by omega) (by omega)
    rw [Call.run32, Call.run, Inflight.decreaseReceiveQuota, hone]
    split <;> rfl
  | increaseReceiveQuota =>
    rw [Call.run32, Call.run, Inflight.increaseReceiveQuota]
    split
    · rfl
    · rw [int32_of_lt (by omega) (by omega)]
  | reconcileSendQuotaCap max =>
    rw [Call.run32, Call.run, Inflight.reconcileSendQuotaCap]
    split
    · rfl
    · rename_i hpos
      rw [left32_eq (not_le.mp hpos) max.toInt_lt]
  | clone =>
    rw [Call.run32, Call.run, Inflight.clone]
    split
    · rename_i hpos
      rw [left32_eq hpos hsendlt]
    · rfl
  | _ => rfl

theorem within_new : Within new := by
  refine ⟨⟨?_, ?_, ?_, ?_⟩, ?_, ?_⟩ <;> decide

section
variable {quota max : Int} (h : Within f) (hnonneg : 0 ≤ quota) (hle : quota ≤ max) (hlt : max < 2 ^ 31)
include h

theorem Within.put (m : Packet) : Within (f.put m) :=
  ⟨⟨h.send_nonneg, h.send_le, h.receive_nonneg, h.receive_le⟩, h.send_lt, h.receive_lt⟩

theorem Within.remove (id : UInt16) : Within (f.remove id) :=
  ⟨⟨h.send_nonneg, h.send_le, h.receive_nonneg, h.receive_le⟩, h.send_lt, h.receive_lt⟩

include hnonneg hle hlt

theorem Within.send : Within { f with sendQuota := quota, maximumSendQuota := max } :=
  ⟨⟨hnonneg, hle, h.receive_nonneg, h.receive_le⟩, hlt, h.receive_lt⟩

theorem Within.receive : Within { f with receiveQuota := quota, maximumReceiveQuota := max } :=
  ⟨⟨h.send_nonneg, h.send_le, hnonneg, hle⟩, h.send_lt, hlt⟩

end

theorem Within.run (h : Within f) (call : Call) : Within (call.run f) := by
  have hsend := h.send_nonneg
  have hreceive := h.receive_nonneg
  have hmax : 0 ≤ f.maximumSendQuota := h.send_nonneg.trans h.send_le
  cases call with
  | set m => exact h.put m
  | tryReserve now id max =>
    rw [Call.run, Inflight.tryReserve]
    split
    · exact h
    · split
      · exact h
      · exact h.put _
  | replaceCounted m =>
    rw [Call.run, Inflight.replaceCounted]
    split
    · split
      · exact h
      · exact h.put m
    · exact h.put m
  | delete id => exact h.remove id
  | takeNextImmediate order =>
    rw [Call.run, Inflight.takeNextImmediate]
    split
    · exact h
    · exact h.put _
  | decreaseSendQuota =>
    rw [Call.run, Inflight.decreaseSendQuota]
    split
    · exact h
    · exact h.send (by omega) ((Int.sub_le_self _ Int.one_nonneg).trans h.send_le) h.send_lt
  | increaseSendQuota =>
    rw [Call.run, Inflight.increaseSendQuota]
    split
    · exact h
    · exact h.send (by omega) (by omega) h.send_lt
  | decreaseReceiveQuota =>
    rw [Call.run, Inflight.decreaseReceiveQuota]
    split
    · exact h
    · exact h.receive (by omega) ((Int.sub_le_self _ Int.one_nonneg).trans h.receive_le) h.receive_lt
  | increaseReceiveQuota =>
    rw [Call.run, Inflight.increaseReceiveQuota]
    split
    · exact h
    · exact h.receive (by omega) (by omega) h.receive_lt
  | resetSendQuota n =>
    have hn := n.toNat_lt
    exact h.send (by omega) (Int.le_refl _) (by omega)
  | resetReceiveQuota n =>
    have hn := n.toNat_lt
    exact h.receive (by omega) (Int.le_refl _) (by omega)
  | reconcileSendQuotaCap max =>
    rw [Call.run, Inflight.reconcileSendQuotaCap]
    split
    · exact h
    · exact h.send (Int.le_max_left _ _) (by omega) max.toInt_lt
  | recoverStarvedSendQuota =>
    rw [Call.run, Inflight.recoverStarvedSendQuota]
    split
    · exact h
    · split
      · exact h
      · split
        · exact h
        · exact h.send Int.one_nonneg (by omega) h.send_lt
  | resetSendQuotaIfEmpty =>
    rw [Call.run, Inflight.resetSendQuotaIfEmpty]
    split
    · exact h
    · split
      · exact h
      · split
        · exact h
        · exact h.send hmax (Int.le_refl _) h.send_lt
  | clone => exact h.send (by split <;> omega) (by split <;> omega) h.send_lt

theorem within_run32 (calls : List Call) :
    calls.foldl Call.run32 new = calls.foldl Call.run new ∧ Within (calls.foldl Call.run new) := by
  suffices ∀ f, Within f → calls.foldl Call.run32 f = calls.foldl Call.run f ∧ Within (calls.foldl Call.run f) from
    this new within_new
  induction calls with
  | nil => exact fun f h => ⟨rfl, h⟩
  | cons call calls ih =>
    intro f h
    rw [List.foldl_cons, List.foldl_cons, h.run32_eq call]
    exact ih _ (h.run call)

/-- Whatever calls are made, the quotas stay between zero and their maximum. -/
theorem quotas_bounded (calls : List Call) : Bounded (calls.foldl Call.run32 new) := by
  obtain ⟨heq, h⟩ := within_run32 calls
  rw [heq]
  exact h.toBounded

end Inflight
end Mqtt
