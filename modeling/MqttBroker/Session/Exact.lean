import MqttBroker.Session.Inflight

/-! Exact send quota: what is left and what the entries hold make up the maximum.
The operations on the inflight messages that keep it so. -/

namespace Mqtt
namespace Inflight

/-- The send quota is the maximum less what the entries hold, as `Clone` would recompute it. -/
structure Exact (f : Inflight) : Prop where
  limited : 0 < f.maximumSendQuota
  balance : f.sendQuota + f.holding = f.maximumSendQuota
  nonneg : 0 ≤ f.sendQuota
  parked : ∀ {id pk}, f.get id = some pk → pk.expiry = inflightExpiryDeferred → 0 < pk.fixedHeader.qos

def HeldAt (f : Inflight) (id : UInt16) : Prop := ∃ pk, f.get id = some pk ∧ pk.holdsQuota = true

variable {f g : Inflight} {id : UInt16} {m : Packet}

theorem heldAt_iff : f.HeldAt id ↔ (f.get id).any Packet.holdsQuota = true := by
  unfold HeldAt
  cases f.get id <;> simp

theorem any_holdsQuota_of_not_heldAt (h : ¬ f.HeldAt id) : (f.get id).any Packet.holdsQuota = false := by
  rw [heldAt_iff, Bool.not_eq_true] at h
  exact h

theorem holdsQuota_deferred (hm : m.expiry = inflightExpiryDeferred) : m.holdsQuota = false := by
  simp [Packet.holdsQuota, hm]

theorem holdsQuota_reserved (hm : m.expiry = inflightExpiryReserved) : m.holdsQuota = false := by
  simp [Packet.holdsQuota, hm]

theorem not_heldAt_of_reserved (hget : f.get id = some m) (hm : m.expiry = inflightExpiryReserved) : ¬ f.HeldAt id := by
  rintro ⟨e, he, hholds⟩
  rw [hget] at he
  cases he
  rw [holdsQuota_reserved hm] at hholds
  cases hholds

theorem holdsQuota_qos_zero (hm : m.fixedHeader.qos = 0) : m.holdsQuota = false := by
  simp [Packet.holdsQuota, hm]

theorem holding_eq_zero_of_not_held (h : ∀ id, ¬ f.HeldAt id) : f.holding = 0 := by
  refine FiniteMap.count_eq_zero_iff.mpr fun id pk hpk => ?_
  rw [← Bool.not_eq_true]
  exact fun hh => h id ⟨pk, hpk, hh⟩

theorem Exact.congr (h : f.Exact) (hentries : g.internal = f.internal)
    (hmax : g.maximumSendQuota = f.maximumSendQuota) (hquota : g.sendQuota = f.sendQuota) : g.Exact where
  limited := hmax ▸ h.limited
  balance := by
    have hholding : g.holding = f.holding := by
      unfold holding
      rw [hentries]
    rw [hmax, hquota, hholding]
    exact h.balance
  nonneg := hquota ▸ h.nonneg
  parked {id pk} hpk := by
    have hget : g.get id = f.get id := congrArg (fun m => AList.lookup id m) hentries
    rw [hget] at hpk
    exact h.parked hpk

theorem Exact.same (h : f.Exact) (hs : SameSend f g) : g.Exact :=
  h.congr hs.internal hs.maximumSendQuota hs.sendQuota

variable {pk : Packet}

theorem parked_put (h : f.Exact) (hm : m.expiry = inflightExpiryDeferred → 0 < m.fixedHeader.qos)
    (hpk : (f.put m).get id = some pk) (hdef : pk.expiry = inflightExpiryDeferred) :
    0 < pk.fixedHeader.qos := by
  rw [get_put] at hpk
  split at hpk
  · cases hpk
    exact hm hdef
  · exact h.parked hpk hdef

theorem parked_remove (h : f.Exact) {id' : UInt16} (hpk : (f.remove id').get id = some pk)
    (hdef : pk.expiry = inflightExpiryDeferred) : 0 < pk.fixedHeader.qos := by
  rw [get_remove] at hpk
  split at hpk
  · cases hpk
  · exact h.parked hpk hdef

theorem Exact.put (h : f.Exact) (hold : (f.get m.packetID).any Packet.holdsQuota = m.holdsQuota)
    (hm : m.expiry = inflightExpiryDeferred → 0 < m.fixedHeader.qos) : (f.put m).Exact where
  limited := h.limited
  balance := by
    have hput := f.holding_put m
    have hbal := h.balance
    rw [hold] at hput
    show f.sendQuota + (f.put m).holding = f.maximumSendQuota
    omega
  nonneg := h.nonneg
  parked := parked_put h hm

theorem Exact.take (h : f.Exact) (hquota : 0 < f.sendQuota) (hold : ¬ f.HeldAt m.packetID)
    (hm : m.holdsQuota = true) : ({ f.put m with sendQuota := f.sendQuota - 1 } : Inflight).Exact where
  limited := h.limited
  balance := by
    have hput := f.holding_put m
    have hbal := h.balance
    rw [any_holdsQuota_of_not_heldAt hold, hm] at hput
    show f.sendQuota - 1 + (f.put m).holding = f.maximumSendQuota
    simp only [Bool.toNat_false, Bool.toNat_true] at hput
    omega
  nonneg := by
    show 0 ≤ f.sendQuota - 1
    omega
  parked := parked_put h fun hdef => by
    rw [holdsQuota_deferred hdef] at hm
    cases hm

theorem Exact.remove (h : f.Exact) (hold : ¬ f.HeldAt id) : (f.remove id).Exact where
  limited := h.limited
  balance := by
    have hrem := f.holding_remove id
    have hbal := h.balance
    rw [any_holdsQuota_of_not_heldAt hold] at hrem
    show f.sendQuota + (f.remove id).holding = f.maximumSendQuota
    simp only [Bool.toNat_false] at hrem
    omega
  nonneg := h.nonneg
  parked := parked_remove h

theorem exact_increase (hlim : 0 < g.maximumSendQuota) (hbal : g.sendQuota + 1 + g.holding = g.maximumSendQuota)
    (hnn : 0 ≤ g.sendQuota)
    (hparked : ∀ {id pk}, g.get id = some pk → pk.expiry = inflightExpiryDeferred → 0 < pk.fixedHeader.qos) :
    g.increaseSendQuota.2.Exact := by
  unfold increaseSendQuota
  rw [if_neg (by omega)]
  refine ⟨hlim, ?_, ?_, hparked⟩
  · show g.sendQuota + 1 + g.holding = g.maximumSendQuota
    exact hbal
  · show 0 ≤ g.sendQuota + 1
    omega

theorem Exact.release (h : f.Exact) (hold : f.HeldAt id) : (f.remove id).increaseSendQuota.2.Exact := by
  have hrem := f.holding_remove id
  have hbal := h.balance
  rw [heldAt_iff.mp hold, Bool.toNat_true] at hrem
  refine exact_increase h.limited ?_ h.nonneg (parked_remove h)
  show f.sendQuota + 1 + (f.remove id).holding = f.maximumSendQuota
  omega

theorem Exact.giveBack (h : f.Exact) (hold : f.HeldAt m.packetID) (hm : m.holdsQuota = false)
    (hpark : m.expiry = inflightExpiryDeferred → 0 < m.fixedHeader.qos) :
    (f.put m).increaseSendQuota.2.Exact := by
  have hput := f.holding_put m
  have hbal := h.balance
  rw [heldAt_iff.mp hold, hm] at hput
  simp only [Bool.toNat_false, Bool.toNat_true] at hput
  refine exact_increase h.limited ?_ h.nonneg (parked_put h hpark)
  show f.sendQuota + 1 + (f.put m).holding = f.maximumSendQuota
  omega

theorem Exact.increase_idle (h : f.Exact) (hidle : f.holding = 0) : f.increaseSendQuota.2 = f := by
  have hbal := h.balance
  unfold increaseSendQuota
  rw [if_pos (by omega)]

theorem Exact.increase_remove (h : f.Exact) (hold : f.HeldAt id ∨ f.holding = 0) :
    (f.remove id).increaseSendQuota.2.Exact := by
  rcases hold with hheld | hidle
  · exact h.release hheld
  · have hnot : ¬ f.HeldAt id := by
      intro hheld
      have hrem := f.holding_remove id
      rw [heldAt_iff.mp hheld, Bool.toNat_true] at hrem
      omega
    have hremoved := h.remove hnot
    have hzero : (f.remove id).holding = 0 := by
      have hrem := f.holding_remove id
      omega
    rw [hremoved.increase_idle hzero]
    exact hremoved

theorem Exact.recover (h : f.Exact) : f.recoverStarvedSendQuota.2 = f := by
  unfold recoverStarvedSendQuota
  split
  · rfl
  · split
    · rfl
    · rename_i hany
      have hidle : f.holding = 0 := by
        refine holding_eq_zero_of_not_held fun id => ?_
        rintro ⟨pk, hpk, hholds⟩
        have hmem : pk ∈ FiniteMap.values f.internal := FiniteMap.mem_values_iff.mpr ⟨id, hpk⟩
        have hdef : pk.expiry = inflightExpiryDeferred := by
          rw [Bool.not_eq_true, List.any_eq_false] at hany
          simpa using hany pk hmem
        rw [holdsQuota_deferred hdef] at hholds
        cases hholds
      have hbal := h.balance
      have hlim := h.limited
      rw [if_pos (by omega)]

theorem Exact.resetIfEmpty (h : f.Exact) : f.resetSendQuotaIfEmpty.2 = f := by
  unfold resetSendQuotaIfEmpty
  split
  · rfl
  · rename_i hlen
    have hidle : f.holding = 0 := by
      refine holding_eq_zero_of_not_held fun id => ?_
      rintro ⟨pk, hpk, -⟩
      have hnone := FiniteMap.size_eq_zero_iff.mp (not_not.mp hlen) id
      rw [show f.internal.lookup id = some pk from hpk] at hnone
      cases hnone
    have hbal := h.balance
    split
    · rfl
    · rw [if_pos (by omega)]

end Inflight
end Mqtt
