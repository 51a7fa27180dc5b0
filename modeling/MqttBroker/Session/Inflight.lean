import MqttBroker.Library.FiniteMap
import MqttBroker.Wire.Packet
import Mathlib.Data.List.Sort

/-! The inflight messages of a session: one map from packet identifiers for both
directions, and the receive and send quotas. The expiry of an entry doubles as
a flow control state. -/

namespace Mqtt
open FiniteMap

def inflightExpiryDeferred : Int := -1

def inflightExpiryReserved : Int := -2

structure RangeOrder where
  visit : List Packet → List Packet
  perm : ∀ l, (visit l).Perm l

def Packet.created16 (pk : Packet) : Nat := (pk.created % 65536).toNat

def Packet.holdsQuota (pk : Packet) : Bool :=
  pk.expiry != inflightExpiryDeferred && pk.expiry != inflightExpiryReserved && pk.fixedHeader.qos > 0

structure Inflight where
  internal : Map UInt16 Packet := ∅
  receiveQuota : Int := 0
  sendQuota : Int := 0
  maximumReceiveQuota : Int := 0
  maximumSendQuota : Int := 0
  keyed : ∀ {id pk}, internal.lookup id = some pk → pk.packetID = id := by
    intro id pk h
    cases h

inductive ReserveResult where
  | ok | idTaken | full
  deriving DecidableEq, Repr

namespace Inflight

def new : Inflight := {}

def get (f : Inflight) (id : UInt16) : Option Packet := f.internal.lookup id

def len (f : Inflight) : Nat := size f.internal

def holding (f : Inflight) : Nat := count Packet.holdsQuota f.internal

def put (f : Inflight) (m : Packet) : Inflight :=
  { f with
    internal := f.internal.insert m.packetID m
    keyed := by
      intro id pk h
      rw [lookup_insert_eq] at h
      split at h
      · rename_i hid
        cases h
        exact hid.symm
      · exact f.keyed h }

def remove (f : Inflight) (id : UInt16) : Inflight :=
  { f with
    internal := f.internal.erase id
    keyed := by
      intro id' pk h
      rw [lookup_erase_eq] at h
      split at h
      · cases h
      · exact f.keyed h }

def set (f : Inflight) (m : Packet) : Bool × Inflight := ((f.get m.packetID).isNone, f.put m)

def reservation (now : Int) (id : UInt16) : Packet :=
  { packetID := id, expiry := inflightExpiryReserved, created := now }

def tryReserve (f : Inflight) (now : Int) (id : UInt16) (max : Int) : ReserveResult × Inflight :=
  if 0 < max ∧ max ≤ f.len then (.full, f)
  else
    match f.get id with
    | some _ => (.idTaken, f)
    | none => (.ok, f.put (reservation now id))

def replaceCounted (f : Inflight) (m : Packet) : Bool × Inflight :=
  match f.get m.packetID with
  | some old => if old.expiry ≠ inflightExpiryReserved then (false, f) else (true, f.put m)
  | none => (true, f.put m)

def delete (f : Inflight) (id : UInt16) : Bool × Inflight := ((f.get id).isSome, f.remove id)

/-- `Clone`: the same entries with the send quota recomputed from them. -/
def clone (f : Inflight) : Inflight :=
  { f with
    sendQuota :=
      if 0 < f.maximumSendQuota then max 0 (f.maximumSendQuota - f.holding) else 0 }

def reconcileSendQuotaCap (f : Inflight) (max : Int) : Inflight :=
  if max ≤ 0 then f
  else { f with maximumSendQuota := max, sendQuota := Max.max 0 (max - f.holding) }

/-- `GetAll`. Packets of equal creation time come in the order visited. -/
def getAll (order : RangeOrder) (f : Inflight) (immediate : Bool) : List Packet :=
  ((order.visit (values f.internal)).filter fun pk =>
      !immediate || pk.expiry == inflightExpiryDeferred).mergeSort fun a b => a.created16 ≤ b.created16

/-- One turn of the loop of `TakeNextImmediate`. -/
def selectOlder (selected : Option Packet) (v : Packet) : Option Packet :=
  if v.expiry ≠ inflightExpiryDeferred then selected
  else
    match selected with
    | none => some v
    | some s => if v.created16 < s.created16 then some v else some s

def selectDeferred (pks : List Packet) : Option Packet := pks.foldl selectOlder none

def takeNextImmediate (order : RangeOrder) (f : Inflight) : Option Packet × Inflight :=
  match selectDeferred (order.visit (values f.internal)) with
  | none => (none, f)
  | some selected => (some { selected with expiry := 0 }, f.put { selected with expiry := 0 })

def recoverStarvedSendQuota (f : Inflight) : Bool × Inflight :=
  if f.len = 0 then (false, f)
  else if (values f.internal).any fun pk => pk.expiry != inflightExpiryDeferred then (false, f)
  else if 0 < f.sendQuota ∨ f.maximumSendQuota = 0 then (false, f)
  else (true, { f with sendQuota := 1 })

def resetSendQuotaIfEmpty (f : Inflight) : Bool × Inflight :=
  if f.len ≠ 0 then (false, f)
  else if f.maximumSendQuota ≤ 0 then (false, f)
  else if f.sendQuota = f.maximumSendQuota then (false, f)
  else (true, { f with sendQuota := f.maximumSendQuota })

def decreaseReceiveQuota (f : Inflight) : Bool × Inflight :=
  if f.receiveQuota ≤ 0 then (false, f) else (true, { f with receiveQuota := f.receiveQuota - 1 })

def increaseReceiveQuota (f : Inflight) : Bool × Inflight :=
  if f.maximumReceiveQuota ≤ f.receiveQuota then (false, f)
  else (true, { f with receiveQuota := f.receiveQuota + 1 })

def resetReceiveQuota (f : Inflight) (n : Int) : Inflight :=
  { f with maximumReceiveQuota := n, receiveQuota := n }

def decreaseSendQuota (f : Inflight) : Bool × Inflight :=
  if f.sendQuota ≤ 0 then (false, f) else (true, { f with sendQuota := f.sendQuota - 1 })

def increaseSendQuota (f : Inflight) : Bool × Inflight :=
  if f.maximumSendQuota ≤ f.sendQuota then (false, f)
  else (true, { f with sendQuota := f.sendQuota + 1 })

def resetSendQuota (f : Inflight) (n : Int) : Inflight :=
  { f with maximumSendQuota := n, sendQuota := n }

/-! ### Entries -/

variable (f : Inflight) {pk : Packet} {order : RangeOrder} {acc : Option Packet} {pks : List Packet} {P : Packet → Prop}

theorem packetID_of_get {id : UInt16} (h : f.get id = some pk) : pk.packetID = id := f.keyed h

theorem get_put (m : Packet) (id : UInt16) : (f.put m).get id = if id = m.packetID then some m else f.get id :=
  lookup_insert_eq _ _ _ _

theorem get_remove (id id' : UInt16) : (f.remove id).get id' = if id' = id then none else f.get id' :=
  lookup_erase_eq _ _ _

theorem remove_put (m : Packet) : (f.put m).remove m.packetID = f.remove m.packetID := by
  have hentries : (f.internal.insert m.packetID m).erase m.packetID = f.internal.erase m.packetID := by
    refine AList.ext ?_
    show List.kerase m.packetID (⟨m.packetID, m⟩ :: List.kerase m.packetID f.internal.entries) = _
    exact List.kerase_cons_eq rfl
  unfold remove put
  dsimp only
  simp only [hentries]

theorem holding_put (m : Packet) :
    (f.put m).holding + ((f.get m.packetID).any Packet.holdsQuota).toNat = f.holding + m.holdsQuota.toNat :=
  count_insert _ _ _ _

theorem holding_remove (id : UInt16) : (f.remove id).holding + ((f.get id).any Packet.holdsQuota).toNat = f.holding :=
  count_erase _ _ _

theorem len_put_over {m old : Packet} (h : f.get m.packetID = some old) : (f.put m).len = f.len := by
  have hsize := size_insert f.internal m.packetID m
  rw [show f.internal.lookup m.packetID = some old from h] at hsize
  exact Nat.succ.inj hsize

theorem len_put_new {m : Packet} (h : f.get m.packetID = none) : (f.put m).len = f.len + 1 := by
  have hsize := size_insert f.internal m.packetID m
  rw [show f.internal.lookup m.packetID = none from h] at hsize
  exact hsize

theorem len_remove_le (id : UInt16) : (f.remove id).len ≤ f.len := by
  have hsize := size_erase f.internal id
  exact Nat.le_of_add_right_le (Nat.le_of_eq hsize)

theorem tryReserve_ok {now : Int} {id : UInt16} {max : Int} {g : Inflight}
    (h : f.tryReserve now id max = (.ok, g)) : f.get id = none ∧ g = f.put (reservation now id) := by
  unfold tryReserve at h
  split at h
  · cases h
  · cases hget : f.get id with
    | some pk =>
      rw [hget] at h
      cases h
    | none =>
      rw [hget] at h
      exact ⟨rfl, (Prod.mk.inj h).2.symm⟩

theorem tryReserve_room {now : Int} {id : UInt16} {max : Int} {g : Inflight}
    (h : f.tryReserve now id max = (.ok, g)) (hmax : 0 < max) : (f.len : Int) < max := by
  unfold tryReserve at h
  split at h
  · cases h
  · rename_i hroom
    exact lt_of_not_ge fun hfull => hroom ⟨hmax, hfull⟩

theorem mem_values_iff_get : pk ∈ values f.internal ↔ f.get pk.packetID = some pk := by
  rw [mem_values_iff]
  constructor
  · rintro ⟨id, h⟩
    rw [f.keyed h]
    exact h
  · intro h
    exact ⟨_, h⟩

theorem mem_getAll_iff : pk ∈ getAll order f false ↔ f.get pk.packetID = some pk := by
  unfold getAll
  rw [List.mem_mergeSort, ← mem_values_iff_get]
  simp [(order.perm _).mem_iff]

theorem getAll_of_values (h : values f.internal = [pk]) : getAll order f false = [pk] := by
  have hvisit : order.visit [pk] = [pk] := List.perm_singleton.mp (order.perm [pk])
  unfold getAll
  rw [h, hvisit]
  exact List.mergeSort_singleton pk

theorem nodup_ids : ((values f.internal).map Packet.packetID).Nodup := by
  have hkeys : (values f.internal).map Packet.packetID = f.internal.keys := by
    unfold values
    rw [List.map_map, AList.keys, List.keys]
    refine List.map_congr_left fun e he => ?_
    exact f.keyed (AList.mem_lookup_iff.mpr he)
  rw [hkeys]
  exact f.internal.keys_nodup

theorem nodup_getAll (order : RangeOrder) : ((getAll order f false).map Packet.packetID).Nodup := by
  have hperm : (getAll order f false).Perm (values f.internal) := by
    refine (List.mergeSort_perm _ _).trans ?_
    simpa using order.perm _
  rw [(hperm.map _).nodup_iff]
  exact f.nodup_ids

theorem foldl_snapshot {α : Type} (inflight : α → Inflight) (Inv : α → Prop) (step : α → Packet → α)
    (hstep : ∀ a tk, (inflight a).get tk.packetID = some tk → Inv a → Inv (step a tk) ∧
      ∀ id, id ≠ tk.packetID → (inflight (step a tk)).get id = (inflight a).get id)
    {f : Inflight} (order : RangeOrder) {a : α} (hf : inflight a = f) (h : Inv a) :
    Inv ((f.getAll order false).foldl step a) := by
  have hloop : ∀ (tks : List Packet) (a : α), (tks.map Packet.packetID).Nodup →
      (∀ tk ∈ tks, (inflight a).get tk.packetID = some tk) → Inv a → Inv (tks.foldl step a) := by
    intro tks
    induction tks with
    | nil => exact fun _ _ _ h => h
    | cons tk tks ih =>
      intro a hnodup hstored h
      rw [List.map_cons, List.nodup_cons] at hnodup
      obtain ⟨hinv, hothers⟩ := hstep a tk (hstored tk List.mem_cons_self) h
      refine ih _ hnodup.2 ?_ hinv
      intro tk' htk'
      rw [hothers _ ?_]
      · exact hstored tk' (List.mem_cons_of_mem _ htk')
      · intro heq
        exact hnodup.1 (heq ▸ List.mem_map_of_mem htk')
  refine hloop _ a (f.nodup_getAll order) ?_ h
  intro tk htk
  rw [hf]
  exact f.mem_getAll_iff.mp htk

theorem foldl_selectOlder_eq_some {s : Packet}
    (h : pks.foldl selectOlder acc = some s) :
    acc = some s ∨ (s ∈ pks ∧ s.expiry = inflightExpiryDeferred) := by
  induction pks generalizing acc with
  | nil => exact .inl h
  | cons v pks ih =>
    rcases ih h with hacc | ⟨hmem, hs⟩
    · unfold selectOlder at hacc
      split at hacc
      · exact .inl hacc
      · rename_i hv
        have hv : v.expiry = inflightExpiryDeferred := not_not.mp hv
        cases acc with
        | none =>
          cases hacc
          exact .inr ⟨List.mem_cons_self, hv⟩
        | some old =>
          dsimp only at hacc
          split at hacc
          · cases hacc
            exact .inr ⟨List.mem_cons_self, hv⟩
          · exact .inl hacc
    · exact .inr ⟨List.mem_cons_of_mem _ hmem, hs⟩

theorem foldl_selectOlder_eq_none
    (h : pks.foldl selectOlder acc = none) :
    acc = none ∧ ∀ pk ∈ pks, pk.expiry ≠ inflightExpiryDeferred := by
  induction pks generalizing acc with
  | nil => exact ⟨h, fun _ hm => absurd hm List.not_mem_nil⟩
  | cons v pks ih =>
    obtain ⟨hacc, hrest⟩ := ih h
    have hv : v.expiry ≠ inflightExpiryDeferred := by
      intro hv
      unfold selectOlder at hacc
      rw [if_neg (not_not.mpr hv)] at hacc
      cases acc with
      | none => cases hacc
      | some old =>
        dsimp only at hacc
        split at hacc <;> cases hacc
    unfold selectOlder at hacc
    rw [if_pos hv] at hacc
    exact ⟨hacc, List.forall_mem_cons.mpr ⟨hv, hrest⟩⟩

theorem foldl_selectOlder_le {s : Packet}
    (h : pks.foldl selectOlder acc = some s) :
    (∀ a, acc = some a → s.created16 ≤ a.created16) ∧
      ∀ v ∈ pks, v.expiry = inflightExpiryDeferred → s.created16 ≤ v.created16 := by
  induction pks generalizing acc with
  | nil =>
    refine ⟨fun a ha => ?_, fun v hv => absurd hv List.not_mem_nil⟩
    cases ha.symm.trans h
    exact Nat.le_refl _
  | cons v pks ih =>
    obtain ⟨hacc, hrest⟩ := ih h
    have hstep : (∀ a, acc = some a → s.created16 ≤ a.created16) ∧
        (v.expiry = inflightExpiryDeferred → s.created16 ≤ v.created16) := by
      unfold selectOlder at hacc
      split at hacc
      · rename_i hv
        exact ⟨hacc, fun hdef => absurd hdef hv⟩
      · cases acc with
        | none => exact ⟨fun a ha => absurd ha.symm (Option.some_ne_none a), fun _ => hacc v rfl⟩
        | some old =>
          dsimp only at hacc
          split at hacc
          · rename_i hlt
            refine ⟨fun a ha => ?_, fun _ => hacc v rfl⟩
            cases ha
            exact (hacc v rfl).trans hlt.le
          · rename_i hge
            refine ⟨fun a ha => hacc a ha, fun _ => ?_⟩
            exact (hacc old rfl).trans (Nat.le_of_not_lt hge)
    exact ⟨hstep.1, List.forall_mem_cons.mpr ⟨hstep.2, hrest⟩⟩

theorem takeNextImmediate_cases (order : RangeOrder) :
    (f.takeNextImmediate order = (none, f) ∧
        ∀ id pk, f.get id = some pk → pk.expiry ≠ inflightExpiryDeferred) ∨
      ∃ pk, f.get pk.packetID = some pk ∧ pk.expiry = inflightExpiryDeferred ∧
        (∀ id e, f.get id = some e → e.expiry = inflightExpiryDeferred → pk.created16 ≤ e.created16) ∧
        f.takeNextImmediate order = (some { pk with expiry := 0 }, f.put { pk with expiry := 0 }) := by
  unfold takeNextImmediate selectDeferred
  have hmem : ∀ {id pk}, f.get id = some pk → pk ∈ order.visit (values f.internal) := by
    intro id pk hpk
    rw [(order.perm _).mem_iff, mem_values_iff_get, f.packetID_of_get hpk]
    exact hpk
  cases hsel : (order.visit (values f.internal)).foldl selectOlder none with
  | none => exact .inl ⟨rfl, fun id pk hpk => (foldl_selectOlder_eq_none hsel).2 pk (hmem hpk)⟩
  | some s =>
    rcases foldl_selectOlder_eq_some hsel with h | ⟨hs, hdef⟩
    · cases h
    · rw [(order.perm _).mem_iff, mem_values_iff_get] at hs
      exact .inr ⟨s, hs, hdef, fun id e he => (foldl_selectOlder_le hsel).2 e (hmem he), rfl⟩

/-! ### Quotas -/

@[simp] theorem put_sendQuota (m : Packet) : (f.put m).sendQuota = f.sendQuota := rfl
@[simp] theorem remove_sendQuota (id : UInt16) : (f.remove id).sendQuota = f.sendQuota := rfl
@[simp] theorem remove_maximumSendQuota (id : UInt16) :
    (f.remove id).maximumSendQuota = f.maximumSendQuota := rfl

structure SameSend (f g : Inflight) : Prop where
  internal : g.internal = f.internal
  sendQuota : g.sendQuota = f.sendQuota
  maximumSendQuota : g.maximumSendQuota = f.maximumSendQuota

theorem SameSend.refl : SameSend f f := ⟨rfl, rfl, rfl⟩

variable {f} in
theorem SameSend.trans {g h : Inflight} (hg : SameSend f g) (hh : SameSend g h) : SameSend f h :=
  ⟨hh.internal.trans hg.internal, hh.sendQuota.trans hg.sendQuota, hh.maximumSendQuota.trans hg.maximumSendQuota⟩

variable {f} in
theorem SameSend.get {g : Inflight} (h : SameSend f g) (id : UInt16) : g.get id = f.get id := by
  unfold Inflight.get
  rw [h.internal]

variable {f} in
theorem SameSend.put {g : Inflight} (h : SameSend f g) (m : Packet) : SameSend (f.put m) (g.put m) := by
  refine ⟨?_, h.sendQuota, h.maximumSendQuota⟩
  show g.internal.insert m.packetID m = f.internal.insert m.packetID m
  rw [h.internal]

variable {f} in
theorem SameSend.remove {g : Inflight} (h : SameSend f g) (id : UInt16) : SameSend (f.remove id) (g.remove id) := by
  refine ⟨?_, h.sendQuota, h.maximumSendQuota⟩
  show g.internal.erase id = f.internal.erase id
  rw [h.internal]

variable {f} in
theorem SameSend.increaseSendQuota {g : Inflight} (h : SameSend f g) :
    SameSend f.increaseSendQuota.2 g.increaseSendQuota.2 := by
  unfold Inflight.increaseSendQuota
  rw [h.sendQuota, h.maximumSendQuota]
  split
  · exact h
  · exact ⟨h.internal, rfl, rfl⟩

theorem sameSend_decreaseReceiveQuota : SameSend f f.decreaseReceiveQuota.2 := by
  unfold decreaseReceiveQuota
  split <;> exact ⟨rfl, rfl, rfl⟩

theorem sameSend_increaseReceiveQuota : SameSend f f.increaseReceiveQuota.2 := by
  unfold increaseReceiveQuota
  split <;> exact ⟨rfl, rfl, rfl⟩

theorem get_increaseSendQuota (id : UInt16) : f.increaseSendQuota.2.get id = f.get id := by
  unfold increaseSendQuota
  split <;> rfl

theorem maximumSendQuota_increaseSendQuota : f.increaseSendQuota.2.maximumSendQuota = f.maximumSendQuota := by
  unfold increaseSendQuota
  split <;> rfl

theorem increaseSendQuota_remove (id : UInt16) :
    f.increaseSendQuota.2.remove id = (f.remove id).increaseSendQuota.2 := by
  unfold increaseSendQuota
  rw [remove_sendQuota, remove_maximumSendQuota]
  split <;> rfl

theorem get_decreaseSendQuota (id : UInt16) : f.decreaseSendQuota.2.get id = f.get id := by
  unfold decreaseSendQuota
  split <;> rfl

theorem get_recoverStarvedSendQuota (id : UInt16) : f.recoverStarvedSendQuota.2.get id = f.get id := by
  unfold recoverStarvedSendQuota
  split
  · rfl
  · split
    · rfl
    · split <;> rfl

theorem get_resetSendQuotaIfEmpty (id : UInt16) : f.resetSendQuotaIfEmpty.2.get id = f.get id := by
  unfold resetSendQuotaIfEmpty
  split
  · rfl
  · split
    · rfl
    · split <;> rfl

/-! ### What holds of every entry -/

def All (P : Packet → Prop) (f : Inflight) : Prop := ∀ ⦃id e⦄, f.get id = some e → P e

variable {f} in
theorem All.of_get {g : Inflight} (h : f.All P) (hget : ∀ id, g.get id = f.get id) : g.All P := by
  intro id e he
  rw [hget] at he
  exact h he

variable {f} in
theorem All.put {m : Packet} (h : f.All P) (hm : P m) : (f.put m).All P := by
  intro id e he
  rw [get_put] at he
  split at he
  · cases he
    exact hm
  · exact h he

variable {f} in
theorem All.remove {P : Packet → Prop} (h : f.All P) (id : UInt16) : (f.remove id).All P := by
  intro id' e he
  rw [get_remove] at he
  split at he
  · cases he
  · exact h he

/-! ### Types of entries -/

def hasType (id : UInt16) (type : PacketType) : Bool := (f.get id).any fun e => e.fixedHeader.type == type

def KeepsType (type : PacketType) (f g : Inflight) : Prop := ∀ id, g.hasType id type = f.hasType id type

variable {f} {g h : Inflight} {type : PacketType} {id : UInt16} {m : Packet}

theorem hasType_iff : f.hasType id type = true ↔ ∃ e, f.get id = some e ∧ e.fixedHeader.type = type := by
  unfold hasType
  cases f.get id <;> simp

theorem hasType_of_get (hget : ∀ id, g.get id = f.get id) : KeepsType type f g := by
  intro id
  unfold hasType
  rw [hget]

theorem KeepsType.refl (f : Inflight) : KeepsType type f f := fun _ => rfl

theorem KeepsType.trans (hg : KeepsType type f g) (hh : KeepsType type g h) : KeepsType type f h :=
  fun id => (hh id).trans (hg id)

theorem hasType_put : (f.put m).hasType id type =
    if id = m.packetID then m.fixedHeader.type == type else f.hasType id type := by
  unfold hasType
  rw [get_put]
  split <;> rfl

theorem hasType_remove (id' : UInt16) : (f.remove id').hasType id type =
    if id = id' then false else f.hasType id type := by
  unfold hasType
  rw [get_remove]
  split <;> rfl

theorem keepsType_put (hm : (m.fixedHeader.type == type) = f.hasType m.packetID type) : KeepsType type f (f.put m) := by
  intro id
  rw [hasType_put]
  split
  · rename_i hid
    rw [hid]
    exact hm
  · rfl

theorem keepsType_remove (hid : f.hasType id type = false) : KeepsType type f (f.remove id) := by
  intro id'
  rw [hasType_remove]
  split
  · rename_i heq
    rw [heq, hid]
  · rfl

theorem keepsType_increaseSendQuota : KeepsType type f f.increaseSendQuota.2 :=
  hasType_of_get (get_increaseSendQuota f)

theorem keepsType_recoverStarvedSendQuota : KeepsType type f f.recoverStarvedSendQuota.2 :=
  hasType_of_get (get_recoverStarvedSendQuota f)

theorem keepsType_resetSendQuotaIfEmpty : KeepsType type f f.resetSendQuotaIfEmpty.2 :=
  hasType_of_get (get_resetSendQuotaIfEmpty f)

end Inflight
end Mqtt
