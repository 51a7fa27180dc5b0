import MqttBroker.Session.Resume

/-! The order in which inflight messages are enumerated. `GetAll` sorts and `TakeNextImmediate` selects by
the low sixteen bits of the creation time. That is the order of the creation times as long as the low bits
of a later message are the larger ones; otherwise some order of the map makes a message come before an
older one. -/

namespace Mqtt
open FiniteMap
namespace Inflight

def selected (f : Inflight) (immediate : Bool) : List Packet :=
  (values f.internal).filter fun pk => !immediate || pk.expiry == inflightExpiryDeferred

def LowBitsAgree (pks : List Packet) : Prop :=
  ∀ e ∈ pks, ∀ e' ∈ pks, e.created < e'.created → e.created16 < e'.created16

/-- Calls of `TakeNextImmediate` until it returns false, each with its own order of the map: the packets it
returns. There is no result if the calls end before. -/
def takeAll : List RangeOrder → Inflight → Option (List Packet × Inflight)
  | [], _ => none
  | order :: orders, f =>
    match f.takeNextImmediate order with
    | (none, f) => some ([], f)
    | (some pk, f) => (takeAll orders f).map fun (pks, g) => (pk :: pks, g)

def cleared (pk : Packet) : Packet := { pk with expiry := 0 }

/-- What the calls are to do: every deferred entry once, without its mark, and still in the map; the other
entries as they were. -/
structure TakesAll (f : Inflight) (pks : List Packet) (g : Inflight) : Prop where
  nodup : (pks.map Packet.packetID).Nodup
  mem_iff : ∀ pk, pk ∈ pks ↔ ∃ e ∈ f.selected true, pk = cleared e
  get_eq : ∀ id, g.get id = (f.get id).map fun e => if e.expiry = inflightExpiryDeferred then cleared e else e

def OldestFirst (pks : List Packet) : Prop := pks.Pairwise fun a b => a.created ≤ b.created

variable {f : Inflight} {immediate : Bool} {pk a e e' : Packet} {l pks : List Packet} {g : Inflight}
  {order : RangeOrder}

theorem mem_selected_iff : pk ∈ f.selected immediate ↔
    f.get pk.packetID = some pk ∧ (immediate = true → pk.expiry = inflightExpiryDeferred) := by
  rw [selected, List.mem_filter, mem_values_iff_get]
  cases immediate <;> simp

theorem mem_deferred_iff : pk ∈ f.selected true ↔ f.get pk.packetID = some pk ∧ pk.expiry = inflightExpiryDeferred := by
  rw [mem_selected_iff]
  simp

/-! ### An order of the map -/

def visitFirst (id : UInt16) : RangeOrder where
  visit l := l.filter (fun pk => pk.packetID == id) ++ l.filter fun pk => !(pk.packetID == id)
  perm l := List.filter_append_perm _ l

theorem pair_sublist_visitFirst {b : Packet} (ha : a ∈ l) (hb : b ∈ l)
    (hne : b.packetID ≠ a.packetID) : [a, b].Sublist ((visitFirst a.packetID).visit l) := by
  have hother : (!(b.packetID == a.packetID)) = true := by
    rw [beq_false_of_ne hne]
    rfl
  have hfirst : [a].Sublist (l.filter fun pk => pk.packetID == a.packetID) :=
    List.singleton_sublist.mpr (List.mem_filter.mpr ⟨ha, beq_self_eq_true _⟩)
  have hrest : [b].Sublist (l.filter fun pk => !(pk.packetID == a.packetID)) :=
    List.singleton_sublist.mpr (List.mem_filter.mpr ⟨hb, hother⟩)
  exact hfirst.append hrest

/-! ### GetAll -/

theorem getAll_perm (order : RangeOrder) (immediate : Bool) : (getAll order f immediate).Perm (f.selected immediate) :=
  (List.mergeSort_perm _ _).trans ((order.perm _).filter _)

theorem created16_trans (a b c : Packet) (hab : decide (a.created16 ≤ b.created16) = true)
    (hbc : decide (b.created16 ≤ c.created16) = true) : decide (a.created16 ≤ c.created16) = true :=
  decide_eq_true ((of_decide_eq_true hab).trans (of_decide_eq_true hbc))

theorem created16_total (a b : Packet) :
    (decide (a.created16 ≤ b.created16) || decide (b.created16 ≤ a.created16)) = true := by
  rw [Bool.or_eq_true, decide_eq_true_eq, decide_eq_true_eq]
  exact Nat.le_total _ _

theorem oldestFirst_of_lowBits (h : LowBitsAgree pks) (hmem : ∀ pk ∈ l, pk ∈ pks)
    (hl : l.Pairwise fun a b => a.created16 ≤ b.created16) : OldestFirst l := by
  refine hl.imp_of_mem fun {a b} ha hb hle => ?_
  by_contra hlt
  have hlow := h b (hmem b hb) a (hmem a ha) (lt_of_not_ge hlt)
  exact absurd hle (Nat.not_le.mpr hlow)

theorem ids_ne_of_created (he : e ∈ f.selected immediate)
    (he' : e' ∈ f.selected immediate) (hlt : e.created < e'.created) : e.packetID ≠ e'.packetID := by
  intro hid
  have hget := (mem_selected_iff.mp he).1
  have hget' := (mem_selected_iff.mp he').1
  rw [hid, hget'] at hget
  cases hget
  exact absurd hlt (Int.lt_irrefl _)

theorem getAll_lowBits (order : RangeOrder) (immediate : Bool) :
    (getAll order f immediate).Pairwise fun a b => a.created16 ≤ b.created16 :=
  (List.pairwise_mergeSort created16_trans created16_total _).imp of_decide_eq_true

theorem getAll_oldestFirst_iff (immediate : Bool) :
    (∀ order, OldestFirst (getAll order f immediate)) ↔ LowBitsAgree (f.selected immediate) := by
  constructor
  · intro h e he e' he' hlt
    by_contra hlow
    -- with the later message visited first, it stays before the older one
    have hpair : [e', e].Sublist (getAll (visitFirst e'.packetID) f immediate) := by
      refine List.pair_sublist_mergeSort created16_trans created16_total (decide_eq_true (Nat.le_of_not_lt hlow)) ?_
      have hvisit := pair_sublist_visitFirst (List.mem_of_mem_filter he') (List.mem_of_mem_filter he)
        (ids_ne_of_created he he' hlt)
      have hfilter := hvisit.filter fun pk => !immediate || pk.expiry == inflightExpiryDeferred
      have hboth : [e', e].filter (fun pk => !immediate || pk.expiry == inflightExpiryDeferred) = [e', e] :=
        List.filter_eq_self.mpr fun pk hpk => by
          rcases List.mem_pair.mp hpk with rfl | rfl
          · exact (List.mem_filter.mp he').2
          · exact (List.mem_filter.mp he).2
      rw [hboth] at hfilter
      exact hfilter
    have hle := List.pairwise_iff_forall_sublist.mp (h _) hpair
    omega
  · intro h order
    exact oldestFirst_of_lowBits h (fun pk hpk => (getAll_perm order immediate).mem_iff.mp hpk)
      (getAll_lowBits order immediate)

/-! ### TakeNextImmediate -/

theorem takeAll_of_none (orders : List RangeOrder)
    (h : f.takeNextImmediate order = (none, g)) : takeAll (order :: orders) f = some ([], g) := by
  rw [takeAll, h]

theorem takeAll_of_some (orders : List RangeOrder)
    (h : f.takeNextImmediate order = (some pk, g)) :
    takeAll (order :: orders) f = (takeAll orders g).map fun (pks, g) => (pk :: pks, g) := by
  rw [takeAll, h]

theorem get_put_cleared (pk : Packet) (id : UInt16) :
    (f.put (cleared pk)).get id = if id = pk.packetID then some (cleared pk) else f.get id := f.get_put _ _

theorem deferred_put_cleared (hpk : pk ∈ f.selected true) : (f.put (cleared pk)).deferred + 1 = f.deferred :=
  deferred_put_sent (mem_deferred_iff.mp hpk).1 (mem_deferred_iff.mp hpk).2

theorem mem_deferred_put : e ∈ (f.put (cleared pk)).selected true ↔ e ∈ f.selected true ∧ e.packetID ≠ pk.packetID := by
  rw [mem_deferred_iff, mem_deferred_iff, get_put_cleared]
  by_cases hid : e.packetID = pk.packetID
  · rw [if_pos hid]
    refine iff_of_false ?_ fun h => h.2 hid
    rintro ⟨heq, hdef⟩
    cases heq
    exact absurd (show (0 : Int) = inflightExpiryDeferred from hdef) (by decide)
  · rw [if_neg hid]
    exact ⟨fun h => ⟨h, hid⟩, And.left⟩

theorem TakesAll.cons {pk : Packet} {pks : List Packet} {g : Inflight} (hpk : pk ∈ f.selected true)
    (h : TakesAll (f.put (cleared pk)) pks g) : TakesAll f (cleared pk :: pks) g := by
  obtain ⟨hget, hdef⟩ := mem_deferred_iff.mp hpk
  refine ⟨?_, ?_, ?_⟩
  · rw [List.map_cons, List.nodup_cons]
    refine ⟨fun hmem => ?_, h.nodup⟩
    obtain ⟨pk', hpk', hid⟩ := List.mem_map.mp hmem
    obtain ⟨e, he, rfl⟩ := (h.mem_iff pk').mp hpk'
    exact (mem_deferred_put.mp he).2 hid
  · intro pk'
    rw [List.mem_cons, h.mem_iff]
    constructor
    · rintro (rfl | ⟨e, he, rfl⟩)
      · exact ⟨pk, hpk, rfl⟩
      · exact ⟨e, (mem_deferred_put.mp he).1, rfl⟩
    · rintro ⟨e, he, rfl⟩
      by_cases hid : e.packetID = pk.packetID
      · have hsame := (mem_deferred_iff.mp he).1
        rw [hid, hget] at hsame
        cases hsame
        exact .inl rfl
      · exact .inr ⟨e, mem_deferred_put.mpr ⟨he, hid⟩, rfl⟩
  · intro id
    rw [h.get_eq, get_put_cleared]
    by_cases hid : id = pk.packetID
    · rw [if_pos hid, hid, hget, Option.map_some, Option.map_some, if_pos hdef]
      rfl
    · rw [if_neg hid]

theorem takeAll_takesAll {orders : List RangeOrder} (h : f.deferred < orders.length) :
    ∃ pks g, takeAll orders f = some (pks, g) ∧ TakesAll f pks g := by
  induction orders generalizing f with
  | nil => exact absurd h (Nat.not_lt_zero _)
  | cons order orders ih =>
    obtain ⟨htake, hnone⟩ | ⟨pk, hpk, hdef, -, htake⟩ := f.takeNextImmediate_cases order
    · refine ⟨[], f, takeAll_of_none orders htake, List.nodup_nil, ?_, ?_⟩
      · intro pk
        refine iff_of_false List.not_mem_nil ?_
        rintro ⟨e, he, -⟩
        exact hnone _ e (mem_deferred_iff.mp he).1 (mem_deferred_iff.mp he).2
      · intro id
        cases hget : f.get id with
        | none => rfl
        | some e => rw [Option.map_some, if_neg (hnone id e hget)]
    · have hmem := mem_deferred_iff.mpr ⟨hpk, hdef⟩
      have hcount := deferred_put_cleared hmem
      rw [List.length_cons] at h
      obtain ⟨pks, g, hrest, hall⟩ := ih (f := f.put (cleared pk)) (by omega)
      refine ⟨_, g, ?_, hall.cons hmem⟩
      rw [takeAll_of_some orders htake]
      exact congrArg _ hrest

theorem takeAll_lowBits {orders : List RangeOrder}
    (hcount : f.deferred < orders.length) (h : takeAll orders f = some (pks, g)) :
    pks.Pairwise fun a b => a.created16 ≤ b.created16 := by
  induction orders generalizing f pks with
  | nil => cases h
  | cons order orders ih =>
    obtain ⟨htake, -⟩ | ⟨pk, hpk, hdef, hold, htake⟩ := f.takeNextImmediate_cases order
    · rw [takeAll_of_none orders htake] at h
      cases h
      exact List.Pairwise.nil
    · have hput := deferred_put_cleared (mem_deferred_iff.mpr ⟨hpk, hdef⟩)
      rw [List.length_cons] at hcount
      obtain ⟨pks', g', hrest, hall⟩ := @takeAll_takesAll (f.put (cleared pk)) orders (by omega)
      rw [takeAll_of_some orders htake] at h
      cases (congrArg _ hrest).symm.trans h
      refine List.Pairwise.cons (fun b hb => ?_) (ih (by omega) hrest)
      obtain ⟨e, he, rfl⟩ := (hall.mem_iff b).mp hb
      obtain ⟨hget, hdef'⟩ := mem_deferred_iff.mp (mem_deferred_put.mp he).1
      exact hold _ e hget hdef'

theorem foldl_selectOlder_lt {s : Packet} (h : pks.foldl selectOlder (some a) = some s) :
    s = a ∨ s.created16 < a.created16 := by
  induction pks generalizing a with
  | nil =>
    cases h
    exact .inl rfl
  | cons v pks ih =>
    rw [List.foldl_cons, selectOlder] at h
    split at h
    · exact ih h
    · split at h
      · rename_i hlt
        rcases ih h with rfl | hs
        · exact .inr hlt
        · exact .inr (hs.trans hlt)
      · exact ih h

theorem filter_packetID (he : f.get e.packetID = some e) :
    (values f.internal).filter (fun pk => pk.packetID == e.packetID) = [e] := by
  have hnodup := f.nodup_ids
  have hmem : e ∈ (values f.internal).filter (fun pk => pk.packetID == e.packetID) :=
    List.mem_filter.mpr ⟨f.mem_values_iff_get.mpr he, beq_self_eq_true _⟩
  have hall : ∀ pk ∈ (values f.internal).filter (fun pk => pk.packetID == e.packetID), pk = e := by
    intro pk hpk
    obtain ⟨hpk, hid⟩ := List.mem_filter.mp hpk
    exact List.inj_on_of_nodup_map hnodup hpk (f.mem_values_iff_get.mpr he) (beq_iff_eq.mp hid)
  have hfilter := (List.Nodup.of_map _ hnodup).filter fun pk => pk.packetID == e.packetID
  obtain ⟨a, l, heq⟩ := List.exists_cons_of_ne_nil (List.ne_nil_of_mem hmem)
  rw [heq] at hall hfilter ⊢
  obtain rfl := hall a List.mem_cons_self
  have hrest : l = [] := by
    refine List.eq_nil_iff_forall_not_mem.mpr fun b hb => ?_
    have hsame := hall b (List.mem_cons_of_mem _ hb)
    exact (List.nodup_cons.mp hfilter).1 (hsame ▸ hb)
  rw [hrest]

theorem selectDeferred_visitFirst {s : Packet} (he' : e' ∈ f.selected true)
    (h : selectDeferred ((visitFirst e'.packetID).visit (values f.internal)) = some s) :
    s = e' ∨ s.created16 < e'.created16 := by
  obtain ⟨hget, hdef⟩ := mem_deferred_iff.mp he'
  have hvisit : (visitFirst e'.packetID).visit (values f.internal) =
      e' :: (values f.internal).filter fun pk => !(pk.packetID == e'.packetID) := by
    show _ ++ _ = _
    rw [filter_packetID hget]
    rfl
  rw [selectDeferred, hvisit, List.foldl_cons, selectOlder, if_neg (not_not.mpr hdef)] at h
  exact foldl_selectOlder_lt h

theorem takeNextImmediate_visitFirst (he' : e' ∈ f.selected true) :
    ∃ pk ∈ f.selected true, (pk = e' ∨ pk.created16 < e'.created16) ∧
      f.takeNextImmediate (visitFirst e'.packetID) = (some (cleared pk), f.put (cleared pk)) := by
  obtain ⟨hget, hdef⟩ := mem_deferred_iff.mp he'
  obtain ⟨-, hnone⟩ | ⟨pk, hpk, hpkdef, -, htake⟩ := f.takeNextImmediate_cases (visitFirst e'.packetID)
  · exact absurd hdef (hnone _ e' hget)
  · refine ⟨pk, mem_deferred_iff.mpr ⟨hpk, hpkdef⟩, ?_, htake⟩
    rw [takeNextImmediate] at htake
    cases hsel : selectDeferred ((visitFirst e'.packetID).visit (values f.internal)) with
    | none =>
      rw [hsel] at htake
      cases htake
    | some s =>
      rw [hsel] at htake
      have hclear : cleared s = cleared pk := Option.some.inj (Prod.mk.inj htake).1
      have hlow : (cleared s).created16 = (cleared pk).created16 := congrArg Packet.created16 hclear
      rcases selectDeferred_visitFirst he' hsel with rfl | hlt
      · refine .inl ?_
        have hid : (cleared s).packetID = (cleared pk).packetID := congrArg Packet.packetID hclear
        change s.packetID = pk.packetID at hid
        rw [← hid, hget] at hpk
        exact (Option.some.inj hpk).symm
      · change s.created16 = pk.created16 at hlow
        exact .inr (hlow ▸ hlt)

theorem pair_sublist_takeAll (n : Nat) (hne : e.packetID ≠ e'.packetID)
    (hlow : ¬ e.created16 < e'.created16) (he : e ∈ f.selected true) (he' : e' ∈ f.selected true)
    (hn : f.deferred < n) (h : takeAll (List.replicate n (visitFirst e'.packetID)) f = some (pks, g)) :
    [cleared e', cleared e].Sublist pks := by
  induction n generalizing f pks with
  | zero => cases h
  | succ n ih =>
    obtain ⟨pk, hpk, hfirst, htake⟩ := takeNextImmediate_visitFirst he'
    have hput := deferred_put_cleared hpk
    obtain ⟨pks', g', hrest, hall⟩ := @takeAll_takesAll (f.put (cleared pk))
      (List.replicate n (visitFirst e'.packetID)) (by rw [List.length_replicate]; omega)
    rw [List.replicate_succ, takeAll_of_some _ htake, hrest] at h
    cases h
    rcases hfirst with rfl | hlt
    · -- the later message is returned now, and the older one among the rest
      refine List.Sublist.cons_cons _ (List.singleton_sublist.mpr ?_)
      exact (hall.mem_iff _).mpr ⟨e, mem_deferred_put.mpr ⟨he, hne⟩, rfl⟩
    · have hstays : ∀ e₁ ∈ f.selected true, ¬ e₁.created16 < e'.created16 →
          e₁ ∈ (f.put (cleared pk)).selected true := by
        intro e₁ he₁ hnot
        refine mem_deferred_put.mpr ⟨he₁, fun hid => hnot ?_⟩
        have hsame := (mem_deferred_iff.mp he₁).1
        rw [hid, (mem_deferred_iff.mp hpk).1] at hsame
        cases hsame
        exact hlt
      exact (ih (hstays e he hlow) (hstays e' he' (Nat.lt_irrefl _)) (by omega) hrest).cons _

theorem takeAll_oldestFirst_iff :
    (∀ orders, f.deferred < orders.length → ∃ pks g, takeAll orders f = some (pks, g) ∧ TakesAll f pks g ∧
        OldestFirst pks) ↔ LowBitsAgree (f.selected true) := by
  constructor
  · intro h e he e' he' hlt
    by_contra hlow
    obtain ⟨pks, g, htake, -, hold⟩ := h (List.replicate (f.deferred + 1) (visitFirst e'.packetID))
      (by rw [List.length_replicate]; exact Nat.lt_succ_self _)
    have hpair := pair_sublist_takeAll _ (ids_ne_of_created he he' hlt) hlow he he' (Nat.lt_succ_self _) htake
    have hle : (cleared e').created ≤ (cleared e).created := List.pairwise_iff_forall_sublist.mp hold hpair
    exact absurd hlt (Int.not_lt.mpr hle)
  · intro h orders hcount
    obtain ⟨pks, g, htake, hall⟩ := takeAll_takesAll hcount
    refine ⟨pks, g, htake, hall, ?_⟩
    have hcleared : LowBitsAgree ((f.selected true).map cleared) := by
      intro e he e' he' hlt
      obtain ⟨e₁, he₁, rfl⟩ := List.mem_map.mp he
      obtain ⟨e₂, he₂, rfl⟩ := List.mem_map.mp he'
      exact h e₁ he₁ e₂ he₂ hlt
    refine oldestFirst_of_lowBits hcleared (fun pk hpk => ?_) (takeAll_lowBits hcount htake)
    obtain ⟨e, he, rfl⟩ := (hall.mem_iff pk).mp hpk
    exact List.mem_map_of_mem he

/-- The selected entries are enumerated, and the deferred ones returned, the oldest first, if and only if
the low sixteen bits of their creation times are in the order of the creation times. -/
theorem enumerates_oldestFirst_iff (f : Inflight) :
    (∀ immediate, (∀ order, (getAll order f immediate).Perm (f.selected immediate) ∧
        OldestFirst (getAll order f immediate)) ↔ LowBitsAgree (f.selected immediate)) ∧
    ((∀ orders, (f.selected true).length < orders.length → ∃ pks g, takeAll orders f = some (pks, g) ∧
        TakesAll f pks g ∧ OldestFirst pks) ↔ LowBitsAgree (f.selected true)) := by
  constructor
  · intro immediate
    rw [← getAll_oldestFirst_iff]
    exact forall_congr' fun order => and_iff_right (getAll_perm order immediate)
  · have hlength : (f.selected true).length = f.deferred := by
      rw [deferred, count, List.countP_eq_length_filter]
      rfl
    rw [hlength]
    exact takeAll_oldestFirst_iff

theorem not_oldestFirst {b : Packet} (ha : a ∈ pks) (hb : b ∈ pks) (hlt : a.created < b.created)
    (hlow : b.created16 < a.created16) (hpks : pks.Pairwise fun a b => a.created16 ≤ b.created16) :
    ¬ OldestFirst pks := by
  intro hold
  -- one of the two comes first, and either way one of the orders is violated
  have hboth : pks.Pairwise fun a b => (a.created ≤ b.created ∧ a.created16 ≤ b.created16) ∨
      (b.created ≤ a.created ∧ b.created16 ≤ a.created16) := hold.imp₂ (fun _ _ h h' => .inl ⟨h, h'⟩) hpks
  have hne : a ≠ b := fun heq => absurd hlt (heq ▸ Int.lt_irrefl _)
  have : Std.Symm fun a b : Packet => (a.created ≤ b.created ∧ a.created16 ≤ b.created16) ∨
      (b.created ≤ a.created ∧ b.created16 ≤ a.created16) := ⟨fun _ _ => Or.symm⟩
  rcases hboth.forall ha hb hne with ⟨-, hle⟩ | ⟨hle, -⟩
  · omega
  · omega

def firstMessage : Packet := { packetID := 1, created := 1700003839, expiry := inflightExpiryDeferred }

def secondMessage : Packet := { packetID := 2, created := 1700003840, expiry := inflightExpiryDeferred }

def acrossWrap : Inflight := (Inflight.new.put firstMessage).put secondMessage

/-- The low bits of the second message are zero, so that it comes before the first one, whatever the order
of the map. -/
theorem later_message_first :
    (∀ order, ¬ OldestFirst (getAll order acrossWrap true)) ∧
      ∀ orders, 2 < orders.length → ∃ pks g, takeAll orders acrossWrap = some (pks, g) ∧ ¬ OldestFirst pks := by
  have hfirst : firstMessage ∈ acrossWrap.selected true := mem_deferred_iff.mpr ⟨rfl, rfl⟩
  have hsecond : secondMessage ∈ acrossWrap.selected true := mem_deferred_iff.mpr ⟨rfl, rfl⟩
  constructor
  · intro order
    have hperm := getAll_perm (f := acrossWrap) order true
    exact not_oldestFirst (hperm.mem_iff.mpr hfirst) (hperm.mem_iff.mpr hsecond) (by decide) (by decide)
      (getAll_lowBits order true)
  · intro orders hlength
    have hcount : acrossWrap.deferred < orders.length := hlength
    obtain ⟨pks, g, htake, hall⟩ := takeAll_takesAll hcount
    refine ⟨pks, g, htake, ?_⟩
    exact not_oldestFirst ((hall.mem_iff _).mpr ⟨_, hfirst, rfl⟩) ((hall.mem_iff _).mpr ⟨_, hsecond, rfl⟩)
      (by decide) (by decide) (takeAll_lowBits hcount htake)

end Inflight
end Mqtt
