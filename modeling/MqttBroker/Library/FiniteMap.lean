import Mathlib.Algebra.GroupWithZero.Nat
import Mathlib.Data.Finset.Card
import Mathlib.Data.List.AList

/-! Finite maps as association lists, and the number of their values with a
property. An insertion or a deletion moves that number by what it adds and by
what stood at the key before. -/

namespace FiniteMap
universe u v
variable {K : Type u} {V : Type v}

abbrev Map (K : Type u) (V : Type v) := AList (fun _ : K => V)

def values (m : Map K V) : List V := m.entries.map Sigma.snd

def size (m : Map K V) : Nat := m.entries.length

def count (p : V → Bool) (m : Map K V) : Nat := (values m).countP p

theorem count_eq_countP (p : V → Bool) (m : Map K V) : count p m = m.entries.countP fun e => p e.2 := by
  rw [count, values, List.countP_map]
  rfl

def total (g : V → Nat) (m : Map K V) : Nat := ((values m).map g).sum

theorem total_eq (g : V → Nat) (m : Map K V) : total g m = (m.entries.map fun e => g e.2).sum := by
  rw [total, values, List.map_map]
  rfl

variable {m : Map K V} {p : V → Bool}

theorem size_eq_of_mem_iff {m' : Map K V} (h : ∀ k, k ∈ m ↔ k ∈ m') : size m = size m' := by
  have hperm : m.keys.Perm m'.keys := (List.perm_ext_iff_of_nodup m.keys_nodup m'.keys_nodup).mpr h
  have hlength : (m.entries.map Sigma.fst).length = (m'.entries.map Sigma.fst).length := hperm.length_eq
  rw [List.length_map, List.length_map] at hlength
  exact hlength

theorem count_eq_total (p : V → Bool) (m : Map K V) : count p m = total (fun v => (p v).toNat) m := by
  rw [count, total]
  induction values m with
  | nil => rfl
  | cons v l ih =>
    rw [List.countP_cons, ih, List.map_cons, List.sum_cons, Nat.add_comm]
    cases p v <;> rfl

theorem toNat_any (p : V → Bool) (o : Option V) : (o.any p).toNat = (o.map fun v => (p v).toNat).getD 0 := by
  cases o <;> rfl

variable [DecidableEq K]

theorem mem_values_iff {v : V} : v ∈ values m ↔ ∃ k, m.lookup k = some v := by
  constructor
  · intro h
    obtain ⟨⟨k, w⟩, hm, rfl⟩ := List.mem_map.mp h
    exact ⟨k, AList.mem_lookup_iff.mpr hm⟩
  · rintro ⟨k, hk⟩
    exact List.mem_map.mpr ⟨⟨k, v⟩, AList.mem_lookup_iff.mp hk, rfl⟩

theorem size_eq_zero_iff : size m = 0 ↔ ∀ k, m.lookup k = none := by
  constructor
  · intro h k
    rw [AList.lookup_eq_none, AList.mem_keys, AList.keys, List.eq_nil_of_length_eq_zero h]
    simp
  · intro h
    rw [size, List.length_eq_zero_iff, List.eq_nil_iff_forall_not_mem]
    rintro ⟨k, v⟩ hm
    have := AList.mem_lookup_iff.mpr hm
    rw [h k] at this
    cases this

theorem sum_kerase (g : V → Nat) (k : K) (l : List (Σ _ : K, V)) :
    ((l.kerase k).map fun e => g e.2).sum + ((l.dlookup k).map g).getD 0 = (l.map fun e => g e.2).sum := by
  induction l with
  | nil => rfl
  | cons e l ih =>
    obtain ⟨k', v⟩ := e
    by_cases h : k = k'
    · subst h
      have hk : List.kerase k (⟨k, v⟩ :: l : List (Σ _ : K, V)) = l := List.kerase_cons_eq rfl
      rw [hk, List.dlookup_cons_eq, List.map_cons, List.sum_cons, Option.map_some, Option.getD_some]
      exact Nat.add_comm _ _
    · rw [List.kerase_cons_ne h, List.dlookup_cons_ne _ _ h, List.map_cons, List.map_cons, List.sum_cons,
        List.sum_cons]
      omega

theorem total_erase (g : V → Nat) (m : Map K V) (k : K) :
    total g (m.erase k) + ((m.lookup k).map g).getD 0 = total g m := by
  rw [total_eq, total_eq]
  exact sum_kerase g k m.entries

theorem total_insert (g : V → Nat) (m : Map K V) (k : K) (v : V) :
    total g (m.insert k v) + ((m.lookup k).map g).getD 0 = total g m + g v := by
  have h := sum_kerase g k m.entries
  have hcons : total g (m.insert k v) = g v + ((m.entries.kerase k).map fun e => g e.2).sum := by
    rw [total_eq, AList.entries_insert, List.map_cons, List.sum_cons]
  rw [total_eq g m, hcons, AList.lookup]
  omega

theorem count_erase (p : V → Bool) (m : Map K V) (k : K) :
    count p (m.erase k) + ((m.lookup k).any p).toNat = count p m := by
  rw [count_eq_total, count_eq_total, toNat_any]
  exact total_erase _ m k

theorem count_insert (p : V → Bool) (m : Map K V) (k : K) (v : V) :
    count p (m.insert k v) + ((m.lookup k).any p).toNat = count p m + (p v).toNat := by
  rw [count_eq_total, count_eq_total, toNat_any]
  exact total_insert _ m k v

theorem size_erase (m : Map K V) (k : K) : size (m.erase k) + (m.lookup k).isSome.toNat = size m := by
  have hsize : ∀ m : Map K V, size m = count (fun _ => true) m := fun m => by
    rw [count, List.countP_true, size, values, List.length_map]
  have hany : (m.lookup k).any (fun _ => true) = (m.lookup k).isSome := by
    cases m.lookup k <;> rfl
  rw [hsize, hsize, ← hany]
  exact count_erase _ m k

theorem size_insert (m : Map K V) (k : K) (v : V) : size (m.insert k v) + (m.lookup k).isSome.toNat = size m + 1 := by
  have herase := size_erase m k
  have hcons : size (m.insert k v) = size (m.erase k) + 1 := by
    rw [size, AList.entries_insert, List.length_cons]
    rfl
  omega

theorem count_eq_zero_iff : count p m = 0 ↔ ∀ k v, m.lookup k = some v → p v = false := by
  rw [count, List.countP_eq_zero]
  constructor
  · intro h k v hv
    simpa using h v (mem_values_iff.mpr ⟨k, hv⟩)
  · intro h v hv
    obtain ⟨k, hk⟩ := mem_values_iff.mp hv
    simp [h k v hk]

theorem count_congr {q : V → Bool} (h : ∀ k v, m.lookup k = some v → p v = q v) : count p m = count q m := by
  refine List.countP_congr fun v hv => ?_
  obtain ⟨k, hk⟩ := mem_values_iff.mp hv
  rw [h k v hk]

theorem card_le_count {A : Finset K}
    (h : ∀ k ∈ A, ∃ v, m.lookup k = some v ∧ p v = true) : A.card ≤ count p m := by
  have hsub : A ⊆ ((m.entries.filter fun e => p e.2).map Sigma.fst).toFinset := by
    intro k hk
    obtain ⟨v, hv, hp⟩ := h k hk
    have hmem : (⟨k, v⟩ : Σ _ : K, V) ∈ m.entries.filter fun e => p e.2 :=
      List.mem_filter.mpr ⟨AList.mem_lookup_iff.mp hv, hp⟩
    exact List.mem_toFinset.mpr (List.mem_map_of_mem hmem)
  calc A.card ≤ ((m.entries.filter fun e => p e.2).map Sigma.fst).toFinset.card := Finset.card_le_card hsub
    _ ≤ ((m.entries.filter fun e => p e.2).map Sigma.fst).length := List.toFinset_card_le _
    _ = count p m := by rw [List.length_map, count_eq_countP, List.countP_eq_length_filter]

theorem lookup_insert_eq (m : Map K V) (k k' : K) (v : V) :
    (m.insert k v).lookup k' = if k' = k then some v else m.lookup k' := by
  split
  · rename_i h
    rw [h, AList.lookup_insert]
  · rename_i h
    exact AList.lookup_insert_ne h

theorem lookup_erase_eq (m : Map K V) (k k' : K) : (m.erase k).lookup k' = if k' = k then none else m.lookup k' := by
  split
  · rename_i h
    rw [h, AList.lookup_erase]
  · rename_i h
    exact AList.lookup_erase_ne h

section Inserted
variable {ε : Type*} (key : ε → K) (val : ε → V)

theorem lookup_foldl_insert (es : List ε) (m : Map K V) (k : K) :
    (∃ e ∈ es, key e = k ∧ (es.foldl (fun m e => m.insert (key e) (val e)) m).lookup k = some (val e)) ∨
      (∀ e ∈ es, key e ≠ k) ∧ (es.foldl (fun m e => m.insert (key e) (val e)) m).lookup k = m.lookup k := by
  induction es generalizing m with
  | nil => exact .inr ⟨fun _ h => absurd h List.not_mem_nil, rfl⟩
  | cons e es ih =>
    rw [List.foldl_cons]
    rcases ih (m.insert (key e) (val e)) with ⟨e', he', hkey, hlookup⟩ | ⟨hnone, hlookup⟩
    · exact .inl ⟨e', List.mem_cons_of_mem _ he', hkey, hlookup⟩
    · rw [lookup_insert_eq] at hlookup
      by_cases hkey : k = key e
      · exact .inl ⟨e, List.mem_cons_self, hkey.symm, hlookup.trans (if_pos hkey)⟩
      · exact .inr ⟨List.forall_mem_cons.mpr ⟨Ne.symm hkey, hnone⟩, hlookup.trans (if_neg hkey)⟩

theorem mem_foldl_insert (es : List ε) (m : Map K V) (k : K) :
    k ∈ es.foldl (fun m e => m.insert (key e) (val e)) m ↔ k ∈ m ∨ ∃ e ∈ es, key e = k := by
  rw [← AList.lookup_isSome, ← AList.lookup_isSome]
  rcases lookup_foldl_insert key val es m k with ⟨e, he, hkey, hlookup⟩ | ⟨hnone, hlookup⟩
  · rw [hlookup]
    exact iff_of_true rfl (.inr ⟨e, he, hkey⟩)
  · rw [hlookup]
    exact ⟨.inl, fun h => h.resolve_right fun ⟨e, he, hkey⟩ => hnone e he hkey⟩

theorem lookup_foldl_entries {m base : Map K V} (key : V → K) (hkey : ∀ e ∈ m.entries, key e.2 = e.1) (hbase : base = ∅)
    (k : K) : (m.entries.foldl (fun a e => a.insert (key e.2) e.2) base).lookup k = m.lookup k := by
  rcases lookup_foldl_insert (fun e => key e.2) (fun e => e.2) m.entries base k with
    ⟨e, he, rfl, hlast⟩ | ⟨hnone, hlast⟩
  · rw [hlast, hkey e he]
    exact (AList.mem_lookup_iff.mpr he).symm
  · have hk : k ∉ m := fun hk => by
      obtain ⟨e, he, heq⟩ := List.mem_map.mp (AList.mem_keys.mp hk)
      exact hnone e he ((hkey e he).trans heq)
    rw [hlast, hbase, AList.lookup_empty, AList.lookup_eq_none.mpr hk]

end Inserted

end FiniteMap
