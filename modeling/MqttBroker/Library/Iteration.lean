import MqttBroker.Library.FiniteMap

/-! Loops over finite maps whose order is not specified. Every loop of a program
has a site, and an iteration gives each site an order of each map. A loop that
only asks whether some entry has a property does not see the order; a loop that
stops at its first decisive entry does, unless all such entries decide alike. -/

namespace FiniteMap
universe u v w

structure Iteration (S : Type w) (K : Type u) (V : Type v) where
  order : S → Map K V → List (Σ _ : K, V)
  perm : ∀ s m, (order s m).Perm m.entries

namespace Iteration
variable {S : Type w} {K : Type u} {V : Type v} {β : Type*} {m : Map K V} {d : (Σ _ : K, V) → Option β}

theorem mem_order (e : Iteration S K V) {s : S} {x : Σ _ : K, V} : x ∈ e.order s m ↔ x ∈ m.entries :=
  (e.perm s m).mem_iff

theorem any_order (e : Iteration S K V) (s : S) (m : Map K V) (p : (Σ _ : K, V) → Bool) :
    (e.order s m).any p = m.entries.any p := by
  rw [Bool.eq_iff_iff, List.any_eq_true, List.any_eq_true]
  simp only [mem_order]

def Agree {α : Type*} (d : α → Option β) (l : List α) : Prop :=
  ∀ a ∈ l, ∀ b ∈ l, ∀ x y, d a = some x → d b = some y → x = y

theorem findSome?_of_agree {α : Type*} {d : α → Option β} {l : List α} {a : α} {x : β} (h : Agree d l) (ha : a ∈ l)
    (hx : d a = some x) : l.findSome? d = some x := by
  cases hfind : l.findSome? d with
  | none =>
    have hnone := List.findSome?_eq_none_iff.mp hfind a ha
    rw [hx] at hnone
    cases hnone
  | some y =>
    obtain ⟨b, hb, hy⟩ := List.exists_of_findSome?_eq_some hfind
    rw [h a ha b hb x y hx hy]

theorem findSome?_order (e e' : Iteration S K V) (s : S)
    (h : Agree d m.entries) : (e.order s m).findSome? d = (e'.order s m).findSome? d := by
  have hagree : ∀ e : Iteration S K V, Agree d (e.order s m) := fun e a ha b hb =>
    h a (e.mem_order.mp ha) b (e.mem_order.mp hb)
  cases hfind : (e'.order s m).findSome? d with
  | none =>
    rw [List.findSome?_eq_none_iff] at hfind ⊢
    intro x hx
    exact hfind x (e'.mem_order.mpr (e.mem_order.mp hx))
  | some x =>
    obtain ⟨a, ha, hx⟩ := List.exists_of_findSome?_eq_some hfind
    exact findSome?_of_agree (hagree e) (e.mem_order.mpr (e'.mem_order.mp ha)) hx

variable [DecidableEq K]

def leading (k : K) : Iteration S K V where
  order _ m := m.entries.filter (fun x => x.1 = k) ++ m.entries.filter (fun x => !decide (x.1 = k))
  perm _ _ := List.filter_append_perm _ _

theorem findSome?_leading {s : S} {k : K} {v : V} {x : β}
    (h : m.lookup k = some v) (hd : d ⟨k, v⟩ = some x) :
    ((leading k : Iteration S K V).order s m).findSome? d = some x := by
  have hmem : (⟨k, v⟩ : Σ _ : K, V) ∈ m.entries.filter fun y => y.1 = k :=
    List.mem_filter.mpr ⟨AList.mem_lookup_iff.mp h, decide_eq_true rfl⟩
  -- the key stands once in the map, so its entry is all of the first part
  have honly : ∀ a ∈ m.entries.filter (fun y => y.1 = k), a = ⟨k, v⟩ := by
    rintro ⟨k', v'⟩ hentry
    obtain ⟨hin, hk⟩ := List.mem_filter.mp hentry
    obtain rfl : k' = k := of_decide_eq_true hk
    have hsame : some v' = some v := (AList.mem_lookup_iff.mpr hin).symm.trans h
    rw [Option.some.inj hsame]
  have hagree : Agree d (m.entries.filter fun y => y.1 = k) := by
    intro a ha b hb y z hy hz
    rw [honly a ha] at hy
    rw [honly b hb, hy] at hz
    exact Option.some.inj hz
  rw [leading, List.findSome?_append, findSome?_of_agree hagree hmem hd, Option.some_or]

end Iteration

/-! ### Loops that collect -/

section Collecting
variable {α σ : Type*}

theorem foldl_iff_exists {f : σ → α → σ} {P : σ → Prop} {Q : α → Prop} (hstep : ∀ s a, P (f s a) ↔ P s ∨ Q a)
    (l : List α) (s : σ) : P (l.foldl f s) ↔ P s ∨ ∃ a ∈ l, Q a := by
  induction l generalizing s with
  | nil => simp
  | cons a l ih =>
    rw [List.foldl_cons, ih, hstep, or_assoc]
    simp only [List.mem_cons, exists_eq_or_imp]

theorem foldl_of_mem {f : σ → α → σ} {P : σ → Prop} {l : List α} {a : α} (ha : a ∈ l) (hset : ∀ s, P (f s a))
    (hkeep : ∀ s, ∀ a' ∈ l, P s → P (f s a')) (s : σ) : P (l.foldl f s) := by
  obtain ⟨front, back, rfl⟩ := List.append_of_mem ha
  rw [List.foldl_append, List.foldl_cons]
  exact List.foldlRecOn back f (hset _) fun s hs a' ha' =>
    hkeep s a' (List.mem_append_right _ (List.mem_cons_of_mem _ ha')) hs

theorem exists_entry_iff {K : Type u} {V : Type v} {k : K} {Q : V → Prop} {l : List (Σ _ : K, V)} :
    (∃ a ∈ l, k = a.1 ∧ Q a.2) ↔ ∃ v, ⟨k, v⟩ ∈ l ∧ Q v := by
  constructor
  · rintro ⟨⟨_, v⟩, hmem, rfl, hv⟩
    exact ⟨v, hmem, hv⟩
  · rintro ⟨v, hmem, hv⟩
    exact ⟨⟨k, v⟩, hmem, rfl, hv⟩

end Collecting

/-! ### Loops that combine -/

section Upserts
variable {K : Type u} {V : Type v} [DecidableEq K]

def upsert (f : Option V → V → V) (m : Map K V) (k : K) (v : V) : Map K V := m.insert k (f (m.lookup k) v)

theorem lookup_upsert (f : Option V → V → V) (m : Map K V) (k k' : K) (v : V) :
    (upsert f m k v).lookup k' = if k' = k then some (f (m.lookup k) v) else m.lookup k' :=
  lookup_insert_eq _ _ _ _

theorem lookupAll_cons (k : K) (a : Σ _ : K, V) (l : List (Σ _ : K, V)) :
    (a :: l).lookupAll k = if k = a.1 then a.2 :: l.lookupAll k else l.lookupAll k := by
  split
  · rename_i h
    subst h
    exact List.lookupAll_cons_eq l a.1 a.2
  · rename_i h
    exact List.lookupAll_cons_ne l a h

theorem lookup_foldl_upsert (f : Option V → V → V) (l : List (Σ _ : K, V)) (m : Map K V) (k : K) :
    (l.foldl (fun m a => upsert f m a.1 a.2) m).lookup k =
      (l.lookupAll k).foldl (fun o v => some (f o v)) (m.lookup k) := by
  induction l generalizing m with
  | nil => rfl
  | cons a l ih =>
    rw [List.foldl_cons, ih, lookup_upsert, lookupAll_cons]
    split
    · rename_i h
      rw [h, List.foldl_cons]
    · rfl

theorem lookupAll_of_perm {m : Map K V} {l : List (Σ _ : K, V)} (h : l.Perm m.entries) (k : K) :
    l.lookupAll k = (m.lookup k).toList := by
  have hkeys : l.NodupKeys := (List.perm_nodupKeys h).mpr m.nodupKeys
  rw [List.perm_lookupAll k hkeys h, List.lookupAll_eq_dlookup k m.nodupKeys]
  rfl

theorem lookupAll_filter (k : K) (p : V → Bool) (l : List (Σ _ : K, V)) :
    (l.filter fun a => p a.2).lookupAll k = (l.lookupAll k).filter p := by
  induction l with
  | nil => rfl
  | cons a l ih =>
    rw [List.filter_cons, lookupAll_cons]
    cases hp : p a.2 with
    | true =>
      rw [if_pos rfl, lookupAll_cons, ih]
      split
      · rw [List.filter_cons, if_pos hp]
      · rfl
    | false =>
      rw [if_neg (by decide), ih]
      split
      · rw [List.filter_cons, if_neg (by rw [hp]; decide)]
      · rfl

end Upserts

end FiniteMap
