import Mathlib.Algebra.GroupWithZero.Nat
import Mathlib.Data.List.Basic
import Mathlib.Tactic.Common

/-! Tries over paths of keys. A node holds a value and its children by key. The
operations are the ones of an index that is updated in place: reach the node
of a path and create what is missing, change its value, and remove the nodes
of a path that hold nothing. Abstractly a trie is the function from paths to
values that `valueAt` reads off it. -/

universe u v

inductive Trie (K : Type u) (α : Type v) where
  | node (value : α) (children : List (K × Trie K α))

namespace Trie
variable {K : Type u} {α : Type v}

def value : Trie K α → α
  | node a _ => a

def children : Trie K α → List (K × Trie K α)
  | node _ cs => cs

theorem sizeOf_lt_of_mem {t c : Trie K α} {k : K} [SizeOf K] [SizeOf α] (h : (k, c) ∈ t.children) :
    sizeOf c < sizeOf t := by
  cases t with
  | node a cs =>
    have := List.sizeOf_lt_of_mem h
    simp only [Trie.node.sizeOf_spec, Prod.mk.sizeOf_spec, children] at *
    omega

def leaf (a : α) : Trie K α := node a []

@[simp] theorem value_node (a : α) (cs : List (K × Trie K α)) : (node a cs).value = a := rfl
@[simp] theorem children_node (a : α) (cs : List (K × Trie K α)) : (node a cs).children = cs := rfl
@[simp] theorem value_leaf (a : α) : (leaf a : Trie K α).value = a := rfl
@[simp] theorem children_leaf (a : α) : (leaf a : Trie K α).children = [] := rfl

variable [DecidableEq K]

def child? (t : Trie K α) (k : K) : Option (Trie K α) := t.children.lookup k

theorem lookup_cons_eq {β : Type v} (k k' : K) (b : β) (cs : List (K × β)) :
    ((k, b) :: cs).lookup k' = if k' = k then some b else cs.lookup k' := by
  by_cases h : k' = k
  · simp [h]
  · rw [List.lookup_cons, beq_false_of_ne h, if_neg h]

theorem mem_of_child? {t c : Trie K α} {k : K} (h : t.child? k = some c) : (k, c) ∈ t.children := by
  rw [child?] at h
  generalize t.children = cs at h
  induction cs with
  | nil => simp at h
  | cons e cs ih =>
    obtain ⟨k', c'⟩ := e
    rw [lookup_cons_eq] at h
    split at h
    · rename_i hk
      rw [hk, Option.some.inj h]
      exact List.mem_cons_self
    · exact List.mem_cons_of_mem _ (ih h)

def setChild (t : Trie K α) (k : K) (c : Trie K α) : Trie K α :=
  node t.value ((k, c) :: t.children.filter fun e => e.1 ≠ k)

def dropChild (t : Trie K α) (k : K) : Trie K α :=
  node t.value (t.children.filter fun e => e.1 ≠ k)

@[simp] theorem value_setChild (t c : Trie K α) (k : K) : (t.setChild k c).value = t.value := rfl
@[simp] theorem value_dropChild (t : Trie K α) (k : K) : (t.dropChild k).value = t.value := rfl

theorem lookup_filter_ne (cs : List (K × Trie K α)) (k k' : K) :
    (cs.filter fun e => e.1 ≠ k).lookup k' = if k' = k then none else cs.lookup k' := by
  induction cs with
  | nil => simp
  | cons e cs ih =>
    obtain ⟨k₁, c⟩ := e
    by_cases h : k₁ = k
    · rw [List.filter_cons_of_neg (by simp [h]), ih, lookup_cons_eq, h]
      split <;> rfl
    · rw [List.filter_cons_of_pos (by simp [h]), lookup_cons_eq, lookup_cons_eq, ih]
      by_cases hk : k' = k
      · rw [if_pos hk, if_pos hk, if_neg (by rw [hk]; exact Ne.symm h)]
      · rw [if_neg hk, if_neg hk]

theorem child?_setChild (t c : Trie K α) (k k' : K) :
    (t.setChild k c).child? k' = if k' = k then some c else t.child? k' := by
  rw [child?, setChild, children_node, lookup_cons_eq, lookup_filter_ne]
  split <;> rfl

theorem child?_dropChild (t : Trie K α) (k k' : K) : (t.dropChild k).child? k' = if k' = k then none else t.child? k' :=
  lookup_filter_ne t.children k k'

def find? : Trie K α → List K → Option (Trie K α)
  | t, [] => some t
  | t, k :: ks => (t.child? k).bind fun c => c.find? ks

@[simp] theorem find?_nil (t : Trie K α) : t.find? [] = some t := rfl

theorem find?_cons (t : Trie K α) (k : K) (ks : List K) :
    t.find? (k :: ks) = (t.child? k).bind fun c => c.find? ks := rfl

theorem find?_append (t : Trie K α) (p q : List K) : t.find? (p ++ q) = (t.find? p).bind fun c => c.find? q := by
  induction p generalizing t with
  | nil => rfl
  | cons k p ih =>
    rw [List.cons_append, find?_cons, find?_cons]
    cases t.child? k with
    | none => rfl
    | some c => exact ih c

def valueAt (empty : α) (t : Trie K α) (path : List K) : α := ((t.find? path).map value).getD empty

@[simp] theorem valueAt_nil (empty : α) (t : Trie K α) : t.valueAt empty [] = t.value := rfl

theorem valueAt_cons (empty : α) (t : Trie K α) (k : K) (ks : List K) :
    t.valueAt empty (k :: ks) = ((t.child? k).map fun c => c.valueAt empty ks).getD empty := by
  rw [valueAt, find?_cons]
  cases t.child? k <;> rfl

@[simp] theorem child?_leaf (a : α) (k : K) : (leaf a : Trie K α).child? k = none := rfl

theorem valueAt_leaf (empty : α) (path : List K) : (leaf empty : Trie K α).valueAt empty path = empty := by
  cases path <;> rfl

def childOr (empty : α) (t : Trie K α) (k : K) : Trie K α := (t.child? k).getD (leaf empty)

theorem valueAt_childOr (empty : α) (t : Trie K α) (k : K) (ks : List K) :
    (t.childOr empty k).valueAt empty ks = t.valueAt empty (k :: ks) := by
  rw [valueAt_cons, childOr]
  cases t.child? k with
  | none => exact valueAt_leaf empty ks
  | some c => rfl

def alter (empty : α) (f : α → α) : List K → Trie K α → Trie K α
  | [], t => node (f t.value) t.children
  | k :: ks, t => t.setChild k (alter empty f ks (t.childOr empty k))

theorem child?_alter_cons (empty : α) (f : α → α) (t : Trie K α) (k k' : K) (ks : List K) :
    (t.alter empty f (k :: ks)).child? k' =
      if k' = k then some ((t.childOr empty k).alter empty f ks) else t.child? k' :=
  child?_setChild _ _ _ _

theorem valueAt_alter (empty : α) (f : α → α) (t : Trie K α) (path q : List K) :
    (t.alter empty f path).valueAt empty q = if q = path then f (t.valueAt empty path) else t.valueAt empty q := by
  induction path generalizing t q with
  | nil =>
    cases q with
    | nil => rfl
    | cons k q => simp [valueAt_cons, alter, child?]
  | cons k path ih =>
    cases q with
    | nil => simp [alter]
    | cons k' q =>
      rw [valueAt_cons, child?_alter_cons]
      by_cases h : k' = k
      · subst h
        simp only [if_true, Option.map_some, Option.getD_some, ih, valueAt_childOr, List.cons.injEq,
          true_and]
      · rw [if_neg h, ← valueAt_cons, if_neg (by simp [h])]

def trim (isEmpty : α → Bool) : List K → Trie K α → Trie K α
  | [], t => t
  | k :: ks, t =>
    match t.child? k with
    | none => t
    | some c =>
      let c' := trim isEmpty ks c
      if isEmpty c'.value && c'.children.isEmpty then t.dropChild k else t.setChild k c'

variable {empty : α} {cs : List (K × Trie K α)}

theorem map_valueAt_trim {β : Type*} {isEmpty : α → Bool} {g : α → β}
    (hempty : ∀ a, isEmpty a = true → g a = g empty) (t : Trie K α) (path q : List K) :
    g ((t.trim isEmpty path).valueAt empty q) = g (t.valueAt empty q) := by
  induction path generalizing t q with
  | nil => rfl
  | cons k path ih =>
    rw [trim]
    split
    · rfl
    · rename_i c hc
      cases q with
      | nil => dsimp only; split <;> rfl
      | cons k' q =>
        dsimp only
        split
        · rename_i h
          simp only [Bool.and_eq_true, List.isEmpty_iff] at h
          rw [valueAt_cons, child?_dropChild, valueAt_cons]
          split
          · rename_i hk
            subst hk
            rw [hc, Option.map_some, Option.getD_some, ← ih]
            generalize c.trim isEmpty path = c' at h
            cases q with
            | nil => exact (hempty _ h.1).symm
            | cons k q => simp [valueAt_cons, child?, h.2]
          · rfl
        · rw [valueAt_cons, child?_setChild, valueAt_cons]
          split
          · rename_i hk
            subst hk
            rw [hc, Option.map_some, Option.getD_some, Option.map_some, Option.getD_some, ih]
          · rfl

/-! ### Distinct keys -/

def KeysNodup (t : Trie K α) : Prop :=
  ∀ path c, t.find? path = some c → (c.children.map Prod.fst).Nodup

theorem keysNodup_leaf (a : α) : (leaf a : Trie K α).KeysNodup := by
  intro path c h
  cases path with
  | nil =>
    rw [find?_nil, Option.some.injEq] at h
    simp [← h]
  | cons k path => simp [find?_cons] at h

theorem KeysNodup.child {t c : Trie K α} {k : K} (h : t.KeysNodup) (hc : t.child? k = some c) : c.KeysNodup := by
  intro path d hd
  exact h (k :: path) d (by rw [find?_cons, hc]; exact hd)

theorem KeysNodup.of_children {t : Trie K α} (hkeys : (t.children.map Prod.fst).Nodup)
    (hc : ∀ k c, t.child? k = some c → c.KeysNodup) : t.KeysNodup := by
  intro path d hd
  cases path with
  | nil =>
    rw [find?_nil, Option.some.injEq] at hd
    rwa [← hd]
  | cons k path =>
    rw [find?_cons, Option.bind_eq_some_iff] at hd
    obtain ⟨c, hchild, hd⟩ := hd
    exact hc k c hchild path d hd

theorem KeysNodup.nodup {t : Trie K α} (h : t.KeysNodup) : (t.children.map Prod.fst).Nodup :=
  h [] t rfl

theorem child?_eq_some_iff {t c : Trie K α} {k : K} (h : (t.children.map Prod.fst).Nodup) :
    t.child? k = some c ↔ (k, c) ∈ t.children := by
  refine ⟨mem_of_child?, ?_⟩
  rw [child?]
  generalize t.children = cs at h
  induction cs with
  | nil => simp
  | cons e cs ih =>
    obtain ⟨k', c'⟩ := e
    rw [List.map_cons, List.nodup_cons] at h
    intro hm
    rw [lookup_cons_eq]
    rcases List.mem_cons.mp hm with heq | hm
    · obtain ⟨rfl, rfl⟩ := Prod.mk.inj heq
      exact if_pos rfl
    · have hne : k ≠ k' := fun heq => h.1 (heq ▸ List.mem_map.mpr ⟨_, hm, rfl⟩)
      rw [if_neg hne]
      exact ih h.2 hm

theorem nodup_filter_keys (k : K) (h : (cs.map Prod.fst).Nodup) : ((cs.filter fun e => e.1 ≠ k).map Prod.fst).Nodup :=
  List.Nodup.sublist (List.filter_sublist.map Prod.fst) h

theorem KeysNodup.dropChild {t : Trie K α} (h : t.KeysNodup) (k : K) : (t.dropChild k).KeysNodup := by
  refine .of_children (nodup_filter_keys k h.nodup) fun k' c hc => ?_
  rw [child?_dropChild] at hc
  split at hc
  · cases hc
  · exact h.child hc

theorem KeysNodup.setChild {t c : Trie K α} (h : t.KeysNodup) (hc : c.KeysNodup) (k : K) :
    (t.setChild k c).KeysNodup := by
  refine .of_children ?_ fun k' c' hc' => ?_
  · refine List.nodup_cons.mpr ⟨?_, nodup_filter_keys k h.nodup⟩
    intro hm
    obtain ⟨e, he, hk⟩ := List.mem_map.mp hm
    simp [hk] at he
  · rw [child?_setChild] at hc'
    split at hc'
    · rwa [← Option.some.inj hc']
    · exact h.child hc'

theorem KeysNodup.alter {t : Trie K α} (h : t.KeysNodup) (empty : α) (f : α → α) (path : List K) :
    (t.alter empty f path).KeysNodup := by
  induction path generalizing t with
  | nil => exact .of_children h.nodup fun k c hc => h.child hc
  | cons k path ih =>
    refine h.setChild (ih ?_) k
    rw [childOr]
    cases hc : t.child? k with
    | none => exact keysNodup_leaf empty
    | some c => exact h.child hc

theorem KeysNodup.trim {t : Trie K α} (h : t.KeysNodup) (isEmpty : α → Bool) (path : List K) :
    (t.trim isEmpty path).KeysNodup := by
  induction path generalizing t with
  | nil => exact h
  | cons k path ih =>
    rw [Trie.trim]
    split
    · exact h
    · rename_i c hc
      dsimp only
      split
      · exact h.dropChild k
      · exact h.setChild (ih (h.child hc)) k

/-! ### Trimmed tries -/

def Holds (isEmpty : α → Bool) (t : Trie K α) : Prop :=
  ∃ path c, t.find? path = some c ∧ isEmpty c.value = false

def Trimmed (isEmpty : α → Bool) (t : Trie K α) : Prop :=
  ∀ k path c, t.find? (k :: path) = some c → c.Holds isEmpty

variable {isEmpty : α → Bool} {t c : Trie K α} {k : K}

theorem Holds.of_child (hc : t.child? k = some c) (h : c.Holds isEmpty) : t.Holds isEmpty := by
  obtain ⟨path, d, hd, hvalue⟩ := h
  refine ⟨k :: path, d, ?_, hvalue⟩
  rw [find?_cons, hc]
  exact hd

theorem Trimmed.child (h : t.Trimmed isEmpty) (hc : t.child? k = some c) : c.Holds isEmpty ∧ c.Trimmed isEmpty := by
  have hfind : ∀ path, t.find? (k :: path) = c.find? path := by
    intro path
    rw [find?_cons, hc]
    rfl
  constructor
  · exact h k [] c (hfind [])
  · intro k' path d hd
    exact h k (k' :: path) d ((hfind _).trans hd)

theorem Trimmed.of_children (h : ∀ k c, t.child? k = some c → c.Holds isEmpty ∧ c.Trimmed isEmpty) :
    t.Trimmed isEmpty := by
  intro k path d hd
  rw [find?_cons, Option.bind_eq_some_iff] at hd
  obtain ⟨c, hc, hd⟩ := hd
  cases path with
  | nil =>
    rw [find?_nil, Option.some.injEq] at hd
    rw [← hd]
    exact (h k c hc).1
  | cons k' path => exact (h k c hc).2 k' path d hd

theorem trimmed_leaf (a : α) : (leaf a : Trie K α).Trimmed isEmpty := .of_children fun _ _ hc => absurd hc nofun

theorem Trimmed.setChild (h : t.Trimmed isEmpty) (hc : c.Holds isEmpty ∧ c.Trimmed isEmpty) (k : K) :
    (t.setChild k c).Trimmed isEmpty := by
  refine .of_children fun k' c' hc' => ?_
  rw [child?_setChild] at hc'
  split at hc'
  · rwa [← Option.some.inj hc']
  · exact h.child hc'

theorem Trimmed.dropChild (h : t.Trimmed isEmpty) (k : K) : (t.dropChild k).Trimmed isEmpty := by
  refine .of_children fun k' c' hc' => ?_
  rw [child?_dropChild] at hc'
  split at hc'
  · cases hc'
  · exact h.child hc'

theorem Trimmed.childOr (h : t.Trimmed isEmpty) (empty : α) (k : K) : (t.childOr empty k).Trimmed isEmpty := by
  unfold Trie.childOr
  cases hc : t.child? k with
  | none => exact trimmed_leaf empty
  | some c => exact (h.child hc).2

theorem Trimmed.node (h : t.Trimmed isEmpty) (a : α) : (Trie.node a t.children).Trimmed isEmpty :=
  .of_children fun _ _ hc => h.child hc

theorem Trimmed.alter (h : t.Trimmed isEmpty) (empty : α) (f : α → α) (path : List K)
    (hf : isEmpty (f (t.valueAt empty path)) = false) :
    (t.alter empty f path).Holds isEmpty ∧ (t.alter empty f path).Trimmed isEmpty := by
  induction path generalizing t with
  | nil => exact ⟨⟨[], _, rfl, hf⟩, h.node _⟩
  | cons k path ih =>
    rw [← valueAt_childOr] at hf
    have hchild := ih (h.childOr empty k) hf
    have hk : (t.alter empty f (k :: path)).child? k = some ((t.childOr empty k).alter empty f path) := by
      rw [child?_alter_cons, if_pos rfl]
    exact ⟨.of_child hk hchild.1, h.setChild hchild k⟩

theorem Trimmed.holds (h : t.Trimmed isEmpty) (hne : (isEmpty t.value && t.children.isEmpty) = false) :
    t.Holds isEmpty := by
  cases hvalue : isEmpty t.value with
  | false => exact ⟨[], t, rfl, hvalue⟩
  | true =>
    rw [hvalue, Bool.true_and] at hne
    obtain ⟨a, cs⟩ := t
    cases cs with
    | nil => cases hne
    | cons e cs =>
      have hc : (Trie.node a (e :: cs)).child? e.1 = some e.2 := (lookup_cons_eq _ _ _ _).trans (if_pos rfl)
      exact .of_child hc (h.child hc).1

theorem Trimmed.trim_alter (h : t.Trimmed isEmpty) (empty : α) (f : α → α) (path : List K) :
    ((t.alter empty f path).trim isEmpty path).Trimmed isEmpty := by
  induction path generalizing t with
  | nil => exact h.node _
  | cons k path ih =>
    have htrimmed := ih (h.childOr empty k)
    have hset : ∀ c, t.setChild k c = (t.alter empty f (k :: path)).setChild k c := by
      intro c
      unfold Trie.alter Trie.setChild
      simp
    have hdrop : (t.alter empty f (k :: path)).dropChild k = t.dropChild k := by
      unfold Trie.alter Trie.setChild Trie.dropChild
      simp
    rw [Trie.trim, child?_alter_cons, if_pos rfl]
    dsimp only
    split
    · rw [hdrop]
      exact h.dropChild k
    · rename_i hne
      rw [← hset]
      exact h.setChild ⟨htrimmed.holds (by simpa using hne), htrimmed⟩ k

/-! ### Sums over all nodes -/

def sum (g : α → Nat) (t : Trie K α) : Nat :=
  g t.value + (t.children.attach.map fun e => sum g e.1.2).sum
termination_by sizeOf t
decreasing_by exact sizeOf_lt_of_mem e.2

omit [DecidableEq K] in
theorem sum_eq (g : α → Nat) (t : Trie K α) : t.sum g = g t.value + (t.children.map fun e => e.2.sum g).sum := by
  have hall : t.children.attach.map (fun e => e.1.2.sum g) = t.children.map fun e => e.2.sum g :=
    List.attach_map_val (f := fun e : K × Trie K α => e.2.sum g)
  rw [sum, hall]

def sumAt (g : α → Nat) (t : Trie K α) (k : K) : Nat := ((t.child? k).map fun c => c.sum g).getD 0

variable {g : α → Nat}

omit [DecidableEq K] in
theorem sum_leaf (a : α) : (leaf a : Trie K α).sum g = g a := by
  rw [sum_eq]
  rfl

theorem sum_filter_ne (h : (cs.map Prod.fst).Nodup) (k : K) :
    ((cs.filter fun e => e.1 ≠ k).map fun e => e.2.sum g).sum + ((cs.lookup k).map fun c => c.sum g).getD 0 =
      (cs.map fun e => e.2.sum g).sum := by
  induction cs with
  | nil => rfl
  | cons e cs ih =>
    obtain ⟨k', c⟩ := e
    rw [List.map_cons, List.nodup_cons] at h
    have hrest := ih h.2
    rw [lookup_cons_eq, List.map_cons, List.sum_cons]
    by_cases hk : k = k'
    · subst hk
      have hnone : cs.lookup k = none := by
        by_contra hsome
        obtain ⟨d, hd⟩ := Option.ne_none_iff_exists'.mp hsome
        have hmem : (k, d) ∈ (node c.value cs).children := mem_of_child? hd
        exact h.1 (List.mem_map.mpr ⟨_, hmem, rfl⟩)
      rw [hnone] at hrest
      rw [List.filter_cons_of_neg (by simp), if_pos rfl]
      simp only [Option.map_none, Option.getD_none, Option.map_some, Option.getD_some] at hrest ⊢
      omega
    · rw [List.filter_cons_of_pos (by simpa using Ne.symm hk), if_neg hk, List.map_cons, List.sum_cons]
      omega

theorem sum_dropChild (h : t.KeysNodup) (k : K) : (t.dropChild k).sum g + t.sumAt g k = t.sum g := by
  have hcut := sum_filter_ne (g := g) h.nodup k
  rw [sum_eq, sum_eq g t]
  unfold sumAt child?
  unfold dropChild
  dsimp only [value_node, children_node]
  omega

theorem sum_setChild (h : t.KeysNodup) (k : K) (c : Trie K α) :
    (t.setChild k c).sum g + t.sumAt g k = t.sum g + c.sum g := by
  have hcut := sum_filter_ne (g := g) h.nodup k
  rw [sum_eq, sum_eq g t]
  unfold sumAt child?
  unfold setChild
  dsimp only [value_node, children_node]
  rw [List.map_cons, List.sum_cons]
  dsimp only
  omega

theorem sum_childOr (hempty : g empty = 0) (t : Trie K α) (k : K) : (t.childOr empty k).sum g = t.sumAt g k := by
  unfold childOr sumAt
  cases t.child? k with
  | none => exact (sum_leaf empty).trans hempty
  | some c => rfl

theorem sum_alter (hempty : g empty = 0) (f : α → α) (path : List K) (h : t.KeysNodup) :
    (t.alter empty f path).sum g + g (t.valueAt empty path) = t.sum g + g (f (t.valueAt empty path)) := by
  induction path generalizing t with
  | nil =>
    rw [sum_eq, sum_eq g t]
    show g (f t.value) + (t.children.map fun e => e.2.sum g).sum + g t.value = _ + g (f t.value)
    omega
  | cons k path ih =>
    have hor : (t.childOr empty k).KeysNodup := by
      unfold childOr
      cases hc : t.child? k with
      | none => exact keysNodup_leaf empty
      | some c => exact h.child hc
    have hchild := ih hor
    have hset := sum_setChild (g := g) h k ((t.childOr empty k).alter empty f path)
    rw [valueAt_childOr, sum_childOr hempty] at hchild
    show (t.setChild k ((t.childOr empty k).alter empty f path)).sum g + _ = _
    omega

theorem sum_trim (hempty : ∀ a, isEmpty a = true → g a = 0) (path : List K) (h : t.KeysNodup) :
    (t.trim isEmpty path).sum g = t.sum g := by
  induction path generalizing t with
  | nil => rfl
  | cons k path ih =>
    rw [Trie.trim]
    split
    · rfl
    · rename_i c hc
      have hchild := ih (h.child hc)
      have hat : t.sumAt g k = c.sum g := by
        unfold sumAt
        rw [hc]
        rfl
      dsimp only
      split
      · rename_i hnone
        rw [Bool.and_eq_true, List.isEmpty_iff] at hnone
        have hdrop := sum_dropChild (g := g) h k
        rw [sum_eq g (c.trim isEmpty path), hempty _ hnone.1, hnone.2] at hchild
        simp only [List.map_nil, List.sum_nil] at hchild
        omega
      · have hset := sum_setChild (g := g) h k (c.trim isEmpty path)
        omega

end Trie
