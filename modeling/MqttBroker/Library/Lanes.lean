import Mathlib.Data.List.Sort
import Mathlib.Data.Set.Insert

/-! Items that are numbered as they come and wait in a line or aside of it. If nothing
joins the line while an item waits aside, and an item that waits aside leaves only
when the line is empty and no older one waits aside, all items leave in the order in
which they came. -/

namespace Lanes

structure State where
  count : Nat
  gone : List Nat
  line : List Nat
  aside : Set Nat

structure Ordered (x : State) : Prop where
  ascending : (x.gone ++ x.line).Pairwise (· < ·)
  older : ∀ k ∈ x.gone ++ x.line, ∀ p ∈ x.aside, k < p
  counted : ∀ k ∈ x.gone ++ x.line, k < x.count
  asideCounted : ∀ p ∈ x.aside, p < x.count

variable {x y : State} {p : Nat} {aside : Set Nat}

theorem Ordered.mono (h : Ordered x) (hcount : y.count = x.count) (haside : y.aside ⊆ x.aside)
    (hsub : (y.gone ++ y.line).Sublist (x.gone ++ x.line)) : Ordered y := by
  refine ⟨h.ascending.sublist hsub, fun k hk p hp => h.older k (hsub.subset hk) p (haside hp), ?_, ?_⟩
  · rw [hcount]
    exact fun k hk => h.counted k (hsub.subset hk)
  · rw [hcount]
    exact fun p hp => h.asideCounted p (haside hp)

theorem Ordered.join (h : Ordered x) (hcount : y.count = x.count + 1) (hgone : y.gone = x.gone)
    (hline : y.line = x.line ++ [x.count]) (hnone : ∀ p, p ∉ y.aside) : Ordered y := by
  have hall : y.gone ++ y.line = (x.gone ++ x.line) ++ [x.count] := by rw [hgone, hline, List.append_assoc]
  refine ⟨?_, fun k _ p hp => absurd hp (hnone p), ?_, fun p hp => absurd hp (hnone p)⟩
  · rw [hall, List.pairwise_append]
    refine ⟨h.ascending, List.pairwise_singleton _ _, fun k hk q hq => ?_⟩
    rw [List.mem_singleton.mp hq]
    exact h.counted k hk
  · intro k hk
    rw [hall] at hk
    rw [hcount]
    rcases List.mem_append.mp hk with hk | hk
    · exact (h.counted k hk).trans (Nat.lt_succ_self _)
    · rw [List.mem_singleton.mp hk]
      exact Nat.lt_succ_self _

theorem Ordered.setAside (h : Ordered x) (haside : aside ⊆ insert x.count x.aside) :
    Ordered { x with count := x.count + 1, aside := aside } := by
  refine ⟨h.ascending, fun k hk p hp => ?_, fun k hk => (h.counted k hk).trans (Nat.lt_succ_self _), fun p hp => ?_⟩
  · rcases haside hp with rfl | hp
    · exact h.counted k hk
    · exact h.older k hk p hp
  · rcases haside hp with rfl | hp
    · exact Nat.lt_succ_self _
    · exact (h.asideCounted p hp).trans (Nat.lt_succ_self _)

theorem Ordered.release (h : Ordered x) (hline : x.line = []) (hp : p ∈ x.aside) (haside : aside ⊆ x.aside)
    (hold : ∀ q ∈ aside, p < q) : Ordered { x with gone := x.gone ++ [p], aside := aside } := by
  have hgone : x.gone ++ x.line = x.gone := by rw [hline, List.append_nil]
  have hmem : ∀ k, k ∈ (x.gone ++ [p]) ++ x.line → k ∈ x.gone ++ x.line ∨ k = p := by
    rw [hline]
    simp
  refine ⟨?_, fun k hk q hq => ?_, fun k hk => ?_, fun q hq => h.asideCounted q (haside hq)⟩
  · show ((x.gone ++ [p]) ++ x.line).Pairwise (· < ·)
    rw [hline, List.append_nil, List.pairwise_append]
    refine ⟨hgone ▸ h.ascending, List.pairwise_singleton _ _, fun k hk q hq => ?_⟩
    rw [List.mem_singleton.mp hq]
    exact h.older k (List.mem_append_left _ hk) p hp
  · rcases hmem k hk with hk | rfl
    · exact h.older k hk q (haside hq)
    · exact hold q hq
  · rcases hmem k hk with hk | rfl
    · exact h.counted k hk
    · exact h.asideCounted _ hp

theorem Ordered.idxOf_lt (h : Ordered x) {n m : Nat} (hn : n ∈ x.gone) (hm : m ∈ x.gone) (hlt : n < m) :
    x.gone.idxOf n < x.gone.idxOf m := by
  have hgone : x.gone.Pairwise (· < ·) := h.ascending.sublist (List.sublist_append_left _ _)
  have hin := List.idxOf_lt_length_of_mem hn
  have him := List.idxOf_lt_length_of_mem hm
  by_contra hle
  rcases Nat.lt_or_eq_of_le (Nat.le_of_not_lt hle) with hmn | heq
  · have hgt := List.pairwise_iff_getElem.mp hgone _ _ him hin hmn
    rw [List.getElem_idxOf, List.getElem_idxOf] at hgt
    exact absurd hlt (Nat.lt_asymm hgt)
  · exact absurd ((List.idxOf_inj hm).mp heq) (Nat.ne_of_gt hlt)

end Lanes
