import Mathlib.Algebra.BigOperators.Group.List.Basic
import Mathlib.Tactic.Common

/-! Runs of a transition system whose steps are taken under a condition, and the
rule for invariants: what every step taken under the condition preserves holds
in every state of every such run. -/

namespace Runs
universe u v
variable {σ : Type u} {ι : Type v}

/-- The states that a run from `s` reaches when each of its steps meets the condition `ok` in the
state in which it is taken. -/
inductive Reach (step : σ → ι → σ → Prop) (ok : σ → ι → Prop) (s : σ) : σ → Prop
  | refl : Reach step ok s s
  | next {t u : σ} {i : ι} : Reach step ok s t → ok t i → step t i u → Reach step ok s u

variable {step : σ → ι → σ → Prop} {ok ok' : σ → ι → Prop} {s t : σ}

theorem Reach.invariant {Inv : σ → Prop} (hr : Reach step ok s t) (hs : Inv s)
    (hstep : ∀ {t i u}, Inv t → ok t i → step t i u → Inv u) : Inv t := by
  induction hr with
  | refl => exact hs
  | next _ hok hi ih => exact hstep ih hok hi

variable {α : Type*} {l : List α}

theorem Reach.constant (g : σ → α) (hr : Reach step ok s t)
    (hstep : ∀ {t i u}, ok t i → step t i u → g u = g t) : g t = g s := by
  induction hr with
  | refl => rfl
  | next _ hok hi ih => exact (hstep hok hi).trans ih

theorem Reach.trans {u : σ} (hst : Reach step ok s t) (htu : Reach step ok t u) : Reach step ok s u := by
  induction htu with
  | refl => exact hst
  | next _ hok hi ih => exact ih.next hok hi

theorem Reach.mono (hr : Reach step ok s t) (h : ∀ t i, ok t i → ok' t i) : Reach step ok' s t := by
  induction hr with
  | refl => exact .refl
  | next _ hok hi ih => exact ih.next (h _ _ hok) hi

def Along (run : σ → ι → σ) (ok : σ → ι → Prop) : σ → List ι → Prop
  | _, [] => True
  | t, i :: l => ok t i ∧ Along run ok (run t i) l

instance Along.decidable (run : σ → ι → σ) (ok : σ → ι → Prop) [∀ t i, Decidable (ok t i)] :
    ∀ (t : σ) (l : List ι), Decidable (Along run ok t l)
  | _, [] => .isTrue trivial
  | t, i :: l => @instDecidableAnd _ _ _ (Along.decidable run ok (run t i) l)

theorem Reach.foldl {run : σ → ι → σ} (hrun : ∀ t i, step t i (run t i)) (l : List ι) :
    ∀ {t : σ}, Reach step ok s t → Along run ok t l → Reach step ok s (l.foldl run t) := by
  induction l with
  | nil => exact fun hr _ => hr
  | cons i l ih => exact fun hr hl => ih (hr.next hl.1 (hrun _ i)) hl.2

theorem Reach.replay {ε κ : Type*} (run : ε → σ → κ → σ) {step : σ → ε × κ → σ → Prop} {ok : σ → ε × κ → Prop} (e : ε)
    (l : List κ) (h : Along (run e) (fun t i => ok t (e, i) ∧ step t (e, i) (run e t i)) s l) :
    Reach step ok s (l.foldl (run e) s) := by
  induction l generalizing s with
  | nil => exact .refl
  | cons i l ih => exact (Reach.refl.next h.1.1 h.1.2).trans (ih h.2)

/-- Every run of steps under the condition comes to a state with the property, and none gets stuck before. -/
inductive Inevitable (step : σ → ι → σ → Prop) (ok : σ → ι → Prop) (P : σ → Prop) : σ → Prop
  | here {s : σ} (h : P s) : Inevitable step ok P s
  | next {s : σ} (going : ∃ i t, ok s i ∧ step s i t) (h : ∀ i t, ok s i → step s i t → Inevitable step ok P t) :
      Inevitable step ok P s

theorem inevitable_of_measure {P : σ → Prop} (Inv : σ → Prop) {ρ : Type*} [WellFoundedRelation ρ] (m : σ → ρ)
    (hgoing : ∀ {s}, Inv s → ¬ P s → ∃ i t, ok s i ∧ step s i t)
    (hstep : ∀ {s i t}, Inv s → ok s i → step s i t → Inv t ∧ WellFoundedRelation.rel (m t) (m s)) :
    ∀ s, Inv s → Inevitable step ok P s := by
  intro s
  induction s using (invImage m inferInstance).wf.induction with
  | h s ih =>
    intro hs
    by_cases hP : P s
    · exact .here hP
    · refine .next (hgoing hs hP) fun i t hok hi => ?_
      obtain ⟨ht, hless⟩ := hstep hs hok hi
      exact ih t hless ht

/-! ### Systems of several parts -/

theorem getElem?_set_cases {c c' : Nat} {x y : α} (h : (l.set c x)[c']? = some y) :
    c' = c ∧ y = x ∨ c' ≠ c ∧ l[c']? = some y := by
  rw [List.getElem?_set] at h
  by_cases hc : c = c'
  · rw [if_pos hc] at h
    split at h
    · exact .inl ⟨hc.symm, (Option.some.inj h).symm⟩
    · cases h
  · rw [if_neg hc] at h
    exact .inr ⟨Ne.symm hc, h⟩

theorem getElem?_concat_cases {c : Nat} {x y : α} (h : (l ++ [x])[c]? = some y) :
    l[c]? = some y ∨ c = l.length ∧ y = x := by
  rcases Nat.lt_trichotomy c l.length with hlt | heq | hgt
  · rw [List.getElem?_append_left hlt] at h
    exact .inl h
  · subst heq
    rw [List.getElem?_concat_length] at h
    exact .inr ⟨rfl, (Option.some.inj h).symm⟩
  · have hnone : (l ++ [x])[c]? = none := List.getElem?_eq_none (by rw [List.length_append]; exact hgt)
    rw [hnone] at h
    cases h

theorem sum_map_set {M : Type*} [AddCommMonoid M] (g : α → M) (l : List α) : ∀ {c : Nat} {a : α} (a' : α),
    l[c]? = some a → ((l.set c a').map g).sum + g a = (l.map g).sum + g a' := by
  induction l with
  | nil =>
    intro c a a' h
    cases h
  | cons x l ih =>
    intro c a a' h
    cases c with
    | zero =>
      rw [List.getElem?_cons_zero] at h
      obtain rfl := Option.some.inj h
      rw [List.set_cons_zero, List.map_cons, List.map_cons, List.sum_cons, List.sum_cons, add_right_comm,
        add_comm (g a'),
        add_right_comm]
    | succ c =>
      rw [List.getElem?_cons_succ] at h
      rw [List.set_cons_succ, List.map_cons, List.map_cons, List.sum_cons, List.sum_cons, add_assoc, ih a' h, add_assoc]

end Runs
