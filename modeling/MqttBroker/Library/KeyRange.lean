import Mathlib.Data.List.Basic
import Mathlib.Order.Cover

/-! Ranges of lists in lexicographic order. The extensions of a list are the lists from itself on, up to a bound that is
found by raising its last element, or an element before it if the last one is the greatest. -/

namespace KeyRange
variable {α : Type*} [LT α]

/-- The key is not below `lower`, and below the upper bound if there is one. -/
def InRange (lower : List α) (upper : Option (List α)) (k : List α) : Prop := lower ≤ k ∧ ∀ u ∈ upper, k < u

instance [DecidableEq α] [DecidableLT α] (lower : List α) (upper : Option (List α)) (k : List α) :
    Decidable (InRange lower upper k) := inferInstanceAs (Decidable (_ ∧ _))

def Delimits (q : List α) (upper : Option (List α)) : Prop := ∀ k, InRange q upper k ↔ q <+: k

theorem delimits_nil : Delimits ([] : List α) none :=
  fun k => iff_of_true ⟨List.nil_le k, nofun⟩ List.nil_prefix

variable [Std.Asymm fun a b : α => a < b] [Std.Trichotomous fun a b : α => a < b] {q r k : List α} {c d : α}

theorem le_of_append_le (h : q ++ r ≤ k) : q ≤ k := by
  induction q generalizing k with
  | nil => exact List.nil_le k
  | cons a q ih =>
    cases k with
    | nil => exact absurd h (by simp)
    | cons x k =>
      rw [List.cons_append, List.cons_le_cons_iff] at h
      exact List.cons_le_cons_iff.mpr (h.imp_right fun hrest => ⟨hrest.1, ih hrest.2⟩)

theorem append_left_le_iff : q ++ r ≤ q ++ k ↔ r ≤ k :=
  ⟨fun h hlt => h (List.append_left_lt hlt), List.append_left_le⟩

theorem append_left_lt_iff : q ++ r < q ++ k ↔ r < k :=
  ⟨fun h => not_not.mp fun hle => append_left_le_iff.mpr hle h, List.append_left_lt⟩

theorem prefix_of_between {s : List α} (hle : q ++ r ≤ k) (hlt : k < q ++ s) : q <+: k := by
  induction q generalizing k with
  | nil => exact List.nil_prefix
  | cons a q ih =>
    cases k with
    | nil => exact absurd hle (by simp)
    | cons x k =>
      rw [List.cons_append, List.cons_le_cons_iff] at hle
      rw [List.cons_append, List.cons_lt_cons_iff] at hlt
      rcases hle with hax | ⟨rfl, hle⟩
      · rcases hlt with hxa | ⟨rfl, -⟩
        · exact absurd hax (Std.Asymm.asymm _ _ hxa)
        · exact absurd hax (Std.Irrefl.irrefl _)
      · have hrest := hlt.resolve_left (Std.Irrefl.irrefl _)
        exact List.cons_prefix_cons.mpr ⟨rfl, ih hle hrest.2⟩

theorem delimits_of_covBy (q : List α) (h : c ⋖ d) : Delimits (q ++ [c]) (some (q ++ [d])) := by
  intro k
  constructor
  · rintro ⟨hle, hbelow⟩
    have hlt : k < q ++ [d] := hbelow _ rfl
    obtain ⟨r, rfl⟩ := prefix_of_between hle hlt
    rw [append_left_le_iff] at hle
    rw [append_left_lt_iff] at hlt
    cases r with
    | nil => exact absurd hle (by simp)
    | cons x r =>
      have hxd : x < d := (List.cons_lt_cons_iff.mp hlt).resolve_right fun hlast => List.not_lt_nil _ hlast.2
      obtain ⟨rfl, -⟩ := (List.cons_le_cons_iff.mp hle).resolve_left fun hcx => h.2 hcx hxd
      exact ⟨r, List.append_assoc _ _ _⟩
  · intro hpre
    refine ⟨hpre.le, ?_⟩
    rintro u ⟨⟩
    obtain ⟨r, rfl⟩ := hpre
    rw [List.append_assoc, append_left_lt_iff]
    exact List.cons_lt_cons_iff.mpr (.inl h.1)

theorem Delimits.concat_greatest {upper : Option (List α)} (h : Delimits q upper) (hc : ∀ x, ¬ c < x) :
    Delimits (q ++ [c]) upper := by
  intro k
  constructor
  · rintro ⟨hle, hbelow⟩
    obtain ⟨r, rfl⟩ := (h k).mp ⟨le_of_append_le hle, hbelow⟩
    rw [append_left_le_iff] at hle
    cases r with
    | nil => exact absurd hle (by simp)
    | cons x r =>
      obtain ⟨rfl, -⟩ := (List.cons_le_cons_iff.mp hle).resolve_left (hc x)
      exact ⟨r, List.append_assoc _ _ _⟩
  · intro hpre
    exact ⟨hpre.le, ((h k).mpr ((List.prefix_append q [c]).trans hpre)).2⟩

end KeyRange
