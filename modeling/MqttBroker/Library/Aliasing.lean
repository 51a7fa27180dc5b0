import Mathlib.Logic.Function.Basic
import Mathlib.Tactic.Common

/-! Short names for keys. A sender gives names to keys. A frame spells its key
out, names it, or does both, and a frame that does both teaches the receiver the
name. The frames of a queue arrive in order; others may overtake it. -/

namespace Aliasing
universe u v
variable {K : Type u} {N : Type v}

structure Frame (K : Type u) (N : Type v) where
  key : K
  name : Option N
  spelled : Bool

def Agrees (names : K → Option N) (f : Frame K N) : Prop := ∀ ⦃a⦄, f.name = some a → names f.key = some a

def Sound (names : K → Option N) (table : N → Option K) : Prop := ∀ ⦃a k⦄, table a = some k → names k = some a

def Unique (names : K → Option N) : Prop := ∀ ⦃k k' a⦄, names k = some a → names k' = some a → k = k'

def Extends (table table' : N → Option K) : Prop := ∀ ⦃a k⦄, table a = some k → table' a = some k

def Readable (table : N → Option K) (f : Frame K N) : Prop :=
  f.spelled = true ∨ ∃ a, f.name = some a ∧ table a = some f.key

theorem Readable.extends {table table' : N → Option K} {f : Frame K N} (h : Readable table f)
    (hext : Extends table table') : Readable table' f := by
  rcases h with hspelled | ⟨a, ha, hk⟩
  · exact .inl hspelled
  · exact .inr ⟨a, ha, hext hk⟩

variable [DecidableEq N]

def learn (table : N → Option K) (f : Frame K N) : N → Option K :=
  match f.spelled, f.name with
  | true, some a => Function.update table a (some f.key)
  | _, _ => table

def learnAll (table : N → Option K) (fs : List (Frame K N)) : N → Option K := fs.foldl learn table

def Reads (table : N → Option K) : List (Frame K N) → Prop
  | [] => True
  | f :: fs => Readable table f ∧ Reads (learn table f) fs

variable {names : K → Option N} {table table' : N → Option K} {f : Frame K N} {fs gs : List (Frame K N)}

theorem learn_cases (table : N → Option K) (f : Frame K N) :
    learn table f = table ∨
      ∃ a, f.spelled = true ∧ f.name = some a ∧ learn table f = Function.update table a (some f.key) := by
  obtain ⟨key, name, spelled⟩ := f
  cases spelled with
  | false => exact .inl rfl
  | true =>
    cases name with
    | none => exact .inl rfl
    | some a => exact .inr ⟨a, rfl, rfl, rfl⟩

theorem learn_of_teaches {a : N} (hspelled : f.spelled = true) (hname : f.name = some a) :
    learn table f a = some f.key := by
  unfold learn
  rw [hspelled, hname]
  exact Function.update_self _ _ _

theorem learnAll_append : learnAll table (fs ++ gs) = learnAll (learnAll table fs) gs := List.foldl_append

theorem reads_append : Reads table (fs ++ gs) ↔ Reads table fs ∧ Reads (learnAll table fs) gs := by
  induction fs generalizing table with
  | nil =>
    show Reads table gs ↔ True ∧ Reads table gs
    rw [true_and]
  | cons f fs ih =>
    show Readable table f ∧ Reads (learn table f) (fs ++ gs) ↔ _
    rw [ih, ← and_assoc]
    rfl

/-! ### What learning preserves -/

theorem Sound.learn (h : Sound names table) (hf : Agrees names f) : Sound names (learn table f) := by
  intro a k hk
  obtain hsame | ⟨b, -, hname, hlearn⟩ := learn_cases table f
  · rw [hsame] at hk
    exact h hk
  · rw [hlearn, Function.update_apply] at hk
    split at hk
    · rename_i hab
      cases hk
      rw [hab]
      exact hf hname
    · exact h hk

theorem Sound.learnAll (h : Sound names table) (hfs : ∀ f ∈ fs, Agrees names f) : Sound names (learnAll table fs) := by
  induction fs generalizing table with
  | nil => exact h
  | cons f fs ih =>
    have hf : Agrees names f := hfs f List.mem_cons_self
    exact ih (h.learn hf) fun g hg => hfs g (List.mem_cons_of_mem _ hg)

theorem extends_learn (hu : Unique names) (h : Sound names table) (hf : Agrees names f) :
    Extends table (learn table f) := by
  intro a k hk
  obtain hsame | ⟨b, -, hname, hlearn⟩ := learn_cases table f
  · rw [hsame]
    exact hk
  · rw [hlearn, Function.update_apply]
    split
    · rename_i hab
      rw [hab] at hk
      rw [hu (h hk) (hf hname)]
    · exact hk

theorem Extends.learn (h : Extends table table') (f : Frame K N) : Extends (learn table f) (learn table' f) := by
  intro a k hk
  obtain ⟨key, name, spelled⟩ := f
  cases spelled with
  | false => exact h hk
  | true =>
    cases name with
    | none => exact h hk
    | some b =>
      have hk : Function.update table b (some key) a = some k := hk
      show Function.update table' b (some key) a = some k
      rw [Function.update_apply] at hk ⊢
      by_cases hab : a = b
      · rw [if_pos hab] at hk ⊢
        exact hk
      · rw [if_neg hab] at hk ⊢
        exact h hk

theorem Extends.learnAll (h : Extends table table') (fs : List (Frame K N)) :
    Extends (learnAll table fs) (learnAll table' fs) := by
  induction fs generalizing table table' with
  | nil => exact h
  | cons f fs ih => exact ih (h.learn f)

theorem Reads.extends (h : Reads table fs) (hext : Extends table table') : Reads table' fs := by
  induction fs generalizing table table' with
  | nil => trivial
  | cons f fs ih => exact ⟨h.1.extends hext, ih h.2 (hext.learn f)⟩

/-! ### The sender and its queue -/

/-- The receiver can read the frames queued, and knows every name after them but the names of keys
that are owed: those have a name that no frame was sent for yet. -/
structure Sync (names : K → Option N) (owed : K → Prop) (table : N → Option K) (queue : List (Frame K N)) : Prop where
  sound : Sound names table
  agrees : ∀ f ∈ queue, Agrees names f
  taught : ∀ ⦃k a⦄, names k = some a → ¬ owed k → learnAll table queue a = some k
  reads : Reads table queue

variable {owed : K → Prop} {queue : List (Frame K N)}

theorem Sync.arrive (h : Sync names owed table (f :: queue)) :
    Readable table f ∧ Sync names owed (learn table f) queue := by
  have hf : Agrees names f := h.agrees f List.mem_cons_self
  refine ⟨h.reads.1, h.sound.learn hf, ?_, h.taught, h.reads.2⟩
  intro g hg
  exact h.agrees g (List.mem_cons_of_mem _ hg)

theorem Sync.lose (h : Sync names owed table (f :: queue)) (hf : learn table f = table) :
    Sync names owed table queue := by
  have harrive := h.arrive.2
  rwa [hf] at harrive

theorem Sync.overtake (h : Sync names owed table queue) (hu : Unique names) (hf : Agrees names f) :
    Sync names owed (learn table f) queue := by
  have hext : Extends table (learn table f) := extends_learn hu h.sound hf
  refine ⟨h.sound.learn hf, h.agrees, ?_, h.reads.extends hext⟩
  intro k a hk hpaid
  exact hext.learnAll queue (h.taught hk hpaid)

theorem Sync.send (h : Sync names owed table queue) (hu : Unique names) (hf : Agrees names f)
    (hreads : f.spelled = true ∨ f.name ≠ none ∧ ¬ owed f.key)
    (hpays : ∀ ⦃k⦄, owed k → f.spelled = true ∧ f.key = k ∧ f.name ≠ none) :
    Sync names (fun _ => False) table (queue ++ [f]) := by
  have hsound : Sound names (learnAll table queue) := h.sound.learnAll h.agrees
  refine ⟨h.sound, ?_, ?_, ?_⟩
  · intro g hg
    rcases List.mem_append.mp hg with hg | hg
    · exact h.agrees g hg
    · rw [List.mem_singleton.mp hg]
      exact hf
  · intro k a hk _
    rw [learnAll_append]
    show learn (learnAll table queue) f a = some k
    by_cases howed : owed k
    · obtain ⟨hspelled, rfl, hname⟩ := hpays howed
      obtain ⟨b, hb⟩ := Option.ne_none_iff_exists'.mp hname
      have hab : a = b := Option.some.inj (hk.symm.trans (hf hb))
      rw [hab]
      exact learn_of_teaches hspelled hb
    · exact extends_learn hu hsound hf (h.taught hk howed)
  · refine reads_append.mpr ⟨h.reads, ?_, trivial⟩
    rcases hreads with hspelled | ⟨hname, hpaid⟩
    · exact .inl hspelled
    · obtain ⟨a, ha⟩ := Option.ne_none_iff_exists'.mp hname
      exact .inr ⟨a, ha, h.taught (hf ha) hpaid⟩

theorem Sync.grow {names' : K → Option N} (h : Sync names owed table queue)
    (hgrow : ∀ ⦃k a⦄, names k = some a → names' k = some a)
    (howed : ∀ ⦃k a⦄, names' k = some a → ¬ owed k → names k = some a) : Sync names' owed table queue := by
  refine ⟨fun _ _ hk => hgrow (h.sound hk), ?_, ?_, h.reads⟩
  · intro f hf a ha
    exact hgrow (h.agrees f hf ha)
  · intro k a hk hpaid
    exact h.taught (howed hk hpaid) hpaid

theorem Sync.owe {owed' : K → Prop} (h : Sync names owed table queue) (hmono : ∀ ⦃k⦄, owed k → owed' k) :
    Sync names owed' table queue :=
  ⟨h.sound, h.agrees, fun _ _ hk hpaid => h.taught hk fun howed => hpaid (hmono howed), h.reads⟩

end Aliasing
