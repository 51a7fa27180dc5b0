import Mathlib.Data.List.Infix
import Mathlib.Tactic.Common

/-! Outcomes of calls in a language with returned errors and run-time panics,
and readers that thread an offset through a buffer. A slice or index
expression is an operation that may panic, so "never out of range" is a
statement about outcomes and not a side condition of the model. -/

namespace Calls
universe u v

inductive Outcome (ε : Type u) (α : Type v) where
  | ok (a : α)
  | err (e : ε)
  | panic
  deriving DecidableEq, Repr

namespace Outcome
variable {ε ε' : Type u} {α β : Type v}

def bind (x : Outcome ε α) (f : α → Outcome ε β) : Outcome ε β :=
  match x with
  | ok a => f a
  | err e => err e
  | panic => panic

instance : Monad (Outcome ε) where
  pure := ok
  bind := bind

def mapErr (x : Outcome ε α) (g : ε → ε') : Outcome ε' α :=
  match x with
  | ok a => ok a
  | err e => err (g e)
  | panic => panic

@[simp] theorem pure_eq (a : α) : (pure a : Outcome ε α) = ok a := rfl
@[simp] theorem ok_bind (a : α) (f : α → Outcome ε β) : (ok a >>= f) = f a := rfl
@[simp] theorem err_bind (e : ε) (f : α → Outcome ε β) : (err e >>= f) = err e := rfl
@[simp] theorem panic_bind (f : α → Outcome ε β) : ((panic : Outcome ε α) >>= f) = panic := rfl
@[simp] theorem mapErr_ok (a : α) (g : ε → ε') : mapErr (ok a) g = ok a := rfl
@[simp] theorem mapErr_err (e : ε) (g : ε → ε') : mapErr (err e : Outcome ε α) g = err (g e) := rfl
@[simp] theorem mapErr_panic (g : ε → ε') : mapErr (panic : Outcome ε α) g = panic := rfl

variable {f : α → Outcome ε β} {x : Outcome ε α} {g : ε → ε'}

theorem bind_of_ok {a : α} (h : x = ok a) : (x >>= f) = f a := by
  rw [h, ok_bind]

theorem bind_of_err {e : ε} (h : x = err e) : (x >>= f) = err e := by
  rw [h, err_bind]

theorem bind_eq_ok_iff {b : β} : (x >>= f) = ok b ↔ ∃ a, x = ok a ∧ f a = ok b := by
  cases x <;> simp

theorem bind_eq_panic_iff : (x >>= f) = panic ↔ x = panic ∨ ∃ a, x = ok a ∧ f a = panic := by
  cases x <;> simp

@[simp] theorem mapErr_eq_ok_iff {a : α} : mapErr x g = ok a ↔ x = ok a := by
  cases x <;> simp

@[simp] theorem mapErr_eq_panic_iff : mapErr x g = panic ↔ x = panic := by
  cases x <;> simp

theorem bind_ne_panic (hx : x ≠ panic)
    (hf : ∀ a, x = ok a → f a ≠ panic) : (x >>= f) ≠ panic := by
  intro h
  rcases bind_eq_panic_iff.mp h with h | ⟨a, ha, hfa⟩
  · exact hx h
  · exact hf a ha hfa

theorem mapErr_ne_panic (hx : x ≠ panic) :
    mapErr x g ≠ panic := fun h => hx (mapErr_eq_panic_iff.mp h)

end Outcome

section Slices
variable {ε : Type u} {α : Type v}

/-- The index expression `xs[i]`. -/
def index (xs : List α) (i : Nat) : Outcome ε α :=
  match xs[i]? with
  | some x => .ok x
  | none => .panic

/-- The slice expression `xs[lo:hi]`, held to the length of `xs`. -/
def slice (xs : List α) (lo hi : Nat) : Outcome ε (List α) :=
  if lo ≤ hi ∧ hi ≤ xs.length then .ok ((xs.drop lo).take (hi - lo)) else .panic

def sliceFrom (xs : List α) (lo : Nat) : Outcome ε (List α) := slice xs lo xs.length

variable {xs : List α}

theorem index_eq_ok {i : Nat} (h : i < xs.length) : (index xs i : Outcome ε α) = .ok xs[i] := by
  simp [index, h]

theorem index_eq_panic {i : Nat} (h : xs.length ≤ i) : (index xs i : Outcome ε α) = .panic := by
  simp [index, h]

theorem slice_eq_ok {lo hi : Nat} (h : lo ≤ hi) (h' : hi ≤ xs.length) :
    (slice xs lo hi : Outcome ε (List α)) = .ok ((xs.drop lo).take (hi - lo)) :=
  if_pos ⟨h, h'⟩

theorem sliceFrom_eq_ok {lo : Nat} (h : lo ≤ xs.length) :
    (sliceFrom xs lo : Outcome ε (List α)) = .ok (xs.drop lo) := by
  rw [sliceFrom, slice_eq_ok h (Nat.le_refl _), List.take_of_length_le (by simp)]

end Slices

section Readers
variable {ε : Type u} {α : Type v} {β γ : Type v}

abbrev Reader (ε : Type u) (α β : Type v) := List α → Nat → Outcome ε (β × Nat)

/-- A reader that, started inside its buffer, never leaves it, and that consumes at least one
element when it succeeds. -/
structure Reader.Safe (r : Reader ε α β) : Prop where
  ne_panic : ∀ {buf off}, off ≤ buf.length → r buf off ≠ .panic
  lt_next : ∀ {buf off b next}, r buf off = .ok (b, next) → off < next
  next_le : ∀ {buf off b next}, r buf off = .ok (b, next) → next ≤ buf.length

def Reader.map (r : Reader ε α β) (f : β → γ) : Reader ε α γ := fun buf off =>
  r buf off >>= fun x => .ok (f x.1, x.2)

def Reader.andThen (r : Reader ε α β) (f : β → Reader ε α γ) : Reader ε α γ := fun buf off =>
  r buf off >>= fun x => f x.1 buf x.2

def Reader.fail (e : ε) : Reader ε α β := fun _ _ => .err e

variable {buf field : List α} {off : Nat} {r : Reader ε α β} {f : β → Reader ε α γ} {F : β → List α → Prop} {v : β}

theorem Reader.map_eq_ok_iff {f : β → γ} {next : Nat} {c : γ} :
    r.map f buf off = .ok (c, next) ↔ ∃ b, r buf off = .ok (b, next) ∧ f b = c := by
  simp only [Reader.map, Outcome.bind_eq_ok_iff, Outcome.ok.injEq, Prod.mk.injEq, Prod.exists]
  constructor
  · rintro ⟨b, n, h, rfl, rfl⟩
    exact ⟨b, h, rfl⟩
  · rintro ⟨b, h, rfl⟩
    exact ⟨b, next, h, rfl, rfl⟩

theorem Reader.andThen_eq_ok_iff
    {next : Nat} {c : γ} : r.andThen f buf off = .ok (c, next) ↔
      ∃ b mid, r buf off = .ok (b, mid) ∧ f b buf mid = .ok (c, next) := by
  simp only [Reader.andThen, Outcome.bind_eq_ok_iff, Prod.exists]

theorem Reader.Safe.map (h : r.Safe) (f : β → γ) : (r.map f).Safe where
  ne_panic hle := Outcome.bind_ne_panic (h.ne_panic hle) (by simp)
  lt_next hr := by
    obtain ⟨b, hb, -⟩ := Reader.map_eq_ok_iff.mp hr
    exact h.lt_next hb
  next_le hr := by
    obtain ⟨b, hb, -⟩ := Reader.map_eq_ok_iff.mp hr
    exact h.next_le hb

theorem Reader.Safe.andThen (h : r.Safe)
    (hf : ∀ b, (f b).Safe) : (r.andThen f).Safe where
  ne_panic hle := Outcome.bind_ne_panic (h.ne_panic hle) fun x hx => (hf x.1).ne_panic (h.next_le hx)
  lt_next hr := by
    obtain ⟨b, mid, hb, hc⟩ := Reader.andThen_eq_ok_iff.mp hr
    exact Nat.lt_trans (h.lt_next hb) ((hf b).lt_next hc)
  next_le hr := by
    obtain ⟨b, mid, -, hc⟩ := Reader.andThen_eq_ok_iff.mp hr
    exact (hf b).next_le hc

theorem Reader.safe_fail (e : ε) : (Reader.fail e : Reader ε α β).Safe where
  ne_panic _ := by simp [Reader.fail]
  lt_next hr := by simp [Reader.fail] at hr
  next_le hr := by simp [Reader.fail] at hr

/-- The reader accepts exactly the fields of a format: it succeeds where a field of the format
starts, with the value of the field and the offset after it. -/
structure Reader.Accepts (r : Reader ε α β) (F : β → List α → Prop) : Prop where
  eq_ok_iff : ∀ {buf off v next}, r buf off = .ok (v, next) ↔
    ∃ field, F v field ∧ field <+: buf.drop off ∧ next = off + field.length

theorem Reader.Accepts.map (h : r.Accepts F) (f : β → γ) :
    (r.map f).Accepts fun c field => ∃ b, F b field ∧ f b = c := by
  refine ⟨fun {buf off c next} => ?_⟩
  rw [Reader.map_eq_ok_iff]
  constructor
  · rintro ⟨b, hb, rfl⟩
    obtain ⟨field, hF, hpre, rfl⟩ := h.eq_ok_iff.mp hb
    exact ⟨field, ⟨b, hF, rfl⟩, hpre, rfl⟩
  · rintro ⟨field, ⟨b, hF, rfl⟩, hpre, rfl⟩
    exact ⟨b, h.eq_ok_iff.mpr ⟨field, hF, hpre, rfl⟩, rfl⟩

theorem append_prefix_drop {f g : List α} :
    f ++ g <+: buf.drop off ↔ f <+: buf.drop off ∧ g <+: buf.drop (off + f.length) := by
  constructor
  · intro h
    refine ⟨(List.prefix_append f g).trans h, ?_⟩
    obtain ⟨rest, hrest⟩ := h
    exact ⟨rest, by rw [← List.drop_drop, ← hrest, List.append_assoc, List.drop_left]⟩
  · rintro ⟨⟨rest, hrest⟩, hg⟩
    rw [← List.drop_drop, ← hrest, List.drop_left] at hg
    rw [← hrest]
    exact (List.prefix_append_right_inj f).mpr hg

theorem Reader.Accepts.andThen
    {G : β → γ → List α → Prop} (h : r.Accepts F) (hf : ∀ b, (f b).Accepts (G b)) :
    (r.andThen f).Accepts fun c field =>
      ∃ b first second, F b first ∧ G b c second ∧ field = first ++ second := by
  refine ⟨fun {buf off c next} => ?_⟩
  rw [Reader.andThen_eq_ok_iff]
  constructor
  · rintro ⟨b, mid, hb, hc⟩
    obtain ⟨first, hF, hpre, rfl⟩ := h.eq_ok_iff.mp hb
    obtain ⟨second, hG, hpre', rfl⟩ := (hf b).eq_ok_iff.mp hc
    refine ⟨first ++ second, ⟨b, first, second, hF, hG, rfl⟩, ?_, ?_⟩
    · exact append_prefix_drop.mpr ⟨hpre, hpre'⟩
    · rw [List.length_append, Nat.add_assoc]
  · rintro ⟨_, ⟨b, first, second, hF, hG, rfl⟩, hpre, rfl⟩
    obtain ⟨hpre, hpre'⟩ := append_prefix_drop.mp hpre
    refine ⟨b, off + first.length, h.eq_ok_iff.mpr ⟨first, hF, hpre, rfl⟩, (hf b).eq_ok_iff.mpr ⟨second, hG, hpre', ?_⟩⟩
    rw [List.length_append, Nat.add_assoc]

structure Reader.Reads (r : Reader ε α β) (v : β) (field : List α) : Prop where
  eq_ok : ∀ {buf off}, field <+: buf.drop off → r buf off = .ok (v, off + field.length)

theorem Reader.Accepts.reads (h : r.Accepts F)
    (hF : F v field) : r.Reads v field :=
  ⟨fun hpre => h.eq_ok_iff.mpr ⟨field, hF, hpre, rfl⟩⟩

theorem Reader.Reads.map (h : r.Reads v field) {f : β → γ} {w : γ}
    (hw : f v = w) : (r.map f).Reads w field :=
  ⟨fun hpre => Reader.map_eq_ok_iff.mpr ⟨v, h.eq_ok hpre, hw⟩⟩

theorem Reader.Reads.andThen {w : γ} {first second : List α}
    (h : r.Reads v first) (hf : (f v).Reads w second) : (r.andThen f).Reads w (first ++ second) := by
  refine ⟨fun {buf off} hpre => ?_⟩
  obtain ⟨hfirst, hsecond⟩ := append_prefix_drop.mp hpre
  refine Reader.andThen_eq_ok_iff.mpr ⟨v, off + first.length, h.eq_ok hfirst, ?_⟩
  rw [hf.eq_ok hsecond, List.length_append, Nat.add_assoc]

theorem Reader.Accepts.length_unique (h : r.Accepts F) {v' : β} {field' : List α} (hF : F v field) (hF' : F v' field')
    (hpre : field <+: buf) (hpre' : field' <+: buf) : field.length = field'.length := by
  have hread : r buf 0 = .ok (v, 0 + field.length) := h.eq_ok_iff.mpr ⟨field, hF, hpre, rfl⟩
  have hread' : r buf 0 = .ok (v', 0 + field'.length) := h.eq_ok_iff.mpr ⟨field', hF', hpre', rfl⟩
  rw [hread] at hread'
  simpa using (Prod.mk.inj (Outcome.ok.inj hread')).2

theorem Reader.accepts_fail (e : ε) : (Reader.fail e : Reader ε α β).Accepts fun _ _ => False := by
  refine ⟨fun {buf off v next} => ?_⟩
  simp [Reader.fail]

end Readers
end Calls
