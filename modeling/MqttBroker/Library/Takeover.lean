import Mathlib.Logic.Function.Basic
import Mathlib.Tactic.Common

/-! Connections that compete for one place in a registry. A newcomer looks up who
has the place, retires that one, takes over what it holds and registers itself;
a connection that ends gives up its holdings and frees the place. Each of these
is a section of several steps. As long as a section starts only when nobody is
inside one, whoever is registered and not retired has the place and its holdings. -/

namespace Takeover
universe u
variable {κ : Type u}

inductive Phase (κ : Type u) where
  | absent
  | arriving
  | got (existing : Option κ)
  | disconnected (existing : κ)
  | released (existing : κ)
  | retired (existing : κ)
  | ready (present : Bool)
  | added (present : Bool)
  | serving
  | ended
  | expiring
  | cleared
  | finished

namespace Phase

def InSection : Phase κ → Prop
  | got _ => True
  | disconnected _ => True
  | released _ => True
  | retired _ => True
  | ready _ => True
  | expiring => True
  | cleared => True
  | _ => False

def Registered : Phase κ → Prop
  | added _ => True
  | serving => True
  | ended => True
  | expiring => True
  | cleared => True
  | _ => False

def Holds (p : Phase κ) : Prop := p.Registered ∨ ∃ present, p = ready present

end Phase

/-- The connections, which of them are retired, which have all they should hold, and who has the place. -/
structure Registry (κ : Type u) where
  phase : κ → Phase κ
  taken : κ → Bool
  intact : κ → Prop
  current : Option κ

def Knows (r : Registry κ) (c : κ) : Phase κ → Prop
  | .got existing => r.current = existing
  | .disconnected e => r.current = some e
  | .released e => r.current = some e
  | .retired e => r.current = some e ∧ r.taken e = true
  | .ready _ => ∀ e, r.current = some e → r.taken e = true
  | .expiring => r.taken c = false
  | .cleared => r.taken c = false
  | _ => True

/-- One section at a time; who has the place has registered; who has registered and is not retired
has the place and its holdings. -/
structure Orderly (r : Registry κ) : Prop where
  exclusive : ∀ c d, (r.phase c).InSection → (r.phase d).InSection → c = d
  current : ∀ c, r.current = some c → (r.phase c).Registered ∨ r.phase c = .finished
  present : ∀ c, (r.phase c).Registered → r.taken c = false → r.current = some c
  intact : ∀ c, (r.phase c).Holds → r.taken c = false → r.intact c
  knows : ∀ c, Knows r c (r.phase c)

variable {r : Registry κ} {c : κ} {p : Phase κ}

theorem knows_of_not_inSection (h : ¬ p.InSection) : Knows r c p := by
  cases p <;> first | trivial | exact absurd trivial h

theorem Orderly.alone (h : Orderly r) (hc : (r.phase c).InSection) : ∀ d, d ≠ c → ¬ (r.phase d).InSection :=
  fun d hne hd => hne (h.exclusive d c hd hc)

theorem Orderly.others (h : Orderly r) : ∀ d, d ≠ c → (r.phase d).Registered → r.taken d = false →
    r.current = some d ∧ r.intact d :=
  fun d _ hd htaken => ⟨h.present d hd htaken, h.intact d (.inl hd) htaken⟩

theorem Orderly.only (h : Orderly r) (hplace : r.current = some c) :
    ∀ d, d ≠ c → (r.phase d).Registered → r.taken d = false → False := by
  intro d hdc hd htaken
  cases hplace.symm.trans (h.present d hd htaken)
  exact hdc rfl

variable {q : Phase κ} {current : Option κ} {intact : κ → Prop} {taken : κ → Bool}

theorem Orderly.elsewhere (h : Orderly r) (hc : r.phase c = q) (hregistered : ¬ q.Registered)
    (hfinished : q ≠ .finished) : ∀ d, r.current = some d → d = c ∧ (p.Registered ∨ p = .finished) ∨
      d ≠ c ∧ ((r.phase d).Registered ∨ r.phase d = .finished) := by
  intro d hd
  have hphase := h.current d hd
  refine .inr ⟨?_, hphase⟩
  rintro rfl
  rw [hc] at hphase
  exact hphase.elim hregistered hfinished

theorem Orderly.knows_at (h : Orderly r) (hc : r.phase c = q) : Knows r c q := by
  have hknows := h.knows c
  rwa [hc] at hknows

theorem Orderly.alone_at (h : Orderly r) (hc : r.phase c = q) (hq : q.InSection) :
    ∀ d, d ≠ c → ¬ (r.phase d).InSection := by
  refine h.alone ?_
  rw [hc]
  exact hq

theorem unheld (h : ¬ p.Holds) : taken c = false → (p.Registered → current = some c) ∧ (p.Holds → intact c) :=
  fun _ => ⟨fun hp => absurd (.inl hp) h, fun hp => absurd hp h⟩

variable [DecidableEq κ]

theorem Orderly.others_retired (h : Orderly r) (e : κ) : ∀ d, d ≠ c → (r.phase d).Registered →
    Function.update r.taken e true d = false → r.current = some d ∧ r.intact d := by
  intro d hdc hd htaken
  by_cases hde : d = e
  · rw [hde, Function.update_self] at htaken
    cases htaken
  · rw [Function.update_of_ne hde] at htaken
    exact h.others d hdc hd htaken

theorem Orderly.outside (h : Orderly r) (hafter : ¬ p.InSection)
    (hregistered : p.Registered → (r.phase c).Registered)
    (hdone : (r.phase c).Registered ∨ r.phase c = .finished → p.Registered ∨ p = .finished) :
    Orderly { r with phase := Function.update r.phase c p } := by
  have hsection : ∀ d, (Function.update r.phase c p d).InSection → (r.phase d).InSection :=
    (Function.forall_update_iff r.phase fun d q => q.InSection → (r.phase d).InSection).mpr
      ⟨fun hd => absurd hd hafter, fun _ _ hd => hd⟩
  refine ⟨fun x y hx hy => h.exclusive x y (hsection x hx) (hsection y hy), ?_, ?_, ?_, ?_⟩
  · exact (Function.forall_update_iff r.phase fun d q => r.current = some d → q.Registered ∨ q = .finished).mpr
      ⟨fun hd => hdone (h.current c hd), fun d _ => h.current d⟩
  · exact (Function.forall_update_iff r.phase fun d q => q.Registered → r.taken d = false → r.current = some d).mpr
      ⟨fun hd => h.present c (hregistered hd), fun d _ => h.present d⟩
  · refine (Function.forall_update_iff r.phase fun d q => q.Holds → r.taken d = false → r.intact d).mpr
      ⟨?_, fun d _ => h.intact d⟩
    rintro (hd | ⟨present, rfl⟩) htaken
    · exact h.intact c (.inl (hregistered hd)) htaken
    · exact absurd trivial hafter
  · exact (Function.forall_update_iff r.phase (Knows _)).mpr ⟨knows_of_not_inSection hafter, fun d _ => h.knows d⟩

theorem orderly_inside
    (halone : ∀ d, d ≠ c → ¬ (r.phase d).InSection)
    (hcurrent : ∀ d, current = some d → d = c ∧ (p.Registered ∨ p = .finished) ∨
      d ≠ c ∧ ((r.phase d).Registered ∨ r.phase d = .finished))
    (hpresent : ∀ d, d ≠ c → (r.phase d).Registered → taken d = false → current = some d ∧ intact d)
    (hself : taken c = false → (p.Registered → current = some c) ∧ (p.Holds → intact c))
    (hknows : Knows
      { phase := Function.update r.phase c p, taken := taken, intact := intact, current := current } c p) :
    Orderly { phase := Function.update r.phase c p, taken := taken, intact := intact, current := current } := by
  have honly : ∀ d, (Function.update r.phase c p d).InSection → d = c :=
    (Function.forall_update_iff r.phase fun d q => q.InSection → d = c).mpr
      ⟨fun _ => rfl, fun d hdc hd => absurd hd (halone d hdc)⟩
  refine ⟨fun x y hx hy => (honly x hx).trans (honly y hy).symm, ?_, ?_, ?_, ?_⟩
  · refine (Function.forall_update_iff r.phase fun d q => current = some d → q.Registered ∨ q = .finished).mpr
      ⟨fun hd => ?_, fun d hdc hd => ?_⟩
    · exact (hcurrent c hd).elim And.right fun hne => absurd rfl hne.1
    · exact (hcurrent d hd).elim (fun heq => absurd heq.1 hdc) And.right
  · exact (Function.forall_update_iff r.phase fun d q => q.Registered → taken d = false → current = some d).mpr
      ⟨fun hd htaken => (hself htaken).1 hd, fun d hdc hd htaken => (hpresent d hdc hd htaken).1⟩
  · refine (Function.forall_update_iff r.phase fun d q => q.Holds → taken d = false → intact d).mpr
      ⟨fun hd htaken => (hself htaken).2 hd, ?_⟩
    rintro d hdc (hd | ⟨present, hd⟩) htaken
    · exact (hpresent d hdc hd htaken).2
    · refine absurd ?_ (halone d hdc)
      rw [hd]
      trivial
  · exact (Function.forall_update_iff r.phase (Knows _)).mpr
      ⟨hknows, fun d hdc => knows_of_not_inSection (halone d hdc)⟩

/-! ### Steps -/

inductive Step (r : Registry κ) : Registry κ → Prop
  | arrive (c : κ) (h : r.phase c = .absent) : Step r { r with phase := Function.update r.phase c .arriving }
  | get (c : κ) (h : r.phase c = .arriving) (hnone : ∀ x, ¬ (r.phase x).InSection) :
      Step r { r with phase := Function.update r.phase c (.got r.current) }
  | fresh (c : κ) (h : r.phase c = .got none) (hc : r.intact c) :
      Step r { r with phase := Function.update r.phase c (.ready false) }
  | disconnect (c e : κ) (h : r.phase c = .got (some e)) :
      Step r { r with phase := Function.update r.phase c (.disconnected e) }
  | release (c e : κ) (h : r.phase c = .disconnected e) (intact : κ → Prop) (he : intact e) :
      Step r { r with phase := Function.update r.phase c (.released e), intact := intact }
  | retireReleased (c e : κ) (h : r.phase c = .released e) (hc : r.intact c) :
      Step r { r with
        phase := Function.update r.phase c (.ready false), taken := Function.update r.taken e true }
  | retire (c e : κ) (h : r.phase c = .disconnected e) :
      Step r { r with
        phase := Function.update r.phase c (.retired e), taken := Function.update r.taken e true }
  | transfer (c e : κ) (h : r.phase c = .retired e) (intact : κ → Prop) (hc : intact c)
      (hkeep : ∀ x, r.intact x → intact x) :
      Step r { r with phase := Function.update r.phase c (.ready true), intact := intact }
  | add (c : κ) (present : Bool) (h : r.phase c = .ready present) :
      Step r { r with phase := Function.update r.phase c (.added present), current := some c }
  | establish (c : κ) (present : Bool) (h : r.phase c = .added present) :
      Step r { r with phase := Function.update r.phase c .serving }
  | abort (c : κ) (present : Bool) (h : r.phase c = .added present) :
      Step r { r with phase := Function.update r.phase c .finished }
  | leave (c : κ) (h : r.phase c = .serving) : Step r { r with phase := Function.update r.phase c .ended }
  | stay (c : κ) (h : r.phase c = .ended) : Step r { r with phase := Function.update r.phase c .finished }
  | expire (c : κ) (h : r.phase c = .ended) (hc : r.taken c = false) (hnone : ∀ x, ¬ (r.phase x).InSection) :
      Step r { r with phase := Function.update r.phase c .expiring }
  | clear (c : κ) (h : r.phase c = .expiring) (intact : κ → Prop) (hc : intact c) :
      Step r { r with phase := Function.update r.phase c .cleared, intact := intact }
  | delete (c : κ) (h : r.phase c = .cleared) :
      Step r { r with phase := Function.update r.phase c .finished, current := none }
  | acquire (intact : κ → Prop) (hkeep : ∀ x, r.intact x → intact x) : Step r { r with intact := intact }

theorem Orderly.step {r' : Registry κ} (h : Orderly r) (hstep : Step r r') : Orderly r' := by
  cases hstep with
  | arrive c hc => exact h.outside id (fun hp => hp.elim) (by rw [hc]; rintro (hp | hp) <;> cases hp)
  | get c hc hnone =>
    exact orderly_inside (fun d _ => hnone d) (h.elsewhere hc id nofun) h.others
      (unheld fun hp => hp.elim id nofun) rfl
  | fresh c hc hintact =>
    have hnone : r.current = none := h.knows_at hc
    refine orderly_inside (h.alone_at hc trivial) (h.elsewhere hc id nofun) h.others
      (fun _ => ⟨fun hp => hp.elim, fun _ => hintact⟩) ?_
    intro e he
    exact absurd (hnone.symm.trans he) nofun
  | disconnect c e hc =>
    exact orderly_inside (h.alone_at hc trivial) (h.elsewhere hc id nofun) h.others
      (unheld fun hp => hp.elim id nofun) (h.knows_at hc)
  | release c e hc intact he =>
    have hcurrent : r.current = some e := h.knows_at hc
    refine orderly_inside (h.alone_at hc trivial) (h.elsewhere hc id nofun) ?_
      (unheld fun hp => hp.elim id nofun) hcurrent
    intro d _ hd htaken
    have hplace := h.present d hd htaken
    cases hcurrent.symm.trans hplace
    exact ⟨hplace, he⟩
  | retireReleased c e hc hintact =>
    have hcurrent : r.current = some e := h.knows_at hc
    refine orderly_inside (h.alone_at hc trivial) (h.elsewhere hc id nofun) (h.others_retired e)
      (fun _ => ⟨fun hp => hp.elim, fun _ => hintact⟩) ?_
    intro d hd
    cases hcurrent.symm.trans hd
    exact Function.update_self _ _ _
  | retire c e hc =>
    have hcurrent : r.current = some e := h.knows_at hc
    exact orderly_inside (h.alone_at hc trivial) (h.elsewhere hc id nofun) (h.others_retired e)
      (unheld fun hp => hp.elim id nofun) ⟨hcurrent, Function.update_self _ _ _⟩
  | transfer c e hc intact hintact hkeep =>
    obtain ⟨hcurrent, htaken⟩ : r.current = some e ∧ r.taken e = true := h.knows_at hc
    refine orderly_inside (h.alone_at hc trivial) (h.elsewhere hc id nofun) ?_
      (fun _ => ⟨fun hp => hp.elim, fun _ => hintact⟩) ?_
    · intro d hdc hd hnot
      obtain ⟨hplace, hd'⟩ := h.others d hdc hd hnot
      exact ⟨hplace, hkeep d hd'⟩
    · intro d hd
      cases hcurrent.symm.trans hd
      exact htaken
  | add c present hc =>
    have hretired : ∀ e, r.current = some e → r.taken e = true := h.knows_at hc
    have hintact : r.taken c = false → r.intact c := h.intact c (.inr ⟨present, hc⟩)
    refine orderly_inside (h.alone_at hc trivial) ?_ ?_ (fun hnot => ⟨fun _ => rfl, fun _ => hintact hnot⟩) trivial
    · intro d hd
      cases hd
      exact .inl ⟨rfl, .inl trivial⟩
    · intro d _ hd hnot
      have htaken := hretired d (h.present d hd hnot)
      rw [hnot] at htaken
      cases htaken
  | establish c present hc =>
    refine h.outside id (fun _ => ?_) (fun _ => .inl trivial)
    rw [hc]
    trivial
  | abort c present hc => exact h.outside id (fun hp => hp.elim) (fun _ => .inr rfl)
  | leave c hc =>
    refine h.outside id (fun _ => ?_) (fun _ => .inl trivial)
    rw [hc]
    trivial
  | stay c hc => exact h.outside id (fun hp => hp.elim) (fun _ => .inr rfl)
  | expire c hc htaken hnone =>
    have hregistered : (r.phase c).Registered := by
      rw [hc]
      trivial
    refine orderly_inside (fun d _ => hnone d) ?_ h.others ?_ htaken
    · intro d hd
      by_cases hdc : d = c
      · exact .inl ⟨hdc, .inl trivial⟩
      · exact .inr ⟨hdc, h.current d hd⟩
    · exact fun hnot => ⟨fun _ => h.present c hregistered hnot, fun _ => h.intact c (.inl hregistered) hnot⟩
  | clear c hc intact hintact =>
    have htaken : r.taken c = false := h.knows_at hc
    have hplace : r.current = some c := h.present c (by rw [hc]; trivial) htaken
    refine orderly_inside (h.alone_at hc trivial) ?_ (fun d hdc hd hnot => (h.only hplace d hdc hd hnot).elim)
      (fun _ => ⟨fun _ => hplace, fun _ => hintact⟩) htaken
    intro d hd
    cases hplace.symm.trans hd
    exact .inl ⟨rfl, .inl trivial⟩
  | delete c hc =>
    have htaken : r.taken c = false := h.knows_at hc
    have hplace : r.current = some c := h.present c (by rw [hc]; trivial) htaken
    exact orderly_inside (h.alone_at hc trivial) nofun (fun d hdc hd hnot => (h.only hplace d hdc hd hnot).elim)
      (unheld fun hp => hp.elim id nofun) trivial
  | acquire intact hkeep =>
    refine ⟨h.exclusive, h.current, h.present, fun d hd hnot => hkeep d (h.intact d hd hnot), fun d => ?_⟩
    have hknows := h.knows d
    cases hp : r.phase d <;> rw [hp] at hknows <;> exact hknows

end Takeover
