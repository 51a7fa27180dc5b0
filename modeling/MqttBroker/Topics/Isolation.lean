import MqttBroker.Topics.Index

/-! The loops over the levels of a topic, as the source runs them. `isolateParticle` cuts the
topic at one separator after the other in a loop over two variables; `set` and `seek` ask it for
one level after the other, from a starting depth on, and descend one particle a turn. A loop that
has not ended when its turns are used up has no result, so that a result says that it ends. -/

namespace Mqtt

/-! ### isolateParticle -/

/-- `strings.IndexRune` for the separator: its first position, or -1. -/
def indexSlash (s : Bytes) : Int :=
  match s.idxOf? slash with
  | some stop => stop
  | none => -1

/-- The variables of `isolateParticle`: `stop` is `end`, and `next` is zero throughout. -/
structure Isolation where
  filter : Bytes
  stop : Int := 0
  i : Int := 0
  particle : Bytes := []
  hasNext : Bool := false

namespace Isolation

def turn (d : Int) (r : Isolation) : Isolation :=
  let stop := indexSlash r.filter
  if d > -1 ∧ r.i = d ∧ stop > -1 then
    { r with stop, i := r.i + 1, hasNext := true, particle := r.filter.take stop.toNat }
  else if stop > -1 then
    { r with stop, i := r.i + 1, hasNext := false, filter := r.filter.drop (stop.toNat + 1) }
  else
    { r with stop, i := r.i + 1, hasNext := false, particle := r.filter }

theorem turn_i (d : Int) (r : Isolation) : (r.turn d).i = r.i + 1 := by
  unfold turn
  dsimp only
  split
  · rfl
  · split
    · rfl
    · rfl

def loop (d : Int) (r : Isolation) : Isolation :=
  if r.stop > -1 ∧ r.i ≤ d then loop d (r.turn d) else r
termination_by (d + 1 - r.i).toNat
decreasing_by
  rename_i h
  rw [turn_i]
  omega

variable {d : Int} {r : Isolation}

theorem loop_of_done (h : ¬ (r.stop > -1 ∧ r.i ≤ d)) : r.loop d = r := by
  rw [loop, if_neg h]

theorem turn_of_none (h : r.filter.idxOf? slash = none) :
    r.turn d = { r with stop := -1, i := r.i + 1, hasNext := false, particle := r.filter } := by
  have hstop : indexSlash r.filter = -1 := by rw [indexSlash, h]
  unfold turn
  dsimp only
  rw [hstop, if_neg fun h => absurd h.2.2 (by decide), if_neg (by decide)]

theorem turn_of_some {stop : Nat} (h : r.filter.idxOf? slash = some stop) :
    r.turn d = if d > -1 ∧ r.i = d then
        { r with stop := stop, i := r.i + 1, hasNext := true, particle := r.filter.take stop }
      else { r with stop := stop, i := r.i + 1, hasNext := false, filter := r.filter.drop (stop + 1) } := by
  have hstop : indexSlash r.filter = stop := by rw [indexSlash, h]
  have hpos : (stop : Int) > -1 := by omega
  unfold turn
  dsimp only
  rw [hstop, Int.toNat_natCast]
  by_cases hlast : d > -1 ∧ r.i = d
  · rw [if_pos ⟨hlast.1, hlast.2, hpos⟩, if_pos hlast]
  · rw [if_neg fun h => hlast ⟨h.1, h.2.1⟩, if_pos hpos, if_neg hlast]

theorem loop_eq {d : Nat} (k : Nat) (hstop : r.stop > -1) (hk : r.i + k = d) :
    ((r.loop d).particle, (r.loop d).hasNext) = isolateParticle r.filter k := by
  induction k generalizing r with
  | zero =>
    rw [loop, if_pos ⟨hstop, by omega⟩, isolateParticle]
    cases hfind : r.filter.idxOf? slash with
    | none =>
      rw [turn_of_none hfind, loop_of_done fun h => absurd h.1 (Int.lt_irrefl _)]
    | some stop =>
      rw [turn_of_some hfind, if_pos ⟨by omega, by omega⟩, loop_of_done fun h => ?_]
      have hnext := h.2
      dsimp only at hnext
      omega
  | succ k ih =>
    rw [loop, if_pos ⟨hstop, by omega⟩, isolateParticle]
    cases hfind : r.filter.idxOf? slash with
    | none =>
      rw [turn_of_none hfind, loop_of_done fun h => absurd h.1 (Int.lt_irrefl _)]
    | some stop =>
      -- the loop goes on behind the separator, with one less to go
      rw [turn_of_some hfind, if_neg (by omega), ih (by dsimp only; omega) (by dsimp only; omega)]

end Isolation

def isolateParticleLoop (filter : Bytes) (d : Int) : Bytes × Bool :=
  let r := Isolation.loop d { filter }
  (r.particle, r.hasNext)

theorem isolateParticleLoop_eq (filter : Bytes) (d : Nat) : isolateParticleLoop filter d = isolateParticle filter d :=
  Isolation.loop_eq d (r := { filter }) (show (0 : Int) > -1 by decide) (Int.zero_add _)

/-! ### set and seek -/

/-- The loop of `set` from the particle `n` on, and a change of the particle that it returns: the keys
it visits, and the particle with what is below it afterwards. -/
def setLoop (topic : Bytes) (f : Particle → Particle) : Nat → Nat → ParticleTrie → Option (List Bytes × ParticleTrie)
  | 0, _, _ => none
  | turns + 1, d, n =>
    let (key, hasNext) := isolateParticleLoop topic d
    let p := n.childOr Particle.empty key
    if hasNext then
      (setLoop topic f turns (d + 1) p).map fun (keys, p) => (key :: keys, n.setChild key p)
    else some ([key], n.setChild key (.node (f p.value) p.children))

/-- The loop of `seek` from the particle `n` on: the keys it visits, and the particle it returns, if any. -/
def seekLoop (filter : Bytes) : Nat → Nat → ParticleTrie → Option (List Bytes × Option ParticleTrie)
  | 0, _, _ => none
  | turns + 1, d, n =>
    let (key, hasNext) := isolateParticleLoop filter d
    match n.child? key with
    | none => some ([key], none)
    | some p =>
      if hasNext then (seekLoop filter turns (d + 1) p).map fun (keys, q) => (key :: keys, q)
      else some ([key], some p)

/-- The parts of a topic from a depth on, and the last part alone from a depth that it does not have. -/
def partsFrom (topic : Bytes) (d : Nat) : List Bytes :=
  if d < (levels topic).length then (levels topic).drop d else [(levels topic).getLast (levels_ne_nil topic)]

theorem partsFrom_eq (topic : Bytes) (d : Nat) :
    partsFrom topic d = (isolateParticle topic d).1 ::
      if (isolateParticle topic d).2 then partsFrom topic (d + 1) else [] := by
  rw [isolateParticle_eq]
  dsimp only
  rcases Nat.lt_trichotomy (d + 1) (levels topic).length with hmore | hlast | hpast
  · rw [decide_eq_true hmore, if_pos rfl, partsFrom, partsFrom, if_pos (by omega), if_pos hmore,
      List.getElem?_eq_getElem (by omega), Option.getD_some, ← List.drop_eq_getElem_cons]
  · rw [decide_eq_false (by omega), if_neg (by decide), partsFrom, if_pos (by omega),
      List.getElem?_eq_getElem (by omega), Option.getD_some, List.drop_eq_getElem_cons (by omega), hlast,
      List.drop_length]
  · rw [decide_eq_false (by omega), if_neg (by decide), partsFrom]
    split
    · omega
    · rw [List.getElem?_eq_none (by omega), Option.getD_none]

theorem partsFrom_eq_levelsFrom (topic : Bytes) (d : Nat) : partsFrom topic d = levelsFrom topic d := by
  induction hn : (levels topic).length - d generalizing d with
  | zero =>
    rw [partsFrom_eq, levelsFrom, isolateParticle_eq]
    dsimp only
    rw [decide_eq_false (by omega)]
    rfl
  | succ n ih => rw [partsFrom_eq, levelsFrom, ih (d + 1) (by omega)]

variable {turns : Nat}

theorem setLoop_eq (topic : Bytes) (f : Particle → Particle) {d : Nat} (n : ParticleTrie)
    (hturns : (levels topic).length ≤ turns + d) (hpos : 0 < turns) :
    setLoop topic f turns d n = some (partsFrom topic d, n.alter Particle.empty f (partsFrom topic d)) := by
  induction turns generalizing d n with
  | zero => omega
  | succ turns ih =>
    rw [setLoop, isolateParticleLoop_eq, partsFrom_eq]
    have hnext : (isolateParticle topic d).2 = decide (d + 1 < (levels topic).length) := by rw [isolateParticle_eq]
    generalize isolateParticle topic d = level at hnext ⊢
    obtain ⟨key, hasNext⟩ := level
    dsimp only at hnext ⊢
    cases hasNext with
    | false => rfl
    | true =>
      have hmore := of_decide_eq_true hnext.symm
      rw [if_pos rfl, if_pos rfl, ih _ (by omega) (by omega)]
      rfl

theorem seekLoop_eq (filter : Bytes) {d : Nat} (n : ParticleTrie)
    (hturns : (levels filter).length ≤ turns + d) (hpos : 0 < turns) :
    ∃ keys, seekLoop filter turns d n = some (keys, n.find? (partsFrom filter d)) ∧
      keys <+: partsFrom filter d ∧ (keys = partsFrom filter d ∨ n.find? keys = none) := by
  induction turns generalizing d n with
  | zero => omega
  | succ turns ih =>
    rw [seekLoop, isolateParticleLoop_eq, partsFrom_eq]
    have hnext : (isolateParticle filter d).2 = decide (d + 1 < (levels filter).length) := by rw [isolateParticle_eq]
    generalize isolateParticle filter d = level at hnext ⊢
    obtain ⟨key, hasNext⟩ := level
    dsimp only at hnext ⊢
    cases hchild : n.child? key with
    | none =>
      refine ⟨[key], ?_, List.prefix_append [key] _, .inr ?_⟩
      · rw [Trie.find?_cons, hchild]
        rfl
      · rw [Trie.find?_cons, hchild]
        rfl
    | some p =>
      cases hasNext with
      | false =>
        refine ⟨[key], ?_, List.prefix_refl _, .inl rfl⟩
        rw [if_neg (by decide), Trie.find?_cons, hchild]
        rfl
      | true =>
        have hmore := of_decide_eq_true hnext.symm
        obtain ⟨keys, hseek, hprefix, hstop⟩ := ih (d := d + 1) p (by omega) (by omega)
        refine ⟨key :: keys, ?_, ?_, ?_⟩
        · dsimp only
          rw [if_pos rfl, if_pos rfl, hseek, Trie.find?_cons, hchild]
          rfl
        · rw [if_pos rfl]
          exact List.cons_prefix_cons.mpr ⟨rfl, hprefix⟩
        · rw [if_pos rfl, Trie.find?_cons, hchild]
          exact hstop.imp (congrArg _) id

theorem TopicsIndex.set_root_eq (x : TopicsIndex) (topic : Bytes) (d : Nat) (f : Particle → Particle) :
    setLoop topic f ((levels topic).length + 1) d x.root =
      some (levelsFrom topic d, (x.set (levelsFrom topic d) f).root) := by
  rw [setLoop_eq topic f x.root (by omega) (Nat.succ_pos _), partsFrom_eq_levelsFrom]
  rfl

theorem TopicsIndex.seek_eq (x : TopicsIndex) (filter : Bytes) (d : Nat) :
    (seekLoop filter ((levels filter).length + 1) d x.root).map Prod.snd = some (x.seek (levelsFrom filter d)) := by
  obtain ⟨keys, hseek, -, -⟩ := seekLoop_eq filter (d := d) x.root (by omega) (Nat.succ_pos (levels filter).length)
  rw [hseek, partsFrom_eq_levelsFrom]
  rfl

/-- A level is cut out where splitting at the separators has it. The loops of `set` and `seek` end within
as many turns as the topic has parts; they visit the parts from the depth on, and past the last part
that part alone, where `seek` stops at the first part that has no particle. -/
theorem isolateParticle_splits (s : Bytes) (d : Nat) :
    isolateParticleLoop s d = (if h : d < (levels s).length then
        ((levels s)[d], decide (d < (levels s).length - 1))
      else ((levels s).getLast (levels_ne_nil s), false)) ∧
    (∀ (f : Particle → Particle) (n : ParticleTrie) (turns : Nat), (levels s).length ≤ turns →
      setLoop s f turns d n = some (partsFrom s d, n.alter Particle.empty f (partsFrom s d))) ∧
    ∀ (n : ParticleTrie) (turns : Nat), (levels s).length ≤ turns →
      ∃ keys, seekLoop s turns d n = some (keys, n.find? (partsFrom s d)) ∧
        keys <+: partsFrom s d ∧ (keys = partsFrom s d ∨ n.find? keys = none) := by
  have hparts : 0 < (levels s).length := List.length_pos_iff.mpr (levels_ne_nil s)
  refine ⟨?_, ?_, ?_⟩
  · rw [isolateParticleLoop_eq, isolateParticle_eq]
    split
    · rename_i h
      rw [List.getElem?_eq_getElem h, Option.getD_some]
      exact Prod.ext rfl (decide_eq_decide.mpr (by omega))
    · rename_i h
      rw [List.getElem?_eq_none (by omega), Option.getD_none, decide_eq_false (by omega)]
  · exact fun f n turns hturns => setLoop_eq s f n (by omega) (by omega)
  · exact fun n turns hturns => seekLoop_eq s n (by omega) (by omega)

/-- At depth one the topic `a` has no part, and `set` goes to the particle `a` all the same. -/
theorem set_past_the_last_level :
    (∀ turns, 0 < turns →
      setLoop [0x61] id turns 1 (.leaf .empty) = some ([[0x61]], .node .empty [([0x61], .leaf .empty)])) ∧
    (levels [0x61]).drop 1 = [] ∧
    ¬ ∀ (s : Bytes) (d : Nat) (n : ParticleTrie),
      ∃ turns, (setLoop s id turns d n).map Prod.fst = some ((levels s).drop d) := by
  have hset : ∀ turns, 0 < turns →
      setLoop [0x61] id turns 1 (.leaf .empty) = some ([[0x61]], .node .empty [([0x61], .leaf .empty)]) := by
    intro turns hpos
    have hlen : (levels [0x61]).length = 1 := by decide
    rw [setLoop_eq [0x61] id _ (by omega) hpos]
    rfl
  refine ⟨hset, by decide, fun hall => ?_⟩
  obtain ⟨turns, hvisited⟩ := hall [0x61] 1 (.leaf .empty)
  cases turns with
  | zero => cases hvisited
  | succ turns =>
    rw [hset (turns + 1) (Nat.succ_pos _)] at hvisited
    exact absurd (Option.some.inj hvisited) (by decide)

end Mqtt
