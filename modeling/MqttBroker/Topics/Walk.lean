import MqttBroker.Topics.Subscribers

/-! What the walk of `scanSubscribers` collects, as a relation between the path
of a particle and the levels of the topic. Anything observable in the result
is characterised by the particles collected. -/

namespace Mqtt
open FiniteMap

inductive Collects : List Bytes → List Bytes → Prop
  | last {k l : Bytes} : k = l ∨ k = [plus] → Collects [k] [l]
  | step {k l l' : Bytes} {ks ls : List Bytes} : k = l ∨ k = [plus] → Collects ks (l' :: ls) →
      Collects (k :: ks) (l :: l' :: ls)
  | wild (l : Bytes) (ls : List Bytes) : Collects [[hash]] (l :: ls)

/-- The particles `#` that are collected for their parent level. -/
inductive CollectsParent : List Bytes → List Bytes → Prop
  | last {l : Bytes} : l ≠ [plus] → CollectsParent [l, [hash]] [l]
  | step {k l l' : Bytes} {ks ls : List Bytes} : k = l ∨ k = [plus] → CollectsParent ks (l' :: ls) →
      CollectsParent (k :: ks) (l :: l' :: ls)

/-- A property of the result that the gather calls establish particle by particle: `Q` on the
particles collected whole, `W` on those collected for their parent level. -/
structure Observation (topic : Bytes) (P : Subscribers → Prop) (Q W : Particle → Prop) : Prop where
  gather : ∀ n subs, P (Subscribers.gather topic n subs) ↔ P subs ∨ Q n
  wild : ∀ n w subs, P (Subscribers.gatherWild topic n w (Subscribers.gather topic n subs)) ↔
    P subs ∨ Q n ∨ W w
  empty : ¬ Q Particle.empty
  emptyWild : ¬ W Particle.empty

namespace TopicsIndex
variable {topic : Bytes} {P : Subscribers → Prop} {Q W : Particle → Prop}

/-- The particles that a subtrie collects for the levels `ls`. -/
def Collected (Q W : Particle → Prop) (n : ParticleTrie) (ls : List Bytes) : Prop :=
  (∃ path, Collects path ls ∧ Q (n.valueAt Particle.empty path)) ∨
    ∃ path, CollectsParent path ls ∧ W (n.valueAt Particle.empty path)

theorem gatherHash_iff (h : Observation topic P Q W) (n : ParticleTrie) (subs : Subscribers) :
    P (gatherHash topic n subs) ↔ P subs ∨ Q (n.valueAt Particle.empty [[hash]]) := by
  rw [gatherHash, visit, Trie.valueAt_cons]
  cases n.child? [hash] with
  | none => simp [h.empty]
  | some p => exact h.gather _ _

theorem gatherLast_iff (h : Observation topic P Q W) (partKey : Bytes) (p : ParticleTrie)
    (subs : Subscribers) : P (gatherLast topic partKey p subs) ↔
      P subs ∨ Q p.value ∨ (partKey ≠ [plus] ∧ W (p.valueAt Particle.empty [[hash]])) := by
  rw [gatherLast, Trie.valueAt_cons]
  cases p.child? [hash] with
  | none => simp [h.gather, h.emptyWild]
  | some w =>
    dsimp only
    split
    · rename_i hk
      rw [h.wild]
      simp [hk]
    · rename_i hk
      rw [h.gather]
      simp [hk]

theorem visitLast_iff (h : Observation topic P Q W) (n : ParticleTrie) (partKey : Bytes)
    (subs : Subscribers) :
    P (visit n partKey (gatherLast topic partKey) subs) ↔
      P subs ∨ Q (n.valueAt Particle.empty [partKey]) ∨
        (partKey ≠ [plus] ∧ W (n.valueAt Particle.empty [partKey, [hash]])) := by
  rw [visit, Trie.valueAt_cons, Trie.valueAt_cons]
  cases n.child? partKey with
  | none => simp [h.empty, h.emptyWild]
  | some p => exact gatherLast_iff h partKey p subs

theorem collected_last (n : ParticleTrie) (l : Bytes) :
    Collected Q W n [l] ↔
      (Q (n.valueAt Particle.empty [l]) ∨ (l ≠ [plus] ∧ W (n.valueAt Particle.empty [l, [hash]]))) ∨
        Q (n.valueAt Particle.empty [[plus]]) ∨ Q (n.valueAt Particle.empty [[hash]]) := by
  constructor
  · rintro (⟨path, hp, hq⟩ | ⟨path, hp, hw⟩)
    · cases hp with
      | last hk =>
        rcases hk with rfl | rfl
        · exact .inl (.inl hq)
        · exact .inr (.inl hq)
      | wild => exact .inr (.inr hq)
    · cases hp with
      | last hne => exact .inl (.inr ⟨hne, hw⟩)
  · rintro ((hq | ⟨hne, hw⟩) | hq | hq)
    · exact .inl ⟨_, .last (.inl rfl), hq⟩
    · exact .inr ⟨_, .last hne, hw⟩
    · exact .inl ⟨_, .last (.inr rfl), hq⟩
    · exact .inl ⟨_, .wild _ _, hq⟩

theorem collected_step (n : ParticleTrie) (l l' : Bytes) (ls : List Bytes) :
    Collected Q W n (l :: l' :: ls) ↔
      Collected Q W (n.childOr Particle.empty l) (l' :: ls) ∨
        Collected Q W (n.childOr Particle.empty [plus]) (l' :: ls) ∨
        Q (n.valueAt Particle.empty [[hash]]) := by
  simp only [Collected, Trie.valueAt_childOr]
  constructor
  · rintro (⟨path, hp, hq⟩ | ⟨path, hp, hw⟩)
    · cases hp with
      | step hk hp =>
        rcases hk with rfl | rfl
        · exact .inl (.inl ⟨_, hp, hq⟩)
        · exact .inr (.inl (.inl ⟨_, hp, hq⟩))
      | wild => exact .inr (.inr hq)
    · cases hp with
      | step hk hp =>
        rcases hk with rfl | rfl
        · exact .inl (.inr ⟨_, hp, hw⟩)
        · exact .inr (.inl (.inr ⟨_, hp, hw⟩))
  · rintro ((⟨ks, hp, hq⟩ | ⟨ks, hp, hw⟩) | (⟨ks, hp, hq⟩ | ⟨ks, hp, hw⟩) | hq)
    · exact .inl ⟨_, .step (.inl rfl) hp, hq⟩
    · exact .inr ⟨_, .step (.inl rfl) hp, hw⟩
    · exact .inl ⟨_, .step (.inr rfl) hp, hq⟩
    · exact .inr ⟨_, .step (.inr rfl) hp, hw⟩
    · exact .inl ⟨_, .wild _ _, hq⟩

theorem not_collected_leaf (h : Observation topic P Q W) (ls : List Bytes) :
    ¬ Collected Q W (Trie.leaf Particle.empty) ls := by
  rintro (⟨path, -, hq⟩ | ⟨path, -, hw⟩)
  · rw [Trie.valueAt_leaf] at hq
    exact h.empty hq
  · rw [Trie.valueAt_leaf] at hw
    exact h.emptyWild hw

theorem scanSubscribers_iff (h : Observation topic P Q W) (htopic : topic ≠ []) {d : Nat}
    (hd : d < (levels topic).length) (n : ParticleTrie) (subs : Subscribers) :
    P (scanSubscribers topic d n subs) ↔ P subs ∨ Collected Q W n ((levels topic).drop d) := by
  induction hm : (levels topic).length - d generalizing d n subs with
  | zero => omega
  | succ m ih =>
    have hkey : (isolateParticle topic d).1 = (levels topic)[d] := by
      rw [isolateParticle_eq, List.getElem?_eq_getElem hd, Option.getD_some]
    rw [scanSubscribers, if_neg (by simpa using htopic), List.drop_eq_getElem_cons hd]
    by_cases hnext : d + 1 < (levels topic).length
    · -- Another level follows: the walk continues below both children.
      have hvisit : ∀ k subs, P (visit n k (fun p subs => scanSubscribers topic (d + 1) p subs) subs) ↔
          P subs ∨ Collected Q W (n.childOr Particle.empty k) ((levels topic).drop (d + 1)) := by
        intro k subs
        rw [visit, Trie.childOr]
        cases n.child? k with
        | none => simp [not_collected_leaf h]
        | some p => exact ih hnext p subs (by omega)
      rw [dif_pos (by rw [isolateParticle_eq]; simpa using hnext), gatherHash_iff h, hvisit, hvisit,
        hkey, List.drop_eq_getElem_cons hnext, collected_step]
      tauto
    · rw [dif_neg (by rw [isolateParticle_eq]; simpa using hnext), gatherHash_iff h,
        visitLast_iff h, visitLast_iff h, hkey, List.drop_eq_nil_of_le (by omega), collected_last]
      simp only [ne_eq, not_true_eq_false, false_and, or_false]
      tauto

theorem subscribers_iff (h : Observation topic P Q W) (htopic : topic ≠ []) (x : TopicsIndex)
    (hinit : ¬ P {}) : P (x.subscribers topic) ↔ Collected Q W x.root (levels topic) := by
  rw [subscribers, scanSubscribers_iff h htopic (List.length_pos_iff.mpr (levels_ne_nil topic)),
    List.drop_zero]
  simp [hinit]

end TopicsIndex
end Mqtt
