import MqttBroker.Topics.Kinds
import MqttBroker.Topics.Visits

/-! Retained messages against live delivery. A run of `RetainMessage` calls
keeps the retained paths of the particles in step with the retained messages.
`Messages` and `Subscribers` then agree on a filter and a topic unless the
topic is the parent level of a final `#`, a `$` topic other than `$SYS` below
a wildcard, or empty. -/

namespace Mqtt
open FiniteMap Subscribers
namespace TopicsIndex
variable {x : TopicsIndex} {f t : Bytes} {pk : Packet}

/-- The particles with a retained path are those of the retained topics, and nothing is subscribed. -/
structure Retains (x : TopicsIndex) : Prop where
  path : ∀ {path}, (x.particle path).retainPath ≠ [] → levels (x.particle path).retainPath = path
  topic : ∀ {t pk}, x.retained.lookup t = some pk → pk.topicName = t
  kept : ∀ {t}, t ∈ x.retained → t ≠ [] → (x.particle (levels t)).retainPath = t
  fresh : ∀ client, x.FreshClient client

theorem retains_new : Retains new where
  path h := by
    rw [particle_new] at h
    exact absurd rfl h
  topic h := by cases h
  kept h := absurd h (AList.notMem_empty _)
  fresh := freshClient_new

theorem retainMessage_eq (x : TopicsIndex) (pk : Packet) :
    ∃ topic, (topic = pk.topicName ∧ (x.retainMessage pk).2.retained = x.retained.insert pk.topicName pk ∨
        topic = [] ∧ (x.retainMessage pk).2.retained = x.retained.erase pk.topicName) ∧
      ∀ path, ((x.retainMessage pk).2.particle path).retainPath =
        if path = levels pk.topicName then topic else (x.particle path).retainPath := by
  refine ⟨if pk.payload.length > 0 then pk.topicName else [], ?_, fun path => ?_⟩
  · unfold retainMessage
    by_cases hpayload : pk.payload.length > 0
    · rw [if_pos hpayload, if_pos hpayload]
      exact .inl ⟨rfl, rfl⟩
    · rw [if_neg hpayload, if_neg hpayload]
      exact .inr ⟨rfl, rfl⟩
  · rw [← levelsFrom_zero]
    exact ((IndexCall.retainMessage pk).retainPath_observe x path).trans (apply_ite Particle.retainPath _ _ _)

theorem Retains.retainMessage (h : x.Retains) (pk : Packet) : (x.retainMessage pk).2.Retains := by
  obtain ⟨topic, hretained, hpath⟩ := retainMessage_eq x pk
  refine ⟨fun {path} hne => ?_, fun {t p} hp => ?_, fun {t} ht hne => ?_, fun client path => ?_⟩
  · rw [hpath] at hne ⊢
    split
    · rename_i heq
      rw [if_pos heq] at hne
      rcases hretained with ⟨rfl, -⟩ | ⟨rfl, -⟩
      · exact heq.symm
      · exact absurd rfl hne
    · rename_i heq
      rw [if_neg heq] at hne
      exact h.path hne
  · rcases hretained with ⟨-, hretained⟩ | ⟨-, hretained⟩
    · rw [hretained, lookup_insert_eq] at hp
      split at hp
      · rename_i ht
        cases hp
        exact ht.symm
      · exact h.topic hp
    · rw [hretained, lookup_erase_eq] at hp
      split at hp
      · cases hp
      · exact h.topic hp
  · rw [hpath]
    rcases hretained with ⟨rfl, hretained⟩ | ⟨-, hretained⟩
    · rw [hretained, AList.mem_insert] at ht
      by_cases heq : t = pk.topicName
      · rw [heq, if_pos rfl]
      · rw [if_neg fun hlevels => heq (levels_injective hlevels)]
        exact h.kept (ht.resolve_left heq) hne
    · rw [hretained, AList.mem_erase] at ht
      rw [if_neg fun hlevels => ht.1 (levels_injective hlevels)]
      exact h.kept ht.2 hne
  · rw [← AList.lookup_eq_none]
    exact ((IndexCall.retainMessage pk).held_run x ⟨none, path⟩ client).trans
      (AList.lookup_eq_none.mpr (h.fresh client path))

def retainAll (pks : List Packet) : TopicsIndex := pks.foldl (fun x pk => (x.retainMessage pk).2) new

theorem retains_retainAll (pks : List Packet) : (retainAll pks).Retains :=
  List.foldlRecOn (motive := Retains) pks _ retains_new fun _ h pk _ => h.retainMessage pk

/-! ### The first level -/

theorem head?_of_head?_levels {s k : Bytes} (h : (levels s).head? = some k) :
    k.head? = s.head? ∨ (k = [] ∧ s.head? = some slash) := by
  cases hi : s.idxOf? slash with
  | none =>
    rw [levels_of_idxOf?_eq_none hi] at h
    cases h
    exact .inl rfl
  | some stop =>
    rw [levels_of_idxOf?_eq_some hi] at h
    cases h
    obtain ⟨hlt, hat, -⟩ := List.idxOf?_eq_some_iff.mp hi
    cases stop with
    | zero =>
      right
      rw [List.head?_eq_getElem?, List.getElem?_eq_getElem hlt, hat]
      exact ⟨List.take_zero, rfl⟩
    | succ n => exact .inl (by rw [List.head?_take, if_neg (Nat.succ_ne_zero n)])

theorem wildKey_zero_iff : WildKey f 0 ↔ (levels f).head? = some [plus] ∨ (levels f).head? = some [hash] := by
  have hpos : 0 < (levels f).length := List.length_pos_iff.mpr (levels_ne_nil f)
  have hkey : (levels f).head? = some (isolateParticle f 0).1 := by
    rw [isolateParticle_eq, List.head?_eq_getElem?]
    dsimp only
    rw [List.getElem?_eq_getElem hpos, Option.getD_some]
  rw [hkey, WildKey, Option.some.injEq, Option.some.injEq]

variable {fs ls path : List Bytes} {p : Particle}

theorem exists_head?_of_collects (h : Collects fs ls) :
    ∃ k l, fs.head? = some k ∧ ls.head? = some l ∧ (k = l ∨ k = [plus] ∨ k = [hash]) := by
  cases h with
  | last hk | step hk => exact ⟨_, _, rfl, rfl, hk.imp id .inl⟩
  | wild => exact ⟨_, _, rfl, rfl, .inr (.inr rfl)⟩

theorem wildKey_of_not_dollarRule (hc : Collects (levels f) (levels t)) (hd : ¬ DollarRule t f) : WildKey f 0 := by
  obtain ⟨ht, hf⟩ := not_not.mp hd
  obtain ⟨k, l, hk, hl, h⟩ := exists_head?_of_collects hc
  rw [wildKey_zero_iff, hk, Option.some.injEq, Option.some.injEq]
  refine h.resolve_left fun heq => ?_
  have htopic : l.head? = some dollar := by
    rcases head?_of_head?_levels hl with h | ⟨-, h⟩
    · rw [h, ht]
    · rw [ht] at h
      exact absurd h (by decide)
  have hfilter : k.head? = f.head? := by
    rcases head?_of_head?_levels hk with h | ⟨-, h⟩
    · exact h
    · rw [h] at hf
      exact absurd hf (by decide)
  rw [← hfilter, heq, htopic] at hf
  exact absurd hf (by decide)

theorem not_dollarRule_of_sysPrefix (hw : WildKey f 0) (hs : (levels t).head? = some sysPrefix) : ¬ DollarRule t f := by
  have htopic : t.head? = some dollar := by
    rcases head?_of_head?_levels hs with h | ⟨h, -⟩
    · exact h.symm
    · cases h
  have hwild : ∀ {c : UInt8}, (levels f).head? = some [c] → f.head? = some c := by
    intro c hc
    rcases head?_of_head?_levels hc with h | ⟨h, -⟩
    · exact h.symm
    · cases h
  exact not_not.mpr ⟨htopic, (wildKey_zero_iff.mp hw).imp hwild hwild⟩

/-! ### The messages of a filter -/

def Blank (x : TopicsIndex) (f : Bytes) : Prop :=
  wildLast f = false ∧ ∃ path n, x.seek path = some n ∧ Collects (levels f) path ∧
    ¬ (WildKey f 0 ∧ path.head? = some sysPrefix) ∧ n.value.retainPath = []

theorem onPath_root :
    OnPath f 0 x.root path p ↔ Collects (levels f) path ∧ (∃ n, x.seek path = some n ∧ n.value = p) ∧
      ¬ (WildKey f 0 ∧ path.head? = some sysPrefix) := by
  unfold OnPath seek
  rw [levelsFrom_zero]
  simp only [true_and]

theorem particle_of_seek {n : ParticleTrie} (h : x.seek path = some n) : x.particle path = n.value := by
  unfold seek at h
  unfold particle Trie.valueAt
  rw [h]
  rfl

theorem exists_seek_of_retainPath (h : (x.particle path).retainPath ≠ []) : ∃ n, x.seek path = some n := by
  unfold particle Trie.valueAt at h
  unfold seek
  cases hn : x.root.find? path with
  | none =>
    rw [hn] at h
    exact absurd rfl h
  | some n => exact ⟨n, rfl⟩

theorem retrieve_eq_some_iff {retained : Map Bytes Packet} :
    retrieve retained f p = some pk ↔
      retained.lookup p.retainPath = some pk ∧ (wildLast f = true → p.retainPath ≠ []) := by
  unfold retrieve
  split
  · rename_i h
    rw [Bool.and_eq_true, beq_iff_eq] at h
    exact iff_of_false (by simp) fun hp => hp.2 h.1 h.2
  · rename_i h
    rw [Bool.and_eq_true, beq_iff_eq, not_and] at h
    exact ⟨fun hp => ⟨hp, h⟩, fun hp => hp.1⟩

theorem exists_retained_of_mem_messages (x : TopicsIndex) (f : Bytes) {pk : Packet} (h : pk ∈ x.messages f) :
    ∃ topic, x.retained.lookup topic = some pk := by
  by_cases hnone : (f.isEmpty || size x.retained == 0) = true
  · rw [messages, scanMessages, if_pos hnone] at h
    cases h
  · by_cases hw : containsWildcard f = true
    · rw [Bool.or_eq_true, not_or, List.isEmpty_iff, beq_iff_eq] at hnone
      rw [messages, scanMessages_eq hnone.1 hnone.2 hw, List.nil_append, List.mem_filterMap] at h
      obtain ⟨e, -, he⟩ := h
      exact ⟨_, (retrieve_eq_some_iff.mp he).1⟩
    · rw [messages, scanMessages, if_neg hnone, if_pos (by simpa using hw), appendRetained] at h
      split at h
      · rename_i pk' hpk'
        rw [List.nil_append, List.mem_singleton] at h
        exact ⟨f, h ▸ hpk'⟩
      · cases h

section Wildcard
variable (hv : isValidFilter f false = true) (hw : containsWildcard f = true)
include hv hw

theorem messages_eq (hr : size x.retained ≠ 0) :
    x.messages f = (visited f 0 x.root).filterMap fun e => retrieve x.retained f e.2 := by
  have hne : f ≠ [] := by
    rintro rfl
    cases hv
  rw [messages, scanMessages_eq hne hr hw, List.nil_append]

theorem mem_messages_iff (hx : x.Retains) (hp : x.retained.lookup t = some pk) :
    pk ∈ x.messages f ↔ ∃ path n, x.seek path = some n ∧ Collects (levels f) path ∧
      ¬ (WildKey f 0 ∧ path.head? = some sysPrefix) ∧ n.value.retainPath = t ∧
      (wildLast f = true → t ≠ []) := by
  have hr : size x.retained ≠ 0 := by
    intro h0
    have hnone := size_eq_zero_iff.mp h0 t
    rw [hp] at hnone
    cases hnone
  have hretrieve : ∀ p : Particle, retrieve x.retained f p = some pk ↔
      p.retainPath = t ∧ (wildLast f = true → t ≠ []) := by
    intro p
    rw [retrieve_eq_some_iff]
    constructor
    · rintro ⟨h, hlast⟩
      have ht : p.retainPath = t := (hx.topic h).symm.trans (hx.topic hp)
      exact ⟨ht, ht ▸ hlast⟩
    · rintro ⟨rfl, hlast⟩
      exact ⟨hp, hlast⟩
  rw [messages_eq hv hw hr, List.mem_filterMap]
  simp only [Prod.exists, mem_visited_iff (hashLast_of_isValidFilter hv) x.keys, onPath_root, hretrieve]
  constructor
  · rintro ⟨path, p, ⟨hc, ⟨n, hn, rfl⟩, hs⟩, hp⟩
    exact ⟨path, n, hn, hc, hs, hp⟩
  · rintro ⟨path, n, hn, hc, hs, hp⟩
    exact ⟨path, n.value, ⟨hc, ⟨n, hn, rfl⟩, hs⟩, hp⟩

theorem mem_messages_iff_collects (hx : x.Retains) (hp : x.retained.lookup t = some pk) (hne : t ≠ []) :
    pk ∈ x.messages f ↔ Collects (levels f) (levels t) ∧
      ¬ (WildKey f 0 ∧ (levels t).head? = some sysPrefix) := by
  have hkept : (x.particle (levels t)).retainPath = t :=
    hx.kept (AList.lookup_isSome.mp (by rw [hp]; rfl)) hne
  rw [mem_messages_iff hv hw hx hp]
  constructor
  · rintro ⟨path, n, hn, hc, hs, ht, -⟩
    rw [← particle_of_seek hn] at ht
    have hpath : levels t = path := by
      rw [← ht]
      exact hx.path (by rw [ht]; exact hne)
    rw [hpath]
    exact ⟨hc, hs⟩
  · rintro ⟨hc, hs⟩
    obtain ⟨n, hn⟩ := exists_seek_of_retainPath (by rw [hkept]; exact hne)
    exact ⟨levels t, n, hn, hc, hs, by rw [← particle_of_seek hn, hkept], fun _ => hne⟩

theorem mem_messages_iff_blank (hx : x.Retains) (hp : x.retained.lookup [] = some pk) :
    pk ∈ x.messages f ↔ x.Blank f := by
  rw [mem_messages_iff hv hw hx hp]
  constructor
  · rintro ⟨path, n, hn, hc, hs, ht, hlast⟩
    refine ⟨?_, path, n, hn, hc, hs, ht⟩
    rw [← Bool.not_eq_true]
    exact fun h => hlast h rfl
  · rintro ⟨hlast, path, n, hn, hc, hs, ht⟩
    exact ⟨path, n, hn, hc, hs, ht, fun h => by rw [hlast] at h; cases h⟩

theorem nodup_messages (hx : x.Retains) (hblank : [] ∈ x.retained → ¬ x.Blank f) : (x.messages f).Nodup := by
  by_cases hr : size x.retained = 0
  · rw [messages, scanMessages, hr]
    simp
  · rw [messages_eq hv hw hr]
    show List.Pairwise _ _
    rw [List.pairwise_filterMap]
    refine (List.pairwise_map.mp (nodup_visited x.keys)).imp_of_mem ?_
    rintro ⟨path, p⟩ ⟨path', p'⟩ hmem hmem' hpath pk hret pk' hret' rfl
    have hon := (mem_visited_iff (hashLast_of_isValidFilter hv) x.keys).mp hmem
    have hon' := (mem_visited_iff (hashLast_of_isValidFilter hv) x.keys).mp hmem'
    obtain ⟨hc, ⟨n, hn, rfl⟩, hs⟩ := onPath_root.mp hon
    obtain ⟨-, ⟨n', hn', rfl⟩, -⟩ := onPath_root.mp hon'
    obtain ⟨hlookup, hlast⟩ := retrieve_eq_some_iff.mp hret
    obtain ⟨hlookup', -⟩ := retrieve_eq_some_iff.mp hret'
    have hsame : n.value.retainPath = n'.value.retainPath := (hx.topic hlookup).symm.trans (hx.topic hlookup')
    by_cases hnil : n.value.retainPath = []
    · rw [hnil] at hlookup hlast
      refine hblank (AList.lookup_isSome.mp (by rw [hlookup]; rfl)) ⟨?_, path, n, hn, hc, hs, hnil⟩
      rw [← Bool.not_eq_true]
      exact fun h => hlast h rfl
    · have hp : levels n.value.retainPath = path := by
        rw [← particle_of_seek hn] at hnil ⊢
        exact hx.path hnil
      have hp' : levels n'.value.retainPath = path' := by
        rw [hsame, ← particle_of_seek hn'] at hnil
        rw [← particle_of_seek hn']
        exact hx.path hnil
      exact hpath (by rw [← hp, ← hp', hsame])

end Wildcard

section Literal
variable (hw : containsWildcard f = false)
include hw

theorem messages_literal (hne : f ≠ []) : x.messages f = (x.retained.lookup f).toList := by
  rw [messages, scanMessages]
  by_cases hr : size x.retained = 0
  · simp [hr, size_eq_zero_iff.mp hr f]
  · simp [hr, hne, hw, appendRetained_eq]

theorem level_literal {l : Bytes} (h : l ∈ levels f) : l ≠ [plus] ∧ l ≠ [hash] := by
  unfold containsWildcard at hw
  simp only [Bool.or_eq_false_iff, List.contains_eq_mem, decide_eq_false_iff_not] at hw
  exact level_ne_wildcard hw.2 hw.1 h

end Literal

theorem eq_of_collects (h : Collects fs ls) (hfs : ∀ l ∈ fs, l ≠ [plus] ∧ l ≠ [hash]) : fs = ls := by
  induction h with
  | last hk => rw [hk.resolve_right (hfs _ List.mem_cons_self).1]
  | step hk _ ih =>
    rw [hk.resolve_right (hfs _ List.mem_cons_self).1, ih fun l hl => hfs l (List.mem_cons_of_mem _ hl)]
  | wild => exact absurd rfl (hfs _ List.mem_cons_self).2

theorem collects_self (hne : ls ≠ []) : Collects ls ls := by
  induction ls with
  | nil => exact absurd rfl hne
  | cons k ks ih =>
    cases ks with
    | nil => exact .last (.inl rfl)
    | cons k' ks => exact .step (.inl rfl) (ih (List.cons_ne_nil _ _))

theorem hash_mem_of_collectsParent (h : CollectsParent fs ls) : [hash] ∈ fs := by
  induction h with
  | last => simp
  | step _ _ ih => exact List.mem_cons_of_mem _ ih

end TopicsIndex

open TopicsIndex

structure NoDivergence (x : TopicsIndex) (f : Bytes) : Prop where
  parent : ∀ t ∈ x.retained, t ≠ [] → CollectsParent (levels f) (levels t) → ¬ DollarRule t f
  dollar : ∀ t ∈ x.retained, t ≠ [] → Collects (levels f) (levels t) → ¬ DollarRule t f →
    (levels t).head? = some sysPrefix
  blank : [] ∈ x.retained → containsWildcard f = true → ¬ x.Blank f

theorem not_lists_nil {x : TopicsIndex} {client : Bytes} : ¬ Lists client (x.subscribers []) := by
  rw [subscribers, scanSubscribers]
  exact AList.notMem_empty client

theorem visits_iff_collects (f t : Bytes) :
    ((Collects (levels f) (levels t) ∧ ¬ (WildKey f 0 ∧ (levels t).head? = some sysPrefix)) ↔
      (Collects (levels f) (levels t) ∨ CollectsParent (levels f) (levels t)) ∧ DollarRule t f) ↔
      (CollectsParent (levels f) (levels t) → ¬ DollarRule t f) ∧
        (Collects (levels f) (levels t) → ¬ DollarRule t f → (levels t).head? = some sysPrefix) := by
  constructor
  · intro h
    refine ⟨fun hp hd => ?_, fun hc hd => ?_⟩
    · have hle := (h.mpr ⟨.inr hp, hd⟩).1.length_le
      rw [hp.length_eq] at hle
      omega
    · by_contra hs
      exact hd (h.mp ⟨hc, fun hw => hs hw.2⟩).2
  · rintro ⟨hparent, hdollar⟩
    constructor
    · rintro ⟨hc, hs⟩
      refine ⟨.inl hc, ?_⟩
      by_contra hd
      exact hs ⟨wildKey_of_not_dollarRule hc hd, hdollar hc hd⟩
    · rintro ⟨hc | hp, hd⟩
      · exact ⟨hc, fun hs => not_dollarRule_of_sysPrefix hs.1 hs.2 hd⟩
      · exact absurd hd (hparent hp)

theorem mem_messages_literal {x : TopicsIndex} {f t : Bytes} {pk : Packet} (hx : x.Retains) (hne : f ≠ [])
    (hw : containsWildcard f = false) (hp : x.retained.lookup t = some pk) :
    pk ∈ x.messages f ↔ (Collects (levels f) (levels t) ∨ CollectsParent (levels f) (levels t)) ∧ DollarRule t f := by
  rw [messages_literal hw hne, Option.mem_toList]
  constructor
  · intro h
    have heq : t = f := (hx.topic hp).symm.trans (hx.topic h)
    rw [heq]
    refine ⟨.inl (collects_self (levels_ne_nil f)), fun hd => ?_⟩
    rcases hd.2 with h | h <;> rw [hd.1] at h <;> exact absurd h (by decide)
  · rintro ⟨hc | hc, -⟩
    · have heq : f = t := levels_injective (eq_of_collects hc fun l hl => level_literal hw hl)
      rw [heq, hp]
    · exact absurd rfl (level_literal hw (hash_mem_of_collectsParent hc)).2

theorem noDivergence_of_literal {x : TopicsIndex} {f : Bytes} (hw : containsWildcard f = false) :
    NoDivergence x f where
  parent t _ _ hc := absurd rfl (level_literal hw (hash_mem_of_collectsParent hc)).2
  dollar t _ _ hc hd := by
    have hkey := wildKey_zero_iff.mp (wildKey_of_not_dollarRule hc hd)
    rcases hkey with h | h
    · exact absurd rfl (level_literal hw (List.mem_of_head? h)).1
    · exact absurd rfl (level_literal hw (List.mem_of_head? h)).2
  blank _ h := by
    rw [hw] at h
    cases h

theorem messages_agree_iff (pks : List Packet) (client : Bytes) (sub : Subscription)
    (hv : isValidFilter sub.filter false = true) (hns : isSharedFilter sub.filter = false) :
    (((retainAll pks).messages sub.filter).Nodup ∧
      ∀ t pk, (retainAll pks).retained.lookup t = some pk →
        (pk ∈ (retainAll pks).messages sub.filter ↔
          Lists client (((retainAll pks).subscribe client sub).2.subscribers t))) ↔
      NoDivergence (retainAll pks) sub.filter := by
  have hx := retains_retainAll pks
  generalize retainAll pks = x at hx ⊢
  have hlists : ∀ {t}, t ≠ [] → (Lists client ((x.subscribe client sub).2.subscribers t) ↔
      (Collects (levels sub.filter) (levels t) ∨ CollectsParent (levels sub.filter) (levels t)) ∧
        DollarRule t sub.filter) := fun ht => lists_subscribe_iff (hx.fresh client) hns ht
  have hne : sub.filter ≠ [] := by
    intro h
    rw [h] at hv
    cases hv
  cases hw : containsWildcard sub.filter with
  | false =>
    refine iff_of_true ⟨?_, fun t pk hp => ?_⟩ (noDivergence_of_literal hw)
    · rw [messages_literal hw hne]
      cases x.retained.lookup sub.filter <;> simp
    · by_cases ht : t = []
      · subst ht
        refine iff_of_false (fun h => ?_) not_lists_nil
        rw [messages_literal hw hne, Option.mem_toList] at h
        exact hne ((hx.topic h).symm.trans (hx.topic hp))
      · rw [mem_messages_literal hx hne hw hp, hlists ht]
  | true =>
    have hagree : ∀ {t pk}, x.retained.lookup t = some pk → t ≠ [] →
        ((pk ∈ x.messages sub.filter ↔ Lists client ((x.subscribe client sub).2.subscribers t)) ↔
          (CollectsParent (levels sub.filter) (levels t) → ¬ DollarRule t sub.filter) ∧
            (Collects (levels sub.filter) (levels t) → ¬ DollarRule t sub.filter →
              (levels t).head? = some sysPrefix)) := by
      intro t pk hp ht
      rw [mem_messages_iff_collects hv hw hx hp ht, hlists ht, visits_iff_collects]
    constructor
    · rintro ⟨-, h⟩
      refine ⟨fun t hmem ht => ?_, fun t hmem ht => ?_, fun hmem _ hblank => ?_⟩
      · obtain ⟨pk, hp⟩ := Option.isSome_iff_exists.mp (AList.lookup_isSome.mpr hmem)
        exact ((hagree hp ht).mp (h t pk hp)).1
      · obtain ⟨pk, hp⟩ := Option.isSome_iff_exists.mp (AList.lookup_isSome.mpr hmem)
        exact ((hagree hp ht).mp (h t pk hp)).2
      · obtain ⟨pk, hp⟩ := Option.isSome_iff_exists.mp (AList.lookup_isSome.mpr hmem)
        exact not_lists_nil ((h [] pk hp).mp ((mem_messages_iff_blank hv hw hx hp).mpr hblank))
    · intro h
      refine ⟨nodup_messages hv hw hx fun hmem => h.blank hmem hw, fun t pk hp => ?_⟩
      have hmem : t ∈ x.retained := AList.lookup_isSome.mp (by rw [hp]; rfl)
      by_cases ht : t = []
      · subst ht
        rw [mem_messages_iff_blank hv hw hx hp]
        exact iff_of_false (h.blank hmem hw) not_lists_nil
      · exact (hagree hp ht).mpr ⟨h.parent t hmem ht, h.dollar t hmem ht⟩

/-- The retained topic `a/b` and the filter `+/b`. -/
theorem messages_agree_ab :
    ((retainAll [{ topicName := [0x61, 0x2F, 0x62], payload := [0x31] }]).messages [0x2B, 0x2F, 0x62]).Nodup ∧
      ∀ t pk, (retainAll [{ topicName := [0x61, 0x2F, 0x62], payload := [0x31] }]).retained.lookup t = some pk →
        (pk ∈ (retainAll [{ topicName := [0x61, 0x2F, 0x62], payload := [0x31] }]).messages [0x2B, 0x2F, 0x62] ↔
          Lists [0x63] (((retainAll [{ topicName := [0x61, 0x2F, 0x62], payload := [0x31] }]).subscribe [0x63]
            { filter := [0x2B, 0x2F, 0x62] }).2.subscribers t)) := by
  refine (messages_agree_iff _ [0x63] { filter := [0x2B, 0x2F, 0x62] } (by decide) (by decide)).mpr ?_
  have hmem : ∀ {t}, t ∈ (retainAll [{ topicName := [0x61, 0x2F, 0x62], payload := [0x31] }]).retained →
      t = [0x61, 0x2F, 0x62] := by
    intro t ht
    rcases (AList.mem_insert _).mp ht with h | h
    · exact h
    · exact absurd h (AList.notMem_empty t)
  refine ⟨?_, ?_, ?_⟩
  · intro t ht _ hc
    have hlen := hc.length_eq
    rw [hmem ht] at hlen
    exact absurd hlen (by decide)
  · intro t ht _ _ hd
    rw [hmem ht] at hd
    exact absurd (by unfold DollarRule; decide) hd
  · intro ht
    cases hmem ht

/-- The filter `a/#` does not return the retained message of `a`, which a live subscriber receives. -/
theorem messages_omit_parent : ¬ ∀ (pks : List Packet) (client : Bytes) (sub : Subscription),
    isValidFilter sub.filter false = true → isSharedFilter sub.filter = false →
    ((retainAll pks).messages sub.filter).Nodup ∧
      ∀ t pk, (retainAll pks).retained.lookup t = some pk →
        (pk ∈ (retainAll pks).messages sub.filter ↔
          Lists client (((retainAll pks).subscribe client sub).2.subscribers t)) := by
  intro h
  have hagree := (h [{ topicName := [0x61], payload := [0x31] }] [0x63] { filter := [0x61, 0x2F, 0x23] }
    (by decide) (by decide)).2 [0x61] { topicName := [0x61], payload := [0x31] } (AList.lookup_insert _)
  exact absurd (hagree.mpr (by unfold Subscribers.Lists; decide +kernel)) (by decide +kernel)

end Mqtt
