import MqttBroker.Topics.Matching

/-! Shared and inline subscriptions beside ordinary ones. The three kinds are
collected by the same walk, but only ordinary subscriptions are held to the
rule on `$` topics, and for the parent level of a final `#` the inline
subscriptions are taken from the wrong particle. -/

namespace Mqtt
open FiniteMap Subscribers

def shareFilter (g f : Bytes) : Bytes :=
  [0x24, 0x73, 0x68, 0x61, 0x72, 0x65] ++ slash :: (g ++ slash :: f)

theorem levels_shareFilter {g : Bytes} (hg : slash ∉ g) (f : Bytes) :
    levels (shareFilter g f) = [0x24, 0x73, 0x68, 0x61, 0x72, 0x65] :: g :: levels f := by
  rw [shareFilter, levels_append_slash (by decide), levels_append_slash hg]

theorem subscribe_shareFilter {x : TopicsIndex} {client g f : Bytes} (hg : slash ∉ g)
    {sub : Subscription} (hsub : sub.filter = shareFilter g f) :
    (x.subscribe client sub).2 = x.set (levels f) fun n =>
      { n with shared := n.shared.add g client sub } := by
  have hl := levels_shareFilter hg f
  have hfold : equalFold (isolateParticle sub.filter 0).1 sharePrefix = true := by
    rw [hsub, isolateParticle_eq]
    simp only [hl, List.getElem?_cons_zero, Option.getD_some]
    decide
  have hgroup : (isolateParticle sub.filter 1).1 = g := by
    rw [hsub, isolateParticle_eq]
    simp [hl]
  have hpath : levelsFrom sub.filter 2 = levels f := by
    have hpos : 0 < (levels f).length := List.length_pos_iff.mpr (levels_ne_nil f)
    rw [hsub, levelsFrom_eq_drop (by rw [hl]; simpa using hpos), hl]
    rfl
  rw [TopicsIndex.subscribe, if_pos hfold, hgroup, hpath]

namespace TopicsIndex

def FreshClient (x : TopicsIndex) (client : Bytes) : Prop :=
  ∀ path, client ∉ (x.particle path).subscriptions

def FreshShared (x : TopicsIndex) (client : Bytes) : Prop :=
  ∀ path group members, (x.particle path).shared.lookup group = some members → client ∉ members

def FreshInline (x : TopicsIndex) (id : Int) : Prop :=
  ∀ path, id ∉ (x.particle path).inlineSubscriptions

theorem particle_new (path : List Bytes) : new.particle path = Particle.empty :=
  Trie.valueAt_leaf _ path

theorem freshClient_new (client : Bytes) : new.FreshClient client := by
  intro path
  rw [particle_new]
  exact AList.notMem_empty client

theorem freshShared_new (client : Bytes) : new.FreshShared client := by
  intro path group members h
  rw [particle_new] at h
  cases h

theorem freshInline_new (id : Int) : new.FreshInline id := by
  intro path
  rw [particle_new]
  exact AList.notMem_empty id

variable {x : TopicsIndex} {topic f : Bytes}

theorem collected_iff_of_path {Q W : Particle → Prop} {y : TopicsIndex} {path : List Bytes} {A B : Prop}
    (hQ : ∀ p, Q (y.particle p) ↔ p = path ∧ A) (hW : ∀ p, W (y.particle p) ↔ p = path ∧ B)
    (ls : List Bytes) :
    Collected Q W y.root ls ↔ (Collects path ls ∧ A) ∨ (CollectsParent path ls ∧ B) := by
  unfold particle at hQ hW
  simp only [Collected, hQ, hW]
  constructor
  · rintro (⟨_, hc, rfl, ha⟩ | ⟨_, hc, rfl, hb⟩)
    · exact .inl ⟨hc, ha⟩
    · exact .inr ⟨hc, hb⟩
  · rintro (⟨hc, ha⟩ | ⟨hc, hb⟩)
    · exact .inl ⟨path, hc, rfl, ha⟩
    · exact .inr ⟨path, hc, rfl, hb⟩

variable {client : Bytes} {sub : Subscription}

theorem lists_subscribe_iff (hfresh : x.FreshClient client)
    (hns : isSharedFilter sub.filter = false) (htopic : topic ≠ []) :
    Lists client ((x.subscribe client sub).2.subscribers topic) ↔
      (Collects (levels sub.filter) (levels topic) ∨ CollectsParent (levels sub.filter) (levels topic)) ∧
        DollarRule topic sub.filter := by
  have hstored : ∀ path, Subscribed topic client ((x.subscribe client sub).2.particle path) ↔
      path = levels sub.filter ∧ DollarRule topic sub.filter := by
    intro path
    rw [subscribe_of_unshared hns, particle_set]
    have hnone : ∀ p, (x.particle p).subscriptions.lookup client = none := fun p =>
      AList.lookup_eq_none.mpr (hfresh p)
    split
    · rename_i hpath
      simp [Subscribed, hpath, skipsDollar_eq_false_iff]
    · rename_i hpath
      simp [Subscribed, hnone, hpath]
  rw [subscribers_iff (observation_lists topic client) htopic _ (AList.notMem_empty client),
    collected_iff_of_path hstored hstored, or_and_right]

theorem listsShared_subscribe_iff {g : Bytes} (hfresh : x.FreshShared client)
    (hg : slash ∉ g) (hsub : sub.filter = shareFilter g f) (htopic : topic ≠ []) :
    ListsShared sub.filter client ((x.subscribe client sub).2.subscribers topic) ↔
      Collects (levels f) (levels topic) ∨ CollectsParent (levels f) (levels topic) := by
  have hstored : ∀ path, SharedBy sub.filter client ((x.subscribe client sub).2.particle path) ↔
      path = levels f ∧ True := by
    intro path
    rw [subscribe_shareFilter hg hsub, particle_set, and_true]
    have hnone : ∀ p, ¬ SharedBy sub.filter client (x.particle p) := by
      rintro p ⟨group, members, s, hm, hs, -⟩
      exact hfresh p group members hm (AList.lookup_isSome.mp (by rw [hs]; rfl))
    split
    · rename_i hpath
      refine iff_of_true ?_ hpath
      exact ⟨g, _, sub, AList.lookup_insert _, AList.lookup_insert _, rfl⟩
    · rename_i hpath
      exact iff_of_false (hnone path) hpath
  have hinit : ¬ ListsShared sub.filter client {} := by
    rintro ⟨members, hm, -⟩
    cases hm
  rw [subscribers_iff (observation_listsShared topic sub.filter client) htopic _ hinit,
    collected_iff_of_path hstored hstored, and_true, and_true]

theorem listsInline_inlineSubscribe_iff {sub : InlineSubscription} (hfresh : x.FreshInline sub.identifier)
    (htopic : topic ≠ []) :
    ListsInline sub.identifier ((x.inlineSubscribe sub).2.subscribers topic) ↔
      Collects (levels sub.filter) (levels topic) := by
  have hstored : ∀ path, sub.identifier ∈ ((x.inlineSubscribe sub).2.particle path).inlineSubscriptions ↔
      path = levels sub.filter ∧ True := by
    intro path
    rw [inlineSubscribe, levelsFrom_zero, particle_set, and_true]
    split
    · rename_i hpath
      simp [hpath]
    · rename_i hpath
      exact iff_of_false (hfresh path) hpath
  rw [subscribers_iff (observation_listsInline topic sub.identifier) htopic _ (AList.notMem_empty _),
    collected_iff_of_path hstored (B := False) (by simp)]
  simp

end TopicsIndex

variable {fs ls : List Bytes}

theorem Collects.length_le (h : Collects fs ls) : fs.length ≤ ls.length := by
  induction h with
  | last => exact Nat.le_refl _
  | step _ _ ih => exact Nat.succ_le_succ ih
  | wild => exact Nat.succ_le_succ (Nat.zero_le _)

theorem CollectsParent.length_eq (h : CollectsParent fs ls) : fs.length = ls.length + 1 := by
  induction h with
  | last => rfl
  | step _ _ ih => exact congrArg (· + 1) ih

theorem kinds_agree_iff (x : TopicsIndex) (topic g : Bytes) (sub ssub isub : Subscription)
    (client sharedClient : Bytes) (hns : isSharedFilter sub.filter = false) (hg : slash ∉ g)
    (hshared : ssub.filter = shareFilter g sub.filter) (hinline : isub.filter = sub.filter)
    (hfc : x.FreshClient client) (hfs : x.FreshShared sharedClient) (hfi : x.FreshInline isub.identifier)
    (htopic : topic ≠ []) (hplus : plus ∉ topic) (hhash : hash ∉ topic) :
    ((ListsShared ssub.filter sharedClient ((x.subscribe sharedClient ssub).2.subscribers topic) ↔
        Lists client ((x.subscribe client sub).2.subscribers topic)) ∧
      (ListsInline isub.identifier ((x.inlineSubscribe isub).2.subscribers topic) ↔
        Lists client ((x.subscribe client sub).2.subscribers topic))) ↔
      (FilterMatches (levels sub.filter) (levels topic) ∧
          ¬ ParentBehindPlus (levels sub.filter) (levels topic) →
        DollarRule topic sub.filter ∧ (levels sub.filter).length ≤ (levels topic).length) := by
  rw [TopicsIndex.lists_subscribe_iff hfc hns htopic,
    TopicsIndex.listsShared_subscribe_iff hfs hg hshared htopic,
    TopicsIndex.listsInline_inlineSubscribe_iff hfi htopic, hinline,
    ← collects_or_parent_iff (levels_ne_nil topic) fun l => level_ne_wildcard hplus hhash]
  constructor
  · rintro ⟨hs, hi⟩ hm
    exact ⟨(hs.mp hm).2, (hi.mpr (hs.mp hm)).length_le⟩
  · intro h
    constructor
    · exact ⟨fun hm => ⟨hm, (h hm).1⟩, fun hm => hm.1⟩
    · refine ⟨fun hc => ⟨.inl hc, (h (.inl hc)).1⟩, ?_⟩
      rintro ⟨hc | hp, -⟩
      · exact hc
      · have hlen := (h (.inr hp)).2
        rw [hp.length_eq] at hlen
        omega

/-- The filter `a` and the topic `a`, on an empty index. -/
theorem kinds_agree_a :
    Lists [0x63] ((TopicsIndex.new.subscribe [0x63] { filter := [0x61] }).2.subscribers [0x61]) ∧
      ListsShared (shareFilter [0x67] [0x61]) [0x73]
        ((TopicsIndex.new.subscribe [0x73] { filter := shareFilter [0x67] [0x61] }).2.subscribers [0x61]) ∧
      ListsInline 1 ((TopicsIndex.new.inlineSubscribe { filter := [0x61], identifier := 1 }).2.subscribers [0x61]) := by
  have hdollar : DollarRule [0x61] [0x61] := fun h => absurd h.1 (by decide)
  have hlists : Lists [0x63] ((TopicsIndex.new.subscribe [0x63] { filter := [0x61] }).2.subscribers [0x61]) := by
    unfold Subscribers.Lists
    decide +kernel
  obtain ⟨hshared, hinline⟩ := (kinds_agree_iff .new [0x61] [0x67] { filter := [0x61] }
    { filter := shareFilter [0x67] [0x61] } { filter := [0x61], identifier := 1 } [0x63] [0x73] (by decide) (by decide)
    rfl rfl (TopicsIndex.freshClient_new _) (TopicsIndex.freshShared_new _) (TopicsIndex.freshInline_new _)
    (by decide) (by decide) (by decide)).mpr fun _ => ⟨hdollar, le_refl _⟩
  exact ⟨hlists, hshared.mpr hlists, hinline.mpr hlists⟩

/-- The shared filter `$share/g/#` receives the topic `$SYS`, the ordinary filter `#` does not. -/
theorem shared_lists_dollar_topic : ¬ ∀ (x : TopicsIndex) (topic g f client sharedClient : Bytes) (id : Int),
    isValidFilter f false = true → isSharedFilter f = false → slash ∉ g → x.FreshClient client →
    x.FreshShared sharedClient → x.FreshInline id → topic ≠ [] → plus ∉ topic → hash ∉ topic →
    ((ListsShared (shareFilter g f) sharedClient
        ((x.subscribe sharedClient { filter := shareFilter g f }).2.subscribers topic) ↔
      Lists client ((x.subscribe client { filter := f }).2.subscribers topic)) ∧
    (ListsInline id ((x.inlineSubscribe { filter := f, identifier := id }).2.subscribers topic) ↔
      Lists client ((x.subscribe client { filter := f }).2.subscribers topic))) := by
  intro h
  have hprop := (h .new sysPrefix [0x67] [hash] [0x63] [0x73] 1 (by decide) (by decide) (by decide)
    (TopicsIndex.freshClient_new _) (TopicsIndex.freshShared_new _) (TopicsIndex.freshInline_new _)
    (by decide) (by decide) (by decide)).1
  exact absurd (hprop.mp (by unfold ListsShared; decide +kernel)) (by unfold Subscribers.Lists; decide +kernel)

end Mqtt
