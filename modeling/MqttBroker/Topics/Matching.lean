import MqttBroker.Topics.Gather
import MqttBroker.Topics.Tables
import Mathlib.Data.Set.Insert

/-! Topic matching of MQTT section 4.7 on levels, and the set of subscriptions
that a sequence of subscribe and unsubscribe calls leaves. The walk of the
index finds the clients of the matching ones, but it does not look at `#`
below `+` for the parent level. -/

namespace Mqtt
open FiniteMap Subscribers

/-- Section 4.7: `+` matches one level, a final `#` the parent level and any number of further
levels, and every other level matches itself. -/
def FilterMatches : List Bytes → List Bytes → Prop
  | [], [] => True
  | [], _ :: _ => False
  | f :: fs, [] => f = [hash] ∧ fs = []
  | f :: fs, l :: ls => (f = [hash] ∧ fs = []) ∨ ((f = [plus] ∨ f = l) ∧ FilterMatches fs ls)

/-- The filter ends in `+/#` and the topic in the level that the `+` would match. -/
def ParentBehindPlus (fs ls : List Bytes) : Prop :=
  fs.length = ls.length + 1 ∧ [[plus], [hash]] <:+ fs

def DollarRule (topic filter : Bytes) : Prop :=
  ¬ (topic.head? = some dollar ∧ (filter.head? = some plus ∨ filter.head? = some hash))

variable {topic l client : Bytes} {fs ls : List Bytes} {x : TopicsIndex} {held : Set (Bytes × Bytes)}

theorem skipsDollar_eq_false_iff {filter : Bytes} : skipsDollar topic filter = false ↔ DollarRule topic filter := by
  rw [skipsDollar, DollarRule, ← Bool.not_eq_true]
  simp only [Bool.and_eq_true, Bool.or_eq_true, beq_iff_eq]

theorem subset_of_mem_levels (h : l ∈ levels topic) : l ⊆ topic := by
  induction hn : topic.length using Nat.strong_induction_on generalizing topic with
  | h n ih =>
    cases hi : topic.idxOf? slash with
    | none =>
      rw [levels_of_idxOf?_eq_none hi, List.mem_singleton] at h
      rw [h]
      exact List.Subset.refl _
    | some stop =>
      have hlt : stop < topic.length := (List.idxOf?_eq_some_iff.mp hi).1
      rw [levels_of_idxOf?_eq_some hi, List.mem_cons] at h
      rcases h with rfl | h
      · exact List.take_subset _ _
      · have hlen : (topic.drop (stop + 1)).length < n := by
          rw [List.length_drop]
          omega
        exact List.Subset.trans (ih _ hlen h rfl) (List.drop_subset _ _)

theorem level_ne_wildcard (hplus : plus ∉ topic) (hhash : hash ∉ topic)
    (h : l ∈ levels topic) : l ≠ [plus] ∧ l ≠ [hash] := by
  have hsub := subset_of_mem_levels h
  constructor
  · rintro rfl
    exact hplus (hsub (List.mem_singleton_self plus))
  · rintro rfl
    exact hhash (hsub (List.mem_singleton_self hash))

theorem parentBehindPlus_cons {f f' : Bytes} :
    ParentBehindPlus (f :: f' :: fs) (l :: ls) ↔
      ParentBehindPlus (f' :: fs) ls ∨ (f = [plus] ∧ f' = [hash] ∧ fs = [] ∧ ls = []) := by
  simp only [ParentBehindPlus, List.length_cons, List.suffix_cons_iff]
  constructor
  · rintro ⟨hlen, heq | hsuf⟩
    · cases heq
      right
      simpa using hlen
    · exact .inl ⟨by omega, hsuf⟩
  · rintro (⟨hlen, hsuf⟩ | ⟨rfl, rfl, rfl, rfl⟩)
    · exact ⟨by omega, .inr hsuf⟩
    · exact ⟨rfl, .inl rfl⟩

theorem collects_or_parent_singleton (hl : l ≠ [plus] ∧ l ≠ [hash]) :
    Collects fs [l] ∨ CollectsParent fs [l] ↔ FilterMatches fs [l] ∧ ¬ ParentBehindPlus fs [l] := by
  constructor
  · rintro (h | h)
    · cases h with
      | last hk => exact ⟨.inr ⟨hk.symm, trivial⟩, by simp [ParentBehindPlus]⟩
      | wild => exact ⟨.inl ⟨rfl, rfl⟩, by simp [ParentBehindPlus]⟩
    · cases h with
      | last hne =>
        refine ⟨.inr ⟨.inr rfl, rfl, rfl⟩, ?_⟩
        rw [parentBehindPlus_cons]
        rintro (⟨-, hsuf⟩ | ⟨rfl, -⟩)
        · exact absurd hsuf.length_le (by simp)
        · exact hne rfl
  · rintro ⟨hm, hp⟩
    match fs, hm with
    | [k], hm =>
      rcases hm with ⟨rfl, -⟩ | ⟨hk, -⟩
      · exact .inl (.wild _ _)
      · exact .inl (.last hk.symm)
    | k :: k' :: ks, hm =>
      rcases hm with ⟨-, hnil⟩ | ⟨hk, rfl, rfl⟩
      · cases hnil
      · rcases hk with rfl | rfl
        · exact absurd (parentBehindPlus_cons.mpr (.inr ⟨rfl, rfl, rfl, rfl⟩)) hp
        · exact .inr (.last hl.1)

theorem collects_or_parent_cons {k l' : Bytes} {ks : List Bytes} :
    Collects (k :: ks) (l :: l' :: ls) ∨ CollectsParent (k :: ks) (l :: l' :: ls) ↔
      (k = [hash] ∧ ks = []) ∨
        ((k = [plus] ∨ k = l) ∧ (Collects ks (l' :: ls) ∨ CollectsParent ks (l' :: ls))) := by
  constructor
  · rintro (h | h)
    · cases h with
      | step hk h => exact .inr ⟨hk.symm, .inl h⟩
      | wild => exact .inl ⟨rfl, rfl⟩
    · cases h with
      | step hk h => exact .inr ⟨hk.symm, .inr h⟩
  · rintro (⟨rfl, rfl⟩ | ⟨hk, h | h⟩)
    · exact .inl (.wild _ _)
    · exact .inl (.step hk.symm h)
    · exact .inr (.step hk.symm h)

theorem collects_or_parent_iff (hne : ls ≠ [])
    (hls : ∀ l ∈ ls, l ≠ [plus] ∧ l ≠ [hash]) :
    Collects fs ls ∨ CollectsParent fs ls ↔ FilterMatches fs ls ∧ ¬ ParentBehindPlus fs ls := by
  induction ls generalizing fs with
  | nil => exact absurd rfl hne
  | cons l ls ih =>
    cases ls with
    | nil => exact collects_or_parent_singleton (hls l List.mem_cons_self)
    | cons l' ls =>
      have htail : ∀ m ∈ l' :: ls, m ≠ [plus] ∧ m ≠ [hash] := fun m hm => hls m (List.mem_cons_of_mem _ hm)
      match fs with
      | [] =>
        refine iff_of_false ?_ fun h => h.1
        rintro (h | h) <;> cases h
      | [k] =>
        have hnil : ¬ (Collects [] (l' :: ls) ∨ CollectsParent [] (l' :: ls)) := by
          rintro (h | h) <;> cases h
        rw [collects_or_parent_cons]
        simp [FilterMatches, ParentBehindPlus, hnil]
      | k :: k' :: ks =>
        have hfm : FilterMatches (k :: k' :: ks) (l :: l' :: ls) ↔
            (k = [plus] ∨ k = l) ∧ FilterMatches (k' :: ks) (l' :: ls) := by
          show _ ∨ _ ↔ _
          simp only [List.cons_ne_nil, and_false, false_or]
        rw [collects_or_parent_cons, ih (by simp) htail, hfm, parentBehindPlus_cons]
        simp only [List.cons_ne_nil, and_false, or_false, false_or]
        rw [and_assoc]

/-! ### What the walk finds -/

namespace TopicsIndex

/-- The client holds the filter, and the walk finds it for the topic: the filter matches, and does not end in a `#`
for whose parent level a `+` stands. -/
structure Matches (x : TopicsIndex) (topic client f : Bytes) : Prop where
  held : ∃ sub, x.held (address f) client = some sub ∧ sub.filter = f
  filter : FilterMatches (address f).path (levels topic)
  parent : ¬ ParentBehindPlus (address f).path (levels topic)
  dollar : (address f).group = none → DollarRule topic f

variable {f : Bytes}

theorem Placed.sharedBy_iff (hx : Placed x) (path : List Bytes) : SharedBy f client (x.particle path) ↔
    path = (address f).path ∧ (address f).group ≠ none ∧ ∃ sub, x.held (address f) client = some sub ∧
    sub.filter = f := by
  constructor
  · rintro ⟨group, members, sub, hmembers, hsub, rfl⟩
    have hheld : x.held ⟨some group, path⟩ client = some sub := by
      show (x.particle path).shared.get group client = some sub
      unfold SharedSubscriptions.get
      rw [hmembers]
      exact hsub
    rw [← hx hheld]
    exact ⟨rfl, Option.some_ne_none _, sub, hheld, rfl⟩
  · rintro ⟨rfl, hgroup, sub, hheld, hfilter⟩
    obtain ⟨group, hgroup⟩ := Option.ne_none_iff_exists'.mp hgroup
    unfold held at hheld
    rw [hgroup] at hheld
    obtain ⟨members, hmembers, hsub⟩ := Option.bind_eq_some_iff.mp hheld
    exact ⟨group, members, sub, hmembers, hsub, hfilter⟩

theorem Placed.subscribed_iff (hx : Placed x) (path : List Bytes) : Subscribed topic client (x.particle path) ↔
    ∃ f, path = (address f).path ∧ (address f).group = none ∧ DollarRule topic f ∧
      ∃ sub, x.held (address f) client = some sub ∧ sub.filter = f := by
  constructor
  · rintro ⟨sub, hsub, hskip⟩
    have hheld : x.held ⟨none, path⟩ client = some sub := hsub
    have haddress := hx hheld
    rw [haddress] at hheld
    exact ⟨sub.filter, congrArg Address.path haddress, (congrArg Address.group haddress).symm,
      skipsDollar_eq_false_iff.mp hskip, sub, hheld, rfl⟩
  · rintro ⟨f, rfl, hgroup, hdollar, sub, hheld, rfl⟩
    unfold held at hheld
    rw [hgroup] at hheld
    exact ⟨sub, hheld, skipsDollar_eq_false_iff.mpr hdollar⟩

section Walk
variable (htopic : topic ≠ []) (hplus : plus ∉ topic) (hhash : hash ∉ topic)
include htopic hplus hhash

theorem subscribers_iff_matches {P : Subscribers → Prop} {Q : Particle → Prop} (h : Observation topic P Q Q)
    (hinit : ¬ P {}) : P (x.subscribers topic) ↔ ∃ path, Q (x.particle path) ∧
      FilterMatches path (levels topic) ∧ ¬ ParentBehindPlus path (levels topic) := by
  simp only [← collects_or_parent_iff (levels_ne_nil topic) fun l => level_ne_wildcard hplus hhash]
  rw [subscribers_iff h htopic x hinit]
  constructor
  · rintro (⟨path, hcollects, hq⟩ | ⟨path, hcollects, hq⟩)
    · exact ⟨path, hq, .inl hcollects⟩
    · exact ⟨path, hq, .inr hcollects⟩
  · rintro ⟨path, hq, hcollects | hcollects⟩
    · exact .inl ⟨path, hcollects, hq⟩
    · exact .inr ⟨path, hcollects, hq⟩

theorem Placed.listsShared_iff (hx : Placed x) :
    ListsShared f client (x.subscribers topic) ↔ (address f).group ≠ none ∧ Matches x topic client f := by
  have hnone : ¬ ListsShared f client {} := by
    rintro ⟨members, h, -⟩
    cases h
  rw [subscribers_iff_matches htopic hplus hhash (observation_listsShared topic f client) hnone]
  constructor
  · rintro ⟨path, hshared, hfilter, hparent⟩
    obtain ⟨rfl, hgroup, hheld⟩ := (hx.sharedBy_iff path).mp hshared
    exact ⟨hgroup, hheld, hfilter, hparent, fun h => absurd h hgroup⟩
  · rintro ⟨hgroup, h⟩
    exact ⟨_, (hx.sharedBy_iff _).mpr ⟨rfl, hgroup, h.held⟩, h.filter, h.parent⟩

theorem Placed.lists_iff (hx : Placed x) :
    Lists client (x.subscribers topic) ↔ ∃ f, (address f).group = none ∧ Matches x topic client f := by
  rw [subscribers_iff_matches htopic hplus hhash (observation_lists topic client) (AList.notMem_empty client)]
  constructor
  · rintro ⟨path, hsubscribed, hfilter, hparent⟩
    obtain ⟨f, rfl, hgroup, hdollar, hheld⟩ := (hx.subscribed_iff path).mp hsubscribed
    exact ⟨f, hgroup, hheld, hfilter, hparent, fun _ => hdollar⟩
  · rintro ⟨f, hgroup, h⟩
    exact ⟨_, (hx.subscribed_iff _).mpr ⟨f, rfl, hgroup, h.dollar hgroup, h.held⟩, h.filter, h.parent⟩

end Walk
end TopicsIndex

/-! ### The subscriptions that a run leaves -/

inductive SubOp where
  | subscribe (client : Bytes) (sub : Subscription)
  | unsubscribe (filter client : Bytes)

namespace SubOp

def filter : SubOp → Bytes
  | subscribe _ sub => sub.filter
  | unsubscribe f _ => f

def Accepted (op : SubOp) : Prop :=
  isValidFilter op.filter false = true ∧ isSharedFilter op.filter = false

end SubOp

def TopicsIndex.apply (x : TopicsIndex) : SubOp → TopicsIndex
  | .subscribe client sub => (x.subscribe client sub).2
  | .unsubscribe f client => (x.unsubscribe f client).2

def holds (held : Set (Bytes × Bytes)) : SubOp → Set (Bytes × Bytes)
  | .subscribe client sub => insert (client, sub.filter) held
  | .unsubscribe f client => held \ {(client, f)}

theorem subscribe_of_unshared {sub : Subscription}
    (h : isSharedFilter sub.filter = false) :
    (x.subscribe client sub).2 = x.set (levels sub.filter) fun n =>
      { n with subscriptions := n.subscriptions.insert client sub } := by
  unfold isSharedFilter at h
  rw [TopicsIndex.subscribe, if_neg (by rw [h]; decide), levelsFrom_zero]

theorem address_of_unshared {f : Bytes} (h : isSharedFilter f = false) : address f = ⟨none, levels f⟩ := by
  unfold isSharedFilter at h
  unfold address
  rw [if_neg (by rw [h]; decide), levelsFrom_zero]

theorem isSharedFilter_of_group {f : Bytes} (h : (address f).group = none) : isSharedFilter f = false := by
  unfold address at h
  split at h
  · cases h
  · rename_i hshared
    exact Bool.eq_false_of_not_eq_true hshared

theorem address_inj {f g : Bytes} (hf : (address f).group = none) (h : address f = address g) : f = g := by
  have hg : (address g).group = none := h ▸ hf
  rw [address_of_unshared (isSharedFilter_of_group hf), address_of_unshared (isSharedFilter_of_group hg)] at h
  exact levels_injective (Address.mk.inj h).2

def runSubOps (ops : List SubOp) : TopicsIndex := ops.foldl TopicsIndex.apply .new

def heldAfter (ops : List SubOp) : Set (Bytes × Bytes) := ops.foldl holds ∅

def Represents (x : TopicsIndex) (held : Set (Bytes × Bytes)) : Prop :=
  ∀ client f, (client, f) ∈ held ↔ (address f).group = none ∧ ∃ sub, x.held (address f) client = some sub

theorem Represents.apply (h : Represents x held) {op : SubOp} (hop : op.Accepted) :
    Represents (x.apply op) (holds held op) := by
  intro client f
  have hgroup : (address op.filter).group = none := congrArg Address.group (address_of_unshared hop.2)
  cases op with
  | subscribe client' sub =>
    show _ ∈ insert _ _ ↔ _ ∧ ∃ s, (x.subscribe client' sub).2.held _ _ = some s
    rw [Set.mem_insert_iff, h client f, TopicsIndex.held_subscribe]
    by_cases hat : address f = address sub.filter ∧ client = client'
    · rw [if_pos hat]
      have hf : f = sub.filter := (address_inj hgroup hat.1.symm).symm
      exact iff_of_true (.inl (by rw [hf, hat.2])) ⟨hat.1 ▸ hgroup, sub, rfl⟩
    · rw [if_neg hat, or_iff_right]
      rintro ⟨⟩
      exact hat ⟨rfl, rfl⟩
  | unsubscribe filter client' =>
    show _ ∈ held \ _ ↔ _ ∧ ∃ s, (x.unsubscribe filter client').2.held _ _ = some s
    rw [Set.mem_sdiff_singleton, h client f, TopicsIndex.held_unsubscribe]
    by_cases hat : address f = address filter ∧ client = client'
    · rw [if_pos hat]
      have hf : f = filter := (address_inj hgroup hat.1.symm).symm
      refine iff_of_false (fun hne => hne.2 (by rw [hf, hat.2])) ?_
      rintro ⟨-, s, hs⟩
      cases hs
    · rw [if_neg hat, and_iff_left]
      rintro ⟨⟩
      exact hat ⟨rfl, rfl⟩

theorem represents_run {ops : List SubOp} (hops : ∀ op ∈ ops, op.Accepted) :
    Represents (runSubOps ops) (heldAfter ops) := by
  refine List.foldl_rel (r := Represents) (fun client f => ?_) fun op hop _ _ h => h.apply (hops op hop)
  refine iff_of_false (Set.notMem_empty _) ?_
  rintro ⟨-, sub, hsub⟩
  rw [TopicsIndex.held_new] at hsub
  cases hsub

theorem placed_runSubOps (ops : List SubOp) : (runSubOps ops).Placed := by
  refine List.foldlRecOn (motive := TopicsIndex.Placed) ops TopicsIndex.apply ?_ fun x hx op _ => ?_
  · exact TopicsIndex.placed_foldl []
  · cases op with
    | subscribe client sub => exact hx.run (.subscribe client sub)
    | unsubscribe filter client => exact hx.run (.unsubscribe filter client)

theorem lists_iff_filterMatches (ops : List SubOp) (hops : ∀ op ∈ ops, op.Accepted) (topic : Bytes)
    (htopic : topic ≠ []) (hplus : plus ∉ topic) (hhash : hash ∉ topic) (client : Bytes) :
    Lists client ((runSubOps ops).subscribers topic) ↔ ∃ f, (client, f) ∈ heldAfter ops ∧
      (FilterMatches (levels f) (levels topic) ∧ ¬ ParentBehindPlus (levels f) (levels topic)) ∧
      DollarRule topic f := by
  have hplaced := placed_runSubOps ops
  rw [hplaced.lists_iff htopic hplus hhash]
  constructor
  · rintro ⟨f, hgroup, ⟨sub, hheld, -⟩, hfilter, hparent, hdollar⟩
    rw [address_of_unshared (isSharedFilter_of_group hgroup)] at hfilter hparent
    exact ⟨f, (represents_run hops client f).mpr ⟨hgroup, sub, hheld⟩, ⟨hfilter, hparent⟩, hdollar hgroup⟩
  · rintro ⟨f, hf, ⟨hfilter, hparent⟩, hdollar⟩
    obtain ⟨hgroup, sub, hheld⟩ := (represents_run hops client f).mp hf
    have hpath := congrArg Address.path (address_of_unshared (isSharedFilter_of_group hgroup))
    refine ⟨f, hgroup, ⟨sub, hheld, (address_inj hgroup (hplaced hheld)).symm⟩, ?_, ?_, fun _ => hdollar⟩
    · rw [hpath]
      exact hfilter
    · rw [hpath]
      exact hparent

/-- A client subscribed to `a/+` is listed for the topic `a/b`. -/
theorem lists_iff_filterMatches_ab : Lists [0x63]
    ((runSubOps [.subscribe [0x63] { filter := [0x61, 0x2F, 0x2B] }]).subscribers [0x61, 0x2F, 0x62]) := by
  have hlevels : levels [0x61, 0x2F, 0x2B] = [[0x61], [plus]] ∧ levels [0x61, 0x2F, 0x62] = [[0x61], [0x62]] := by
    decide +kernel
  refine (lists_iff_filterMatches _ ?_ _ (by decide) (by decide) (by decide) _).mpr
    ⟨[0x61, 0x2F, 0x2B], Set.mem_insert _ _, ⟨?_, ?_⟩, fun h => absurd h.1 (by decide)⟩
  · intro op hop
    rw [List.mem_singleton.mp hop]
    exact ⟨by decide, by decide⟩
  · rw [hlevels.1, hlevels.2]
    exact .inr ⟨.inr rfl, .inr ⟨.inl rfl, trivial⟩⟩
  · rw [hlevels.1, hlevels.2]
    exact fun h => absurd h.1 (by decide)

/-- A client that subscribes to `+/#` is not listed for the topic `a`. -/
theorem not_lists_parent_behind_plus : ¬ ∀ (ops : List SubOp), (∀ op ∈ ops, op.Accepted) →
    ∀ topic : Bytes, topic ≠ [] → plus ∉ topic → hash ∉ topic → ∀ client,
    (Lists client ((runSubOps ops).subscribers topic) ↔ ∃ f, (client, f) ∈ heldAfter ops ∧
      FilterMatches (levels f) (levels topic) ∧ DollarRule topic f) := by
  intro h
  have hops : ∀ op ∈ [SubOp.subscribe [0x63] { filter := [0x2B, 0x2F, 0x23] }], op.Accepted := by
    intro op hop
    rw [List.mem_singleton.mp hop]
    exact ⟨by decide, by decide⟩
  have hheld : ([0x63], [0x2B, 0x2F, 0x23]) ∈
      heldAfter [.subscribe [0x63] { filter := [0x2B, 0x2F, 0x23] }] := Set.mem_insert _ _
  have hlisted := (h _ hops [0x61] (by decide) (by decide) (by decide) [0x63]).mpr
    ⟨_, hheld, .inr ⟨.inl rfl, rfl, rfl⟩, by unfold DollarRule; decide⟩
  exact absurd hlisted (by unfold Subscribers.Lists; decide +kernel)

end Mqtt
