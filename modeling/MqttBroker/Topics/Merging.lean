import MqttBroker.Topics.Orders
import MqttBroker.Topics.Count

/-! What is left of the subscriptions of a client when they are merged into one. Every
loop joins the subscriptions of a client in some order, so that the result is a join of
the ordinary ones that are gathered and of the shared ones that are selected; the join of
the selected ones is then merged as if it were one subscription. -/

namespace Mqtt
open FiniteMap Subscribers

/-! ### What is joined at a client -/

namespace TopicsIndex
variable (e : Orders) (x : TopicsIndex) (topic client : Bytes)

/-- The subscription of a client that `gatherSubscriptions` takes from a particle. -/
def gatheredFrom (n : Particle) : List Subscription :=
  (n.subscriptions.lookup client).toList.filter fun sub => !skipsDollar topic sub.filter

def ordinary : List Subscription := (scanned topic 0 x.root).flatMap fun step => gatheredFrom topic client step.1

/-- The choices of `SelectShared`: the first member of each group. -/
def selections (s : Subscribers) : List (Σ _ : Bytes, Subscription) :=
  (e.groups.order none s.shared).flatMap fun group => (e.clients.order (.members group.1) group.2).head?.toList

def selected : List Subscription := (selections e (x.subscribersIn e topic)).lookupAll client

def joinAll (cls : Option Subscription) (subs : List Subscription) : Option Subscription :=
  subs.foldl (fun cls sub => some (joined cls sub)) cls

variable {e x topic client}

theorem joinAll_append (cls : Option Subscription) (l l' : List Subscription) :
    joinAll cls (l ++ l') = joinAll (joinAll cls l) l' := List.foldl_append ..

theorem subscriptions_foldl_addSubscription (l : List (Σ _ : Bytes, Subscription)) (subs : Subscribers) :
    (l.foldl (fun subs a => subs.addSubscription topic a.1 a.2) subs).subscriptions =
      (l.filter fun a => !skipsDollar topic a.2.filter).foldl (fun m a => upsert joined m a.1 a.2)
        subs.subscriptions := by
  induction l generalizing subs with
  | nil => rfl
  | cons a l ih =>
    rw [List.foldl_cons, ih, List.filter_cons, addSubscription]
    cases skipsDollar topic a.2.filter <;> rfl

theorem subscriptions_foldl_addShared (step : Nat) (l : List (Σ _ : Bytes, Map Bytes Subscription))
    (subs : Subscribers) :
    (l.foldl (fun subs group => (e.clients.order (.shares step group.1) group.2).foldl
      (fun subs a => subs.addShared a.1 a.2) subs) subs).subscriptions = subs.subscriptions := by
  induction l generalizing subs with
  | nil => rfl
  | cons group l ih => rw [List.foldl_cons, ih, shared_foldl_subscriptions]

theorem lookup_gatherStepIn (subs : Subscribers) (step : (Particle × Particle) × Nat) :
    (gatherStepIn e topic subs step).subscriptions.lookup client =
      joinAll (subs.subscriptions.lookup client) (gatheredFrom topic client step.1.1) := by
  have hsubs : (gatherStepIn e topic subs step).subscriptions =
      ((e.clients.order (.subscriptions step.2) step.1.1.subscriptions).filter
        fun a => !skipsDollar topic a.2.filter).foldl (fun m a => upsert joined m a.1 a.2) subs.subscriptions :=
    (subscriptions_foldl_addShared _ _ _).trans (subscriptions_foldl_addSubscription _ _)
  rw [hsubs, lookup_foldl_upsert, lookupAll_filter client (fun sub : Subscription => !skipsDollar topic sub.filter),
    lookupAll_of_perm (e.clients.perm _ _)]
  rfl

theorem lookup_subscribersIn :
    (x.subscribersIn e topic).subscriptions.lookup client = joinAll none (x.ordinary topic client) := by
  have hrun : ∀ (l : List (Particle × Particle)) (i : Nat) (subs : Subscribers),
      ((l.zipIdx i).foldl (gatherStepIn e topic) subs).subscriptions.lookup client =
        joinAll (subs.subscriptions.lookup client) (l.flatMap fun step => gatheredFrom topic client step.1) := by
    intro l
    induction l with
    | nil => intro i subs; rfl
    | cons step l ih =>
      intro i subs
      rw [List.zipIdx_cons, List.foldl_cons, ih, lookup_gatherStepIn, List.flatMap_cons, joinAll_append]
  exact hrun _ 0 {}

theorem foldl_selectFirst (l : List (Σ _ : Bytes, Map Bytes Subscription)) (m : Map Bytes Subscription) :
    l.foldl (selectFirst e) m = (l.flatMap fun group => (e.clients.order (.members group.1) group.2).head?.toList).foldl
      (fun m a => upsert joined m a.1 a.2) m := by
  induction l generalizing m with
  | nil => rfl
  | cons group l ih =>
    rw [List.foldl_cons, ih, List.flatMap_cons, List.foldl_append, selectFirst]
    cases e.clients.order (.members group.1) group.2 <;> rfl

theorem lookup_selectShared (s : Subscribers) :
    (selectShared e s).sharedSelected.lookup client = joinAll none ((selections e s).lookupAll client) := by
  unfold selectShared
  rw [foldl_selectFirst, lookup_foldl_upsert]
  rfl

theorem lookup_mergedSubscribers : (x.mergedSubscribers e topic).subscriptions.lookup client =
    joinAll (joinAll none (x.ordinary topic client)) (joinAll none (x.selected e topic client)).toList := by
  have hshared : (selectShared e (x.subscribersIn e topic)).sharedSelected.lookup client = _ := lookup_selectShared _
  have hmerge : (x.mergedSubscribers e topic).subscriptions.lookup client =
      joinAll ((x.subscribersIn e topic).subscriptions.lookup client)
        ((selectShared e (x.subscribersIn e topic)).sharedSelected.lookup client).toList := by
    unfold mergedSubscribers mergeSharedSelected
    rw [lookup_foldl_upsert, lookupAll_of_perm (e.clients.perm _ _)]
    rfl
  rw [hmerge, hshared, lookup_subscribersIn]
  rfl

end TopicsIndex

/-! ### The join of subscriptions -/

section Joins
variable {l l' : List Subscription} {r t a : Subscription}

structure Summary (l : List Subscription) (r : Subscription) : Prop where
  qos_mem : ∃ s ∈ l, s.qos = r.qos
  qos_le : ∀ s ∈ l, s.qos ≤ r.qos
  noLocal : r.noLocal = true ↔ ∃ s ∈ l, s.noLocal = true

theorem Summary.self (t : Subscription) : Summary [t] t where
  qos_mem := ⟨t, List.mem_singleton_self t, rfl⟩
  qos_le s hs := by
    rw [List.mem_singleton.mp hs]
    exact UInt8.le_refl _
  noLocal := by simp

theorem Summary.congr (h : Summary l r) (hmem : ∀ s, s ∈ l ↔ s ∈ l') : Summary l' r := by
  obtain ⟨⟨s, hs, hqos⟩, hle, hlocal⟩ := h
  refine ⟨⟨s, (hmem s).mp hs, hqos⟩, fun s hs => hle s ((hmem s).mpr hs), hlocal.trans ?_⟩
  simp only [hmem]

theorem Summary.merge (h : Summary l r) (h' : Summary l' t) : Summary (l ++ l') (r.merge t) := by
  have hqos : (r.merge t).qos = if r.qos < t.qos then t.qos else r.qos := rfl
  refine ⟨?_, fun s hs => ?_, ?_⟩
  · rw [hqos]
    split
    · obtain ⟨s, hs, heq⟩ := h'.qos_mem
      exact ⟨s, List.mem_append_right _ hs, heq⟩
    · obtain ⟨s, hs, heq⟩ := h.qos_mem
      exact ⟨s, List.mem_append_left _ hs, heq⟩
  · rw [hqos]
    rcases List.mem_append.mp hs with hs | hs
    · have hle := h.qos_le s hs
      split
      · rename_i hlt
        exact UInt8.le_trans hle (UInt8.le_of_lt hlt)
      · exact hle
    · have hle := h'.qos_le s hs
      split
      · exact hle
      · rename_i hge
        exact UInt8.le_trans hle (UInt8.not_lt.mp hge)
  · have hlocal : (r.merge t).noLocal = (t.noLocal || r.noLocal) := rfl
    rw [hlocal, Bool.or_eq_true, h.noLocal, h'.noLocal]
    constructor
    · rintro (⟨s, hs, hl⟩ | ⟨s, hs, hl⟩)
      · exact ⟨s, List.mem_append_right _ hs, hl⟩
      · exact ⟨s, List.mem_append_left _ hs, hl⟩
    · rintro ⟨s, hs, hl⟩
      rcases List.mem_append.mp hs with hs | hs
      · exact .inr ⟨s, hs, hl⟩
      · exact .inl ⟨s, hs, hl⟩

/-- The map of identifiers has the positive identifiers of some subscriptions, by their filters. -/
def Identifies (l : List Subscription) (r : Subscription) : Prop :=
  ∃ ids, r.identifiers = some ids ∧
    ∀ f v, 0 < v → (ids.lookup f = some v ↔ ∃ s ∈ l, s.filter = f ∧ s.identifier = v)

theorem Identifies.congr (h : Identifies l r) (hmem : ∀ s, s ∈ l ↔ s ∈ l') : Identifies l' r := by
  obtain ⟨ids, hids, hlookup⟩ := h
  refine ⟨ids, hids, fun f v hv => (hlookup f v hv).trans ?_⟩
  simp only [hmem]

theorem Identifies.merge (h : Identifies l r) (hsame : ∀ s ∈ l, s.filter = t.filter → s.identifier = t.identifier) :
    Identifies (l ++ [t]) (r.merge t) := by
  obtain ⟨ids, hids, hlookup⟩ := h
  refine ⟨_, rfl, fun f v hv => ?_⟩
  rw [hids, Option.getD_some]
  have hsplit : (∃ s ∈ l ++ [t], s.filter = f ∧ s.identifier = v) ↔
      (∃ s ∈ l, s.filter = f ∧ s.identifier = v) ∨ t.filter = f ∧ t.identifier = v := by
    simp [or_and_right, exists_or]
  rw [hsplit, ← hlookup f v hv]
  split
  · -- the identifier is written at its filter, and what stood there is the same
    rw [lookup_insert_eq]
    split
    · rename_i hpos hf
      subst hf
      constructor
      · intro heq
        exact .inr ⟨rfl, Option.some.inj heq⟩
      · rintro (hold | ⟨-, rfl⟩)
        · obtain ⟨s, hs, hfilter, hid⟩ := (hlookup _ v hv).mp hold
          rw [← hid, hsame s hs hfilter]
        · rfl
    · rename_i hpos hf
      constructor
      · exact .inl
      · rintro (hold | ⟨rfl, -⟩)
        · exact hold
        · exact absurd rfl hf
  · rename_i hpos
    constructor
    · exact .inl
    · rintro (hold | ⟨-, rfl⟩)
      · exact hold
      · exact absurd hv hpos

theorem identifies_first (h : a.identifiers = none) : Identifies [a] (a.merge a) := by
  -- `Merge` makes the map with the receiver's identifier, then adds the argument's, which is the same
  let made : Subscription := { a with identifiers := some (AList.singleton a.filter a.identifier) }
  have hmade : a.merge a = made.merge a := by
    unfold Subscription.merge
    rw [h]
    rfl
  have hself : Identifies [a] made := by
    refine ⟨_, rfl, fun f v _ => ?_⟩
    rw [← AList.insert_empty, lookup_insert_eq]
    split
    · rename_i hf
      simp [hf]
    · rename_i hf
      simp [Ne.symm hf]
  rw [hmade]
  have htwice := hself.merge (t := a) fun s hs _ => by rw [List.mem_singleton.mp hs]
  exact htwice.congr fun s => by simp

/-- A subscription that is the join of some: with the filter and the identifier of the first, as `Merge` keeps them. -/
structure JoinOf (l : List Subscription) (r : Subscription) : Prop extends Summary l r where
  identifies : Identifies l r
  head : ∃ a, l.head? = some a ∧ r.filter = a.filter ∧ r.identifier = a.identifier

theorem JoinOf.merge (h : JoinOf l r) (hsame : ∀ s ∈ l, s.filter = t.filter → s.identifier = t.identifier) :
    JoinOf (l ++ [t]) (r.merge t) := by
  obtain ⟨a, ha, hfilter, hid⟩ := h.head
  refine ⟨h.toSummary.merge (.self t), h.identifies.merge hsame, a, ?_, hfilter, hid⟩
  rw [List.head?_append, ha]
  rfl

theorem joinOf_first (h : a.identifiers = none) : JoinOf [a] (a.merge a) where
  toSummary := ((Summary.self a).merge (Summary.self a)).congr fun s => by simp
  identifies := identifies_first h
  head := ⟨a, rfl, rfl, rfl⟩

def OneIdentifier (l : List Subscription) : Prop :=
  ∀ s ∈ l, ∀ t ∈ l, s.filter = t.filter → s.identifier = t.identifier

theorem OneIdentifier.mono (h : OneIdentifier l') (hsub : l ⊆ l') : OneIdentifier l :=
  fun s hs t ht => h s (hsub hs) t (hsub ht)

theorem JoinOf.joinAll (h : JoinOf l r) (hsame : OneIdentifier (l ++ l')) :
    ∃ r', TopicsIndex.joinAll (some r) l' = some r' ∧ JoinOf (l ++ l') r' := by
  induction l' generalizing l r with
  | nil => exact ⟨r, rfl, by rwa [List.append_nil]⟩
  | cons t l' ih =>
    have hsplit : l ++ t :: l' = (l ++ [t]) ++ l' := by rw [List.append_assoc, List.singleton_append]
    have hstep : JoinOf (l ++ [t]) (r.merge t) :=
      h.merge fun s hs => hsame s (List.mem_append_left _ hs) t (List.mem_append_right _ List.mem_cons_self)
    rw [hsplit] at hsame ⊢
    exact ih hstep hsame

theorem exists_joinOf (hne : l ≠ []) (hnone : ∀ s ∈ l, s.identifiers = none) (hsame : OneIdentifier l) :
    ∃ r, TopicsIndex.joinAll none l = some r ∧ JoinOf l r := by
  cases l with
  | nil => exact absurd rfl hne
  | cons a l => exact (joinOf_first (hnone a List.mem_cons_self)).joinAll hsame

structure MergedOf (l : List Subscription) (r : Subscription) : Prop extends Summary l r where
  identifiers : ∀ v, 0 < v →
    ((∃ ids f, r.identifiers = some ids ∧ ids.lookup f = some v) ↔ ∃ s ∈ l, s.identifier = v)

theorem Identifies.exists_lookup_iff (h : Identifies l r) {v : Int} (hv : 0 < v) :
    (∃ ids f, r.identifiers = some ids ∧ ids.lookup f = some v) ↔ ∃ s ∈ l, s.identifier = v := by
  obtain ⟨ids, hids, hlookup⟩ := h
  constructor
  · rintro ⟨ids', f, hids', hf⟩
    obtain rfl : ids = ids' := Option.some.inj (hids.symm.trans hids')
    obtain ⟨s, hs, -, hid⟩ := (hlookup f v hv).mp hf
    exact ⟨s, hs, hid⟩
  · rintro ⟨s, hs, hid⟩
    exact ⟨ids, s.filter, hids, (hlookup s.filter v hv).mpr ⟨s, hs, rfl, hid⟩⟩

theorem mergedOf_iff (hsum : Summary l r) (hids : Identifies l' r) :
    MergedOf l r ↔ ∀ v, 0 < v → ((∃ s ∈ l', s.identifier = v) ↔ ∃ s ∈ l, s.identifier = v) := by
  constructor
  · intro h v hv
    rw [← hids.exists_lookup_iff hv]
    exact h.identifiers v hv
  · intro h
    refine ⟨hsum, fun v hv => ?_⟩
    rw [hids.exists_lookup_iff hv]
    exact h v hv

theorem JoinOf.mergedOf_merge_iff {j : Subscription} (h : JoinOf l r) (h' : JoinOf l' j)
    (hsame : OneIdentifier (l ++ l')) : MergedOf (l ++ l') (r.merge j) ↔
      ∀ s ∈ l', 0 < s.identifier →
        (∃ o ∈ l, o.identifier = s.identifier) ∨ ∃ a ∈ l'.head?, a.identifier = s.identifier := by
  obtain ⟨a, ha, hfilter, hid⟩ := h'.head
  have hmem : a ∈ l' := List.mem_of_head? ha
  -- of the selected subscriptions only what the join has as its own identifier is added
  have hids : Identifies (l ++ [j]) (r.merge j) := by
    refine h.identifies.merge fun s hs hsfilter => ?_
    rw [hid]
    exact hsame s (List.mem_append_left _ hs) a (List.mem_append_right _ hmem) (hsfilter.trans hfilter)
  rw [mergedOf_iff (h.toSummary.merge h'.toSummary) hids]
  constructor
  · intro hall s hs hpos
    obtain ⟨o, ho, heq⟩ := (hall s.identifier hpos).mpr ⟨s, List.mem_append_right _ hs, rfl⟩
    rcases List.mem_append.mp ho with ho | ho
    · exact .inl ⟨o, ho, heq⟩
    · rw [List.mem_singleton.mp ho, hid] at heq
      exact .inr ⟨a, ha, heq⟩
  · intro hall v hv
    constructor
    · rintro ⟨s, hs, rfl⟩
      rcases List.mem_append.mp hs with hs | hs
      · exact ⟨s, List.mem_append_left _ hs, rfl⟩
      · rw [List.mem_singleton.mp hs, hid]
        exact ⟨a, List.mem_append_right _ hmem, rfl⟩
    · rintro ⟨s, hs, rfl⟩
      rcases List.mem_append.mp hs with hs | hs
      · exact ⟨s, List.mem_append_left _ hs, rfl⟩
      · rcases hall s hs hv with ⟨o, ho, heq⟩ | ⟨b, hb, heq⟩
        · exact ⟨o, List.mem_append_left _ ho, heq⟩
        · obtain rfl : a = b := Option.some.inj (ha.symm.trans hb)
          exact ⟨j, List.mem_append_right _ (List.mem_singleton_self j), hid.trans heq⟩

theorem JoinOf.mergedOf (h : JoinOf l r) : MergedOf l r :=
  (mergedOf_iff h.toSummary h.identifies).mpr fun _ _ => Iff.rfl

theorem JoinOf.mergedOf_self (h : JoinOf l r) (hsame : OneIdentifier l) : MergedOf l (r.merge r) := by
  have hdouble : OneIdentifier (l ++ l) :=
    hsame.mono (List.append_subset.mpr ⟨List.Subset.refl l, List.Subset.refl l⟩)
  have htwice := (h.mergedOf_merge_iff h hdouble).mpr fun s hs _ => .inl ⟨s, hs, rfl⟩
  refine ⟨htwice.toSummary.congr fun s => by simp, fun v hv => (htwice.identifiers v hv).trans ?_⟩
  simp

end Joins

/-! ### The subscriptions in the index -/

def IndexCall.Plain : IndexCall → Prop
  | .subscribe _ sub => sub.identifiers = none
  | _ => True

namespace TopicsIndex
variable {x : TopicsIndex} {e : Orders} {topic client : Bytes}

structure Filed (x : TopicsIndex) : Prop where
  placed : Placed x
  plain : ∀ {a client sub}, x.held a client = some sub → sub.identifiers = none

variable {sub : Subscription} {n : ParticleTrie}

theorem filed_foldl {calls : List IndexCall} (hplain : ∀ call ∈ calls, call.Plain) :
    Filed (calls.foldl IndexCall.run new) := by
  refine ⟨placed_foldl calls, ?_⟩
  refine List.foldlRecOn (motive := fun x : TopicsIndex => ∀ {a client sub}, x.held a client = some sub →
    sub.identifiers = none) calls IndexCall.run ?_ ?_
  · intro a client sub h
    rw [held_new] at h
    cases h
  · intro x hx call hcall a client sub h
    rcases held_run_cases h with hold | ⟨rfl, -⟩
    · exact hx hold
    · exact hplain _ hcall

/-! ### Where the gathered subscriptions stand -/

theorem mem_below {β : Type} {k : Bytes} {f : ParticleTrie → List β} {b : β}
    (h : b ∈ below n k f) : ∃ p, n.child? k = some p ∧ b ∈ f p := by
  unfold below at h
  cases hchild : n.child? k with
  | none =>
    rw [hchild] at h
    exact absurd h List.not_mem_nil
  | some p =>
    rw [hchild] at h
    exact ⟨p, rfl, h⟩

theorem valueAt_of_child? {p : ParticleTrie} {k : Bytes} (h : n.child? k = some p) (path : List Bytes) :
    n.valueAt Particle.empty (k :: path) = p.valueAt Particle.empty path := by
  rw [Trie.valueAt_cons, h]
  rfl

theorem exists_valueAt_of_mem_scanned {d : Nat} {step : Particle × Particle}
    (h : step ∈ scanned topic d n) : ∃ path, n.valueAt Particle.empty path = step.1 := by
  have hhere : ∀ {n : ParticleTrie}, step ∈ below n [hash] (fun p => [(p.value, p.value)]) →
      ∃ path, n.valueAt Particle.empty path = step.1 := by
    intro n hstep
    obtain ⟨p, hchild, hp⟩ := mem_below hstep
    rw [List.mem_singleton.mp hp]
    exact ⟨[[hash]], valueAt_of_child? hchild []⟩
  have hlast : ∀ {n : ParticleTrie} {k key : Bytes}, step ∈ below n k (lastParticles key) →
      ∃ path, n.valueAt Particle.empty path = step.1 := by
    intro n k key hstep
    obtain ⟨p, hchild, hp⟩ := mem_below hstep
    rcases List.mem_cons.mp hp with rfl | hp
    · exact ⟨[k], valueAt_of_child? hchild []⟩
    · cases hwild : p.child? [hash] with
      | none =>
        rw [hwild] at hp
        exact absurd hp List.not_mem_nil
      | some wild =>
        rw [hwild] at hp
        dsimp only at hp
        split at hp
        · rw [List.mem_singleton.mp hp]
          exact ⟨[k, [hash]], (valueAt_of_child? hchild _).trans (valueAt_of_child? hwild [])⟩
        · exact absurd hp List.not_mem_nil
  fun_induction scanned topic d n with
  | case1 d n hempty => exact absurd h List.not_mem_nil
  | case2 d n hempty key wild hnext ih =>
    have hdown : ∀ {k : Bytes}, step ∈ below n k (fun p => scanned topic (d + 1) p) →
        ∃ path, n.valueAt Particle.empty path = step.1 := by
      intro k hstep
      obtain ⟨p, hchild, hp⟩ := mem_below hstep
      obtain ⟨path, hpath⟩ := ih p hp
      exact ⟨k :: path, (valueAt_of_child? hchild path).trans hpath⟩
    rcases List.mem_append.mp h with h | h
    · rcases List.mem_append.mp h with h | h
      · exact hdown h
      · exact hdown h
    · exact hhere h
  | case3 d n hempty key wild hnext =>
    rcases List.mem_append.mp h with h | h
    · rcases List.mem_append.mp h with h | h
      · exact hlast h
      · exact hlast h
    · exact hhere h

def HeldAt (x : TopicsIndex) (client : Bytes) (sub : Subscription) : Prop :=
  x.held (Mqtt.address sub.filter) client = some sub

theorem Filed.heldAt (h : Filed x) {a : Address} (hsub : x.held a client = some sub) : HeldAt x client sub := by
  unfold HeldAt
  rw [← h.placed hsub]
  exact hsub

theorem Filed.heldAt_of_ordinary (h : Filed x) (hsub : sub ∈ x.ordinary topic client) : HeldAt x client sub := by
  obtain ⟨step, hstep, hmem⟩ := List.mem_flatMap.mp hsub
  obtain ⟨path, hpath⟩ := exists_valueAt_of_mem_scanned hstep
  have hlookup : step.1.subscriptions.lookup client = some sub :=
    Option.mem_toList.mp (List.mem_filter.mp hmem).1
  rw [← hpath] at hlookup
  exact h.heldAt (a := ⟨none, path⟩) hlookup

/-- Every group that is gathered has a member, and its members are subscriptions of the index with its filter. -/
def Keyed (x : TopicsIndex) (subs : Subscribers) : Prop :=
  ∀ f members, subs.shared.lookup f = some members → (∃ client, client ∈ members) ∧
    ∀ client sub, members.lookup client = some sub → sub.filter = f ∧ ∃ a, x.held a client = some sub

variable {subs : Subscribers}

theorem Keyed.congr {subs' : Subscribers} (h : Keyed x subs) (hsame : subs'.shared = subs.shared) : Keyed x subs' := by
  unfold Keyed
  rw [hsame]
  exact h

theorem Keyed.addShared (h : Keyed x subs) {a : Address} (hsub : x.held a client = some sub) :
    Keyed x (subs.addShared client sub) := by
  intro f members hf
  rw [Subscribers.addShared, lookup_insert_eq] at hf
  split at hf
  · rename_i hfilter
    obtain rfl := Option.some.inj hf
    refine ⟨⟨client, (AList.mem_insert _).mpr (.inl rfl)⟩, fun client' sub' hmember => ?_⟩
    rw [lookup_insert_eq] at hmember
    split at hmember
    · rename_i hclient
      obtain rfl := Option.some.inj hmember
      exact ⟨hfilter.symm, a, hclient ▸ hsub⟩
    · cases hold : subs.shared.lookup sub.filter with
      | none =>
        rw [hold] at hmember
        cases hmember
      | some members =>
        rw [hold] at hmember
        rw [hfilter]
        exact (h _ members hold).2 client' sub' hmember
  · exact h f members hf

theorem keyed_subscribersIn : Keyed x (x.subscribersIn e topic) := by
  refine List.foldlRecOn (motive := Keyed x) _ _ (fun _ _ hf => nomatch hf) ?_
  rintro subs hsubs ⟨step, i⟩ hstep
  obtain ⟨path, hpath⟩ := exists_valueAt_of_mem_scanned (List.fst_mem_of_mem_zipIdx hstep)
  have hfirst : Keyed x ((e.clients.order (.subscriptions i) step.1.subscriptions).foldl
      (fun subs a => subs.addSubscription topic a.1 a.2) subs) :=
    hsubs.congr (Subscribers.foldl_addSubscription_frame topic _ subs).1
  refine Keyed.congr (List.foldlRecOn (motive := Keyed x) (e.groups.order (some i) step.1.shared) (fun subs group =>
    (e.clients.order (.shares i group.1) group.2).foldl (fun subs a => subs.addShared a.1 a.2) subs) hfirst ?_) rfl
  intro subs hsubs group hgroup
  refine List.foldlRecOn (motive := Keyed x) _ _ hsubs fun subs hsubs a ha =>
    hsubs.addShared (a := ⟨some group.1, path⟩) ?_
  have hmembers : step.1.shared.lookup group.1 = some group.2 :=
    AList.mem_lookup_iff.mpr (e.groups.mem_order.mp hgroup)
  have hmember : group.2.lookup a.1 = some a.2 := AList.mem_lookup_iff.mpr (e.clients.mem_order.mp ha)
  have hget : step.1.shared.get group.1 a.1 = some a.2 := by
    unfold SharedSubscriptions.get
    rw [hmembers]
    exact hmember
  rw [← hpath] at hget
  exact hget

theorem mem_selections {member : Σ _ : Bytes, Subscription} (h : member ∈ selections e (x.subscribersIn e topic)) :
    ListsShared member.2.filter member.1 (x.subscribersIn e topic) ∧ ∃ a, x.held a member.1 = some member.2 := by
  obtain ⟨group, hgroup, hhead⟩ := List.mem_flatMap.mp h
  have hmembers : (x.subscribersIn e topic).shared.lookup group.1 = some group.2 :=
    AList.mem_lookup_iff.mpr (e.groups.mem_order.mp hgroup)
  have hmember : group.2.lookup member.1 = some member.2 :=
    AList.mem_lookup_iff.mpr (e.clients.mem_order.mp (List.mem_of_head? (Option.mem_toList.mp hhead)))
  obtain ⟨hfilter, hheld⟩ := (keyed_subscribersIn group.1 group.2 hmembers).2 member.1 member.2 hmember
  rw [hfilter]
  exact ⟨⟨group.2, hmembers, AList.lookup_isSome.mp (by rw [hmember]; rfl)⟩, hheld⟩

theorem Filed.heldAt_of_selected (h : Filed x) (hsub : sub ∈ x.selected e topic client) : HeldAt x client sub := by
  obtain ⟨-, a, ha⟩ := mem_selections (List.mem_lookupAll.mp hsub)
  exact h.heldAt ha

theorem oneIdentifier_of_heldAt {l : List Subscription} (h : ∀ s ∈ l, HeldAt x client s) : OneIdentifier l := by
  intro s hs t ht hfilter
  have hboth : some s = some t := by rw [← h s hs, ← h t ht, hfilter]
  rw [Option.some.inj hboth]

/-- Overlapping subscriptions are merged: the QoS and no-local always, and the identifiers unless the client has an
ordinary subscription and is selected for a group whose identifier is neither one of an ordinary subscription nor that
of the first group it is selected for. -/
theorem mergedOf_subscriptions_iff (calls : List IndexCall) (hplain : ∀ call ∈ calls, call.Plain) (e : Orders)
    (topic client : Bytes) :
    let x := calls.foldl IndexCall.run new
    (∀ r, (x.mergedSubscribers e topic).subscriptions.lookup client = some r →
        MergedOf (x.ordinary topic client ++ x.selected e topic client) r) ↔
      (x.ordinary topic client ≠ [] → ∀ s ∈ x.selected e topic client, 0 < s.identifier →
        (∃ o ∈ x.ordinary topic client, o.identifier = s.identifier) ∨
          ∃ a ∈ (x.selected e topic client).head?, a.identifier = s.identifier) := by
  intro x
  have hx : Filed x := filed_foldl hplain
  have hheld : ∀ s ∈ x.ordinary topic client ++ x.selected e topic client, HeldAt x client s := by
    intro s hs
    rcases List.mem_append.mp hs with hs | hs
    · exact hx.heldAt_of_ordinary hs
    · exact hx.heldAt_of_selected hs
  have hnone : ∀ s ∈ x.ordinary topic client ++ x.selected e topic client, s.identifiers = none :=
    fun s hs => hx.plain (hheld s hs)
  have hsame := oneIdentifier_of_heldAt hheld
  rw [lookup_mergedSubscribers]
  generalize x.ordinary topic client = l at hnone hsame ⊢
  generalize x.selected e topic client = l' at hnone hsame ⊢
  by_cases hl : l = []
  · subst hl
    refine iff_of_true (fun r hr => ?_) (fun h => absurd rfl h)
    by_cases hl' : l' = []
    · subst hl'
      cases hr
    · obtain ⟨j, hj, hjoin⟩ := exists_joinOf hl' hnone hsame
      rw [hj] at hr
      obtain rfl := Option.some.inj hr
      exact hjoin.mergedOf_self hsame
  · obtain ⟨r, hr, hjoin⟩ := exists_joinOf hl (fun s hs => hnone s (List.mem_append_left _ hs))
      (hsame.mono (List.subset_append_left l l'))
    rw [hr]
    by_cases hl' : l' = []
    · subst hl'
      refine iff_of_true (fun r' hr' => ?_) (fun _ s hs => absurd hs List.not_mem_nil)
      obtain rfl := Option.some.inj hr'
      rw [List.append_nil]
      exact hjoin.mergedOf
    · obtain ⟨j, hj, hjoin'⟩ := exists_joinOf hl' (fun s hs => hnone s (List.mem_append_right _ hs))
        (hsame.mono (List.subset_append_right l l'))
      rw [hj]
      have hone : (∀ r', joinAll (some r) (some j).toList = some r' → MergedOf (l ++ l') r') ↔
          MergedOf (l ++ l') (r.merge j) :=
        ⟨fun h => h _ rfl, fun h r' hr' => by rwa [← Option.some.inj hr']⟩
      rw [hone, hjoin.mergedOf_merge_iff hjoin' hsame]
      exact ⟨fun h _ => h, fun h => h hl⟩

/-- A client `c` with the subscriptions `a`, `$share/g/a` and, with another identifier, `$share/h/a`. -/
def overlapping (other : Int) : List IndexCall :=
  [.subscribe [99] { filter := [97], identifier := 1, qos := 1 },
    .subscribe [99] { filter := [36, 115, 104, 97, 114, 101, 47, 103, 47, 97], identifier := 2, noLocal := true },
    .subscribe [99] { filter := [36, 115, 104, 97, 114, 101, 47, 104, 47, 97], identifier := other, qos := 2 }]

theorem overlapping_plain (other : Int) : ∀ call ∈ overlapping other, call.Plain := by
  intro call hcall
  simp only [overlapping, List.mem_cons, List.not_mem_nil, or_false] at hcall
  rcases hcall with rfl | rfl | rfl <;> rfl

/-- With one identifier for both groups nothing is lost. -/
theorem mergedOf_one_identifier :
    let x := (overlapping 2).foldl IndexCall.run new
    ∃ r, (x.mergedSubscribers .stored [97]).subscriptions.lookup [99] = some r ∧
      MergedOf (x.ordinary [97] [99] ++ x.selected .stored [97] [99]) r := by
  intro x
  have hboth : x.selected .stored [97] [99] ≠ [] ∧ ∀ s ∈ x.selected .stored [97] [99], s.identifier = 2 := by
    decide +kernel
  obtain ⟨a, ha⟩ := Option.ne_none_iff_exists'.mp (mt List.head?_eq_none_iff.mp hboth.1)
  have hcond := (mergedOf_subscriptions_iff (overlapping 2) (overlapping_plain 2) .stored [97] [99]).mpr
    fun _ s hs _ => .inr ⟨a, ha, (hboth.2 a (List.mem_of_head? ha)).trans (hboth.2 s hs).symm⟩
  have hsome : ((x.mergedSubscribers .stored [97]).subscriptions.lookup [99]).isSome = true := by decide +kernel
  obtain ⟨r, hr⟩ := Option.isSome_iff_exists.mp hsome
  exact ⟨r, hr, hcond r hr⟩

/-- With two, the second is missing: three subscriptions are merged, and the result has two identifiers. -/
theorem selected_identifier_lost :
    let x := (overlapping 3).foldl IndexCall.run new
    (x.ordinary [97] [99] ++ x.selected .stored [97] [99]).map (·.identifier) = [1, 2, 3] ∧
      ∃ r, (x.mergedSubscribers .stored [97]).subscriptions.lookup [99] = some r ∧
        r.identifiers.map (fun ids => ids.entries.map fun entry => entry.2) = some [2, 1] ∧
        ¬ MergedOf (x.ordinary [97] [99] ++ x.selected .stored [97] [99]) r := by
  intro x
  have hall : (x.ordinary [97] [99] ++ x.selected .stored [97] [99]).map (·.identifier) = [1, 2, 3] := by
    decide +kernel
  have hmerged : ((x.mergedSubscribers .stored [97]).subscriptions.lookup [99]).map (fun r =>
      r.identifiers.map fun ids => ids.entries.map fun entry => entry.2) = some (some [2, 1]) := by decide +kernel
  obtain ⟨r, hr, hids⟩ := Option.map_eq_some_iff.mp hmerged
  refine ⟨hall, r, hr, hids, fun h => ?_⟩
  have hthird : ∃ s ∈ x.ordinary [97] [99] ++ x.selected .stored [97] [99], s.identifier = 3 := by
    rw [← List.mem_map, hall]
    decide
  obtain ⟨ids, f, hsome, hf⟩ := (h.identifiers 3 (by decide)).mpr hthird
  rw [hsome] at hids
  have htwo : ids.entries.map (fun entry => entry.2) = [2, 1] := Option.some.inj hids
  have hvalue : (3 : Int) ∈ ids.entries.map fun entry => entry.2 := List.mem_map_of_mem (AList.mem_lookup_iff.mp hf)
  rw [htwo] at hvalue
  exact absurd hvalue (by decide)

end TopicsIndex
end Mqtt
