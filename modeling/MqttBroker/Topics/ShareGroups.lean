import MqttBroker.Topics.Matching
import MqttBroker.Topics.Merging

/-! The share groups of a topic and the members selected for them. The index keeps a
group under its name at the particle of its filter, whatever the spelling of the share
prefix; the gathered members are grouped by the text of their filters. -/

namespace Mqtt
open FiniteMap Subscribers

namespace TopicsIndex
variable {x : TopicsIndex} {e : Orders} {topic f client : Bytes} {subs : Subscribers}

/-- The members that `SelectShared` selects on behalf of a share group. -/
def selectedFor (e : Orders) (x : TopicsIndex) (topic : Bytes) (a : Address) : List (Σ _ : Bytes, Subscription) :=
  (selections e (x.subscribersIn e topic)).filter fun member => address member.2.filter = a

/-! ### The groups that are gathered -/

theorem listsShared_subscribersIn : ListsShared f client (x.subscribersIn e topic) ↔
    ∃ step ∈ (scanned topic 0 x.root).zipIdx, SharedBy f client step.1.1 := by
  have hstep : ∀ (subs : Subscribers) (step : (Particle × Particle) × Nat),
      ListsShared f client (gatherStepIn e topic subs step) ↔
        ListsShared f client subs ∨ SharedBy f client step.1.1 := by
    intro subs step
    let first := (e.clients.order (.subscriptions step.2) step.1.1.subscriptions).foldl
      (fun subs a => subs.addSubscription topic a.1 a.2) subs
    have hfirst : ListsShared f client first ↔ ListsShared f client subs := by
      unfold ListsShared
      rw [(foldl_addSubscription_frame topic _ subs).1]
    have hgroups := @listsShared_groups f client (e.groups.order (some step.2) step.1.1.shared)
      (fun group => e.clients.order (.shares step.2 group.1) group.2) (fun _ _ => e.clients.mem_order) first
    simp only [e.groups.mem_order, ← sharedBy_iff, hfirst] at hgroups
    exact hgroups
  have hnone : ¬ ListsShared f client {} := by
    rintro ⟨members, h, -⟩
    cases h
  exact (foldl_iff_exists hstep _ _).trans (or_iff_right hnone)

-- who is listed does not depend on the iteration orders
theorem Placed.listsShared_subscribersIn_iff (hx : Placed x) (htopic : topic ≠ []) (hplus : plus ∉ topic)
    (hhash : hash ∉ topic) :
    ListsShared f client (x.subscribersIn e topic) ↔ (address f).group ≠ none ∧ Matches x topic client f := by
  rw [← hx.listsShared_iff htopic hplus hhash, subscribers_eq_stored, listsShared_subscribersIn,
    listsShared_subscribersIn]

theorem Keyed.map_selections (h : Keyed x subs) : (selections e subs).map (fun member => member.2.filter) =
    (e.groups.order none subs.shared).map Sigma.fst := by
  unfold selections
  rw [List.map_flatMap, List.map_eq_flatMap]
  refine List.flatMap_congr fun group hgroup => ?_
  obtain ⟨⟨client, hclient⟩, hfilter⟩ := h group.1 group.2 (AList.mem_lookup_iff.mpr (e.groups.mem_order.mp hgroup))
  -- the first member in the iteration order is taken, and a group that was gathered has one
  cases horder : e.clients.order (.members group.1) group.2 with
  | nil =>
    obtain ⟨sub, hsub⟩ := Option.isSome_iff_exists.mp (AList.lookup_isSome.mpr hclient)
    have hmem : (⟨client, sub⟩ : Σ _ : Bytes, Subscription) ∈ e.clients.order (.members group.1) group.2 :=
      e.clients.mem_order.mpr (AList.mem_lookup_iff.mp hsub)
    rw [horder] at hmem
    exact absurd hmem List.not_mem_nil
  | cons member rest =>
    have hmem : member ∈ e.clients.order (.members group.1) group.2 := horder ▸ List.mem_cons_self
    have hlookup : group.2.lookup member.1 = some member.2 := AList.mem_lookup_iff.mpr (e.clients.mem_order.mp hmem)
    show [member.2.filter] = [group.1]
    rw [(hfilter member.1 member.2 hlookup).1]

theorem nodup_selections : ((selections e (x.subscribersIn e topic)).map fun member => member.2.filter).Nodup := by
  have hkeys : ((x.subscribersIn e topic).shared.entries.map Sigma.fst).Nodup :=
    (x.subscribersIn e topic).shared.nodupKeys
  rw [keyed_subscribersIn.map_selections]
  exact ((e.groups.perm none _).map Sigma.fst).nodup_iff.mpr hkeys

theorem exists_mem_selections (h : ListsShared f client (x.subscribersIn e topic)) :
    ∃ member ∈ selections e (x.subscribersIn e topic), member.2.filter = f := by
  obtain ⟨members, hmembers, -⟩ := h
  have hkey : f ∈ (selections e (x.subscribersIn e topic)).map fun member => member.2.filter := by
    rw [keyed_subscribersIn.map_selections]
    exact List.mem_map.mpr ⟨⟨f, members⟩, e.groups.mem_order.mpr (AList.mem_lookup_iff.mp hmembers), rfl⟩
  exact List.mem_map.mp hkey

def texts (e : Orders) (x : TopicsIndex) (topic : Bytes) (a : Address) : List Bytes :=
  (selectedFor e x topic a).map fun member => member.2.filter

theorem mem_texts {a : Address} : f ∈ texts e x topic a ↔
    (∃ client, ListsShared f client (x.subscribersIn e topic)) ∧ address f = a := by
  unfold texts selectedFor
  rw [List.mem_map]
  constructor
  · rintro ⟨member, hmember, rfl⟩
    obtain ⟨hmember, haddress⟩ := List.mem_filter.mp hmember
    exact ⟨⟨member.1, (mem_selections hmember).1⟩, of_decide_eq_true haddress⟩
  · rintro ⟨⟨client, hclient⟩, rfl⟩
    obtain ⟨member, hmember, rfl⟩ := exists_mem_selections hclient
    exact ⟨member, List.mem_filter.mpr ⟨hmember, decide_eq_true rfl⟩, rfl⟩

/-- Exactly one member is selected on behalf of a share group that has a member whose filter matches the topic, exactly
if the filter does not end in `+/#` with the topic one level above, and all members wrote their filters in one way. -/
theorem selectedFor_length_eq_one_iff (calls : List IndexCall) (e : Orders) (topic : Bytes) (htopic : topic ≠ [])
    (hplus : plus ∉ topic) (hhash : hash ∉ topic) (name : Bytes) (path : List Bytes)
    (hmember : ∃ client, (calls.foldl IndexCall.run new).held ⟨some name, path⟩ client ≠ none)
    (hmatches : FilterMatches path (levels topic)) :
    (selectedFor e (calls.foldl IndexCall.run new) topic ⟨some name, path⟩).length = 1 ↔
      ¬ ParentBehindPlus path (levels topic) ∧ ∀ client sub client' sub',
        (calls.foldl IndexCall.run new).held ⟨some name, path⟩ client = some sub →
        (calls.foldl IndexCall.run new).held ⟨some name, path⟩ client' = some sub' → sub.filter = sub'.filter := by
  have hplaced : Placed (calls.foldl IndexCall.run new) := placed_foldl calls
  generalize calls.foldl IndexCall.run new = x at hplaced hmember
  obtain ⟨client, hclient⟩ := hmember
  obtain ⟨sub, hsub⟩ := Option.ne_none_iff_exists'.mp hclient
  -- one member is selected for each text of a filter, and no text occurs twice: the texts are counted
  have hlength : (selectedFor e x topic ⟨some name, path⟩).length = (texts e x topic ⟨some name, path⟩).length :=
    (List.length_map _).symm
  have hmem : ∀ f, f ∈ texts e x topic ⟨some name, path⟩ ↔ ¬ ParentBehindPlus path (levels topic) ∧
      ∃ client sub, x.held ⟨some name, path⟩ client = some sub ∧ sub.filter = f := by
    intro f
    rw [mem_texts]
    simp only [hplaced.listsShared_subscribersIn_iff htopic hplus hhash]
    constructor
    · rintro ⟨⟨client, -, ⟨sub, hheld, hfilter⟩, -, hparent, -⟩, haddress⟩
      rw [haddress] at hheld hparent
      exact ⟨hparent, client, sub, hheld, hfilter⟩
    · rintro ⟨hparent, client, sub, hheld, rfl⟩
      have haddress := hplaced hheld
      refine ⟨⟨client, ?_, ⟨sub, haddress ▸ hheld, rfl⟩, haddress ▸ hmatches, haddress ▸ hparent, ?_⟩, haddress.symm⟩
      · rw [← haddress]
        exact Option.some_ne_none _
      · rw [← haddress]
        exact nofun
  rw [hlength]
  constructor
  · intro hone
    obtain ⟨f, hf⟩ := List.length_eq_one_iff.mp hone
    have hparent := ((hmem f).mp (hf ▸ List.mem_singleton_self f)).1
    have htext : ∀ client sub, x.held ⟨some name, path⟩ client = some sub → sub.filter = f := by
      intro client sub hheld
      have hlisted := (hmem sub.filter).mpr ⟨hparent, client, sub, hheld, rfl⟩
      rw [hf] at hlisted
      exact List.mem_singleton.mp hlisted
    exact ⟨hparent, fun c s c' s' hs hs' => (htext c s hs).trans (htext c' s' hs').symm⟩
  · rintro ⟨hparent, hsame⟩
    have hnodup : (texts e x topic ⟨some name, path⟩).Nodup := nodup_selections.sublist (List.filter_sublist.map _)
    have hperm : (texts e x topic ⟨some name, path⟩).Perm [sub.filter] := by
      refine (List.perm_ext_iff_of_nodup hnodup (List.nodup_singleton _)).mpr fun f => ?_
      rw [hmem, List.mem_singleton]
      constructor
      · rintro ⟨-, client', sub', hheld, rfl⟩
        exact hsame client' sub' client sub hheld hsub
      · rintro rfl
        exact ⟨hparent, client, sub, hsub, rfl⟩
    exact hperm.length_eq

/-- Two clients of the share group `g` of the filter `a`, which write the share prefix as given. -/
def sharing (p p' : Bytes) : List IndexCall :=
  [.subscribe [99] { filter := p ++ [47, 103, 47, 97] }, .subscribe [100] { filter := p' ++ [47, 103, 47, 97] }]

theorem filter_of_sharing {p p' : Bytes} {a : Address} {sub : Subscription}
    (h : ((sharing p p').foldl IndexCall.run new).held a client = some sub) :
    sub.filter = p ++ [47, 103, 47, 97] ∨ sub.filter = p' ++ [47, 103, 47, 97] := by
  unfold sharing at h
  rw [List.foldl_cons, List.foldl_cons, List.foldl_nil] at h
  rcases held_run_cases h with h | ⟨heq, -⟩
  · rcases held_run_cases h with h | ⟨heq, -⟩
    · rw [held_new] at h
      cases h
    · injection heq with _ hsub
      exact .inl (congrArg Subscription.filter hsub).symm
  · injection heq with _ hsub
    exact .inr (congrArg Subscription.filter hsub).symm

theorem filterMatches_a : FilterMatches [[97]] (levels [97]) := by
  have hlevels : levels [97] = [[97]] := by decide +kernel
  rw [hlevels]
  exact .inr ⟨.inr rfl, trivial⟩

/-- Both write `$SHARE`. -/
theorem selectedFor_one_spelling : (selectedFor .stored ((sharing sharePrefix sharePrefix).foldl IndexCall.run new) [97]
    ⟨some [103], [[97]]⟩).length = 1 := by
  refine (selectedFor_length_eq_one_iff _ .stored [97] (by decide) (by decide) (by decide) [103] [[97]]
    ⟨[99], ?_⟩ filterMatches_a).mpr ⟨fun h => absurd h.1 (by decide +kernel), ?_⟩
  · exact Option.isSome_iff_ne_none.mp (by decide +kernel)
  · intro client sub client' sub' h h'
    rw [(filter_of_sharing h).elim id id, (filter_of_sharing h').elim id id]

/-- One writes `$SHARE` and the other `$share`: each of them is selected for the group. -/
theorem selectedFor_two_spellings :
    address (sharePrefix ++ [47, 103, 47, 97]) = ⟨some [103], [[97]]⟩ ∧
      address ([36, 115, 104, 97, 114, 101] ++ [47, 103, 47, 97]) = ⟨some [103], [[97]]⟩ ∧
      FilterMatches [[97]] (levels [97]) ∧
      (selectedFor .stored ((sharing sharePrefix [36, 115, 104, 97, 114, 101]).foldl IndexCall.run new) [97]
        ⟨some [103], [[97]]⟩).map Sigma.fst = [[99], [100]] := by
  exact ⟨by decide +kernel, by decide +kernel, filterMatches_a, by decide +kernel⟩

end TopicsIndex
end Mqtt
