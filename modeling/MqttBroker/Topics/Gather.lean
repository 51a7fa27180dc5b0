import MqttBroker.Library.Iteration
import MqttBroker.Topics.Walk

/-! The three gather functions, observed: which clients, shared members and
inline identifiers a call adds to the result. -/

namespace Mqtt
open FiniteMap
namespace Subscribers

def Lists (client : Bytes) (subs : Subscribers) : Prop := client ∈ subs.subscriptions

def ListsShared (filter client : Bytes) (subs : Subscribers) : Prop :=
  ∃ members, subs.shared.lookup filter = some members ∧ client ∈ members

def ListsInline (id : Int) (subs : Subscribers) : Prop := id ∈ subs.inlineSubscriptions

/-! ### Ordinary subscriptions -/

variable {client topic filter : Bytes} {sub : Subscription} {subs : Subscribers} {l : List (Σ _ : Bytes, Subscription)}
  {n : Particle}

theorem lists_addSubscription {c : Bytes} : Lists client (subs.addSubscription topic c sub) ↔
      Lists client subs ∨ client = c ∧ skipsDollar topic sub.filter = false := by
  rw [addSubscription]
  split
  · rename_i hskip
    simp [hskip]
  · rename_i hskip
    have hkeep : skipsDollar topic sub.filter = false := by simpa using hskip
    simp only [Lists, AList.mem_insert, hkeep, and_true]
    exact or_comm

theorem lists_foldl :
    Lists client (l.foldl (fun subs e => subs.addSubscription topic e.1 e.2) subs) ↔
      Lists client subs ∨ ∃ sub, ⟨client, sub⟩ ∈ l ∧ skipsDollar topic sub.filter = false := by
  have hstep : ∀ (subs : Subscribers) (e : Σ _ : Bytes, Subscription),
      Lists client (subs.addSubscription topic e.1 e.2) ↔
      Lists client subs ∨ client = e.1 ∧ skipsDollar topic e.2.filter = false := fun _ _ => lists_addSubscription
  rw [foldl_iff_exists hstep]
  exact or_congr_right (exists_entry_iff (Q := fun sub : Subscription => skipsDollar topic sub.filter = false))

def Subscribed (topic client : Bytes) (n : Particle) : Prop :=
  ∃ sub, n.subscriptions.lookup client = some sub ∧ skipsDollar topic sub.filter = false

theorem lists_gatherSubscriptions :
    Lists client (gatherSubscriptions topic n subs) ↔ Lists client subs ∨ Subscribed topic client n := by
  rw [gatherSubscriptions, lists_foldl]
  have hlookup : ∀ sub, (⟨client, sub⟩ : Σ _ : Bytes, Subscription) ∈ n.subscriptions.entries ↔
      n.subscriptions.lookup client = some sub := fun sub => AList.mem_lookup_iff.symm
  simp only [Subscribed, hlookup]

theorem shared_foldl_subscriptions (l : List (Σ _ : Bytes, Subscription)) (subs : Subscribers) :
    (l.foldl (fun subs e => subs.addShared e.1 e.2) subs).subscriptions = subs.subscriptions := by
  induction l generalizing subs with
  | nil => rfl
  | cons e l ih => rw [List.foldl_cons, ih]; rfl

theorem gatherShared_subscriptions (n : Particle) (subs : Subscribers) :
    (gatherSharedSubscriptions n subs).subscriptions = subs.subscriptions := by
  unfold gatherSharedSubscriptions
  generalize n.shared.entries = l
  induction l generalizing subs with
  | nil => rfl
  | cons e l ih => rw [List.foldl_cons, ih, shared_foldl_subscriptions]

theorem lists_gather : Lists client (gather topic n subs) ↔ Lists client subs ∨ Subscribed topic client n := by
  have hframe : (gather topic n subs).subscriptions = (gatherSubscriptions topic n subs).subscriptions :=
    gatherShared_subscriptions _ _
  rw [← lists_gatherSubscriptions, Lists, Lists, hframe]

theorem lists_gatherWild {w : Particle} :
    Lists client (gatherWild topic n w subs) ↔ Lists client subs ∨ Subscribed topic client w := by
  have hframe : (gatherWild topic n w subs).subscriptions =
      (gatherSubscriptions topic w subs).subscriptions := gatherShared_subscriptions _ _
  rw [← lists_gatherSubscriptions, Lists, Lists, hframe]

theorem observation_lists (topic client : Bytes) :
    Observation topic (Lists client) (Subscribed topic client) (Subscribed topic client) where
  gather _ _ := lists_gather
  wild _ _ _ := by rw [lists_gatherWild, lists_gather, or_assoc]
  empty := by
    rintro ⟨sub, hsub, -⟩
    cases hsub
  emptyWild := by
    rintro ⟨sub, hsub, -⟩
    cases hsub

/-! ### Shared subscriptions -/

def SharedBy (filter client : Bytes) (n : Particle) : Prop :=
  ∃ group members sub, n.shared.lookup group = some members ∧ members.lookup client = some sub ∧
    sub.filter = filter

theorem listsShared_addShared {c : Bytes} :
    ListsShared filter client (subs.addShared c sub) ↔
      ListsShared filter client subs ∨ client = c ∧ sub.filter = filter := by
  simp only [ListsShared, addShared, lookup_insert_eq]
  by_cases hf : filter = sub.filter
  · subst hf
    simp only [if_true, Option.some.injEq, exists_eq_left', AList.mem_insert, and_true]
    cases hl : subs.shared.lookup sub.filter with
    | none => simp
    | some members => simpa using or_comm
  · have hne : sub.filter ≠ filter := fun h => hf h.symm
    simp [hf, hne]

theorem listsShared_foldl :
    ListsShared filter client (l.foldl (fun subs e => subs.addShared e.1 e.2) subs) ↔
      ListsShared filter client subs ∨ ∃ sub, ⟨client, sub⟩ ∈ l ∧ sub.filter = filter := by
  have hstep : ∀ (subs : Subscribers) (e : Σ _ : Bytes, Subscription),
      ListsShared filter client (subs.addShared e.1 e.2) ↔
      ListsShared filter client subs ∨ client = e.1 ∧ e.2.filter = filter := fun _ _ => listsShared_addShared
  rw [foldl_iff_exists hstep]
  exact or_congr_right (exists_entry_iff (Q := fun sub : Subscription => sub.filter = filter))

theorem listsShared_groups {filter client : Bytes} {l : List (Σ _ : Bytes, Map Bytes Subscription)}
    {order : (Σ _ : Bytes, Map Bytes Subscription) → List (Σ _ : Bytes, Subscription)}
    (horder : ∀ group a, a ∈ order group ↔ a ∈ group.2.entries) {subs : Subscribers} :
    ListsShared filter client
        (l.foldl (fun subs group => (order group).foldl (fun subs e => subs.addShared e.1 e.2) subs) subs) ↔
      ListsShared filter client subs ∨
        ∃ group ∈ l, ∃ sub, group.2.lookup client = some sub ∧ sub.filter = filter := by
  have hgroup : ∀ (subs : Subscribers) (group : Σ _ : Bytes, Map Bytes Subscription),
      ListsShared filter client ((order group).foldl (fun subs e => subs.addShared e.1 e.2) subs) ↔
        ListsShared filter client subs ∨ ∃ sub, group.2.lookup client = some sub ∧ sub.filter = filter := by
    intro subs group
    have hlookup : ∀ sub, (⟨client, sub⟩ : Σ _ : Bytes, Subscription) ∈ order group ↔
        group.2.lookup client = some sub := fun sub => (horder group _).trans AList.mem_lookup_iff.symm
    rw [listsShared_foldl]
    simp only [hlookup]
  exact foldl_iff_exists hgroup l subs

theorem sharedBy_iff :
    SharedBy filter client n ↔
      ∃ group ∈ n.shared.entries, ∃ sub, group.2.lookup client = some sub ∧ sub.filter = filter := by
  constructor
  · rintro ⟨group, members, sub, hm, hsub, hf⟩
    exact ⟨⟨group, members⟩, AList.mem_lookup_iff.mp hm, sub, hsub, hf⟩
  · rintro ⟨⟨group, members⟩, hm, sub, hsub, hf⟩
    exact ⟨group, members, sub, AList.mem_lookup_iff.mpr hm, hsub, hf⟩

theorem listsShared_gatherShared :
    ListsShared filter client (gatherSharedSubscriptions n subs) ↔
      ListsShared filter client subs ∨ SharedBy filter client n := by
  rw [gatherSharedSubscriptions, listsShared_groups fun _ _ => Iff.rfl, sharedBy_iff]

theorem foldl_addSubscription_frame (topic : Bytes) (l : List (Σ _ : Bytes, Subscription)) (subs : Subscribers) :
    (l.foldl (fun subs e => subs.addSubscription topic e.1 e.2) subs).shared = subs.shared ∧
      (l.foldl (fun subs e => subs.addSubscription topic e.1 e.2) subs).inlineSubscriptions =
        subs.inlineSubscriptions := by
  induction l generalizing subs with
  | nil => exact ⟨rfl, rfl⟩
  | cons e l ih =>
    have hstep : (subs.addSubscription topic e.1 e.2).shared = subs.shared ∧
        (subs.addSubscription topic e.1 e.2).inlineSubscriptions = subs.inlineSubscriptions := by
      unfold addSubscription
      split <;> exact ⟨rfl, rfl⟩
    rw [List.foldl_cons, (ih _).1, (ih _).2]
    exact hstep

theorem gatherSubscriptions_frame (topic : Bytes) (n : Particle) (subs : Subscribers) :
    (gatherSubscriptions topic n subs).shared = subs.shared ∧
      (gatherSubscriptions topic n subs).inlineSubscriptions = subs.inlineSubscriptions :=
  foldl_addSubscription_frame topic _ subs

theorem observation_listsShared (topic filter client : Bytes) :
    Observation topic (ListsShared filter client) (SharedBy filter client) (SharedBy filter client) := by
  have hgather : ∀ w subs, ListsShared filter client
      (gatherSharedSubscriptions w (gatherSubscriptions topic w subs)) ↔
      ListsShared filter client subs ∨ SharedBy filter client w := by
    intro w subs
    rw [listsShared_gatherShared, ListsShared, ListsShared, (gatherSubscriptions_frame topic w subs).1]
  refine ⟨fun n subs => hgather n subs, fun n w subs => ?_, ?_, ?_⟩
  · refine (hgather w _).trans ?_
    rw [← or_assoc]
    exact or_congr_left (hgather n subs)
  · rintro ⟨group, members, sub, hm, -⟩
    cases hm
  · rintro ⟨group, members, sub, hm, -⟩
    cases hm

/-! ### Inline subscriptions -/

theorem gatherShared_inline (n : Particle) (subs : Subscribers) :
    (gatherSharedSubscriptions n subs).inlineSubscriptions = subs.inlineSubscriptions := by
  have hinner : ∀ (l : List (Σ _ : Bytes, Subscription)) (subs : Subscribers),
      (l.foldl (fun subs e => subs.addShared e.1 e.2) subs).inlineSubscriptions = subs.inlineSubscriptions := by
    intro l
    induction l with
    | nil => exact fun _ => rfl
    | cons e l ih => intro subs; rw [List.foldl_cons, ih]; rfl
  unfold gatherSharedSubscriptions
  generalize n.shared.entries = l
  induction l generalizing subs with
  | nil => rfl
  | cons e l ih => rw [List.foldl_cons, ih, hinner]

/-- The inline subscribers of a topic, observed through an identifier. The particle `#` below the
last level contributes nothing: the inline subscriptions of its parent are gathered again. -/
theorem observation_listsInline (topic : Bytes) (id : Int) :
    Observation topic (ListsInline id) (fun n => id ∈ n.inlineSubscriptions) fun _ => False := by
  have hgather : ∀ n w subs, ListsInline id (gatherInlineSubscriptions n
      (gatherSharedSubscriptions w (gatherSubscriptions topic w subs))) ↔
      ListsInline id subs ∨ id ∈ n.inlineSubscriptions := by
    intro n w subs
    refine (mem_foldl_insert (fun e => e.1) (fun e => e.2) n.inlineSubscriptions.entries _ id).trans ?_
    rw [gatherShared_inline, (gatherSubscriptions_frame topic w subs).2]
    exact or_congr_right List.mem_map.symm
  refine ⟨fun n subs => hgather n n subs, fun n w subs => ?_, AList.notMem_empty id, not_false⟩
  refine (hgather n w _).trans ?_
  rw [gather, hgather n n subs]
  tauto

end Subscribers
end Mqtt
