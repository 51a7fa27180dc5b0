import MqttBroker.Topics.Index
import Mathlib.Algebra.Order.BigOperators.Group.List
import Mathlib.Algebra.Order.Group.Nat

/-! The topic index as flat tables. Each call changes what one particle holds and
trims the path it has emptied, so that the trie holds what four independent maps
hold, and nothing else. -/

namespace Mqtt
open FiniteMap

/-! ### Addresses -/

structure Address where
  group : Option Bytes
  path : List Bytes
  deriving DecidableEq

def address (filter : Bytes) : Address :=
  if equalFold (isolateParticle filter 0).1 sharePrefix then
    ⟨some (isolateParticle filter 1).1, levelsFrom filter 2⟩
  else ⟨none, levelsFrom filter 0⟩

theorem path_address_ne_nil (filter : Bytes) : (address filter).path ≠ [] := by
  unfold address
  split
  · exact levelsFrom_ne_nil
  · exact levelsFrom_ne_nil

def Particle.held (n : Particle) (group : Option Bytes) (client : Bytes) : Option Subscription :=
  match group with
  | some group => n.shared.get group client
  | none => n.subscriptions.lookup client

namespace SharedSubscriptions

theorem get_add (s : SharedSubscriptions) (group id group' id' : Bytes) (sub : Subscription) :
    (s.add group id sub).get group' id' = if group' = group ∧ id' = id then some sub else s.get group' id' := by
  unfold add get
  rw [lookup_insert_eq]
  by_cases hg : group' = group
  · subst hg
    rw [if_pos rfl, Option.bind_some, lookup_insert_eq]
    by_cases hid : id' = id
    · rw [if_pos hid, if_pos ⟨rfl, hid⟩]
    · rw [if_neg hid, if_neg (fun h => hid h.2)]
      cases s.lookup group' <;> rfl
  · rw [if_neg hg, if_neg (fun h => hg h.1)]

theorem get_delete (s : SharedSubscriptions) (group id group' id' : Bytes) :
    (s.delete group id).get group' id' = if group' = group ∧ id' = id then none else s.get group' id' := by
  have hmembers : ∀ id', (AList.erase id ((s.lookup group).getD ∅)).lookup id' =
      if id' = id then none else s.get group id' := by
    intro id'
    rw [lookup_erase_eq]
    unfold get
    cases s.lookup group <;> rfl
  unfold delete
  dsimp only
  by_cases hg : group' = group
  · subst hg
    have hrest : ((if size (AList.erase id ((s.lookup group').getD ∅)) = 0 then AList.erase group' s else
        AList.insert group' (AList.erase id ((s.lookup group').getD ∅)) s) : SharedSubscriptions).get group' id' =
        (AList.erase id ((s.lookup group').getD ∅)).lookup id' := by
      unfold get
      split
      · rename_i hzero
        rw [lookup_erase_eq, if_pos rfl, size_eq_zero_iff.mp hzero id']
        rfl
      · rw [lookup_insert_eq, if_pos rfl]
        rfl
    rw [hrest, hmembers]
    by_cases hid : id' = id
    · rw [if_pos hid, if_pos ⟨rfl, hid⟩]
    · rw [if_neg hid, if_neg (fun h => hid h.2)]
  · have hother : (if group' = group ∧ id' = id then none else s.get group' id') = s.get group' id' :=
      if_neg fun h => hg h.1
    rw [hother]
    unfold get
    split
    · rw [lookup_erase_eq, if_neg hg]
    · rw [lookup_insert_eq, if_neg hg]

variable {s : SharedSubscriptions}

theorem exists_get_of_len_ne_zero (h : s.len ≠ 0) : ∃ group id, s.get group id ≠ none := by
  by_contra hnone
  push Not at hnone
  apply h
  unfold len
  refine (List.sum_eq_zero_iff (M := ℕ)).mpr fun n hn => ?_
  obtain ⟨members, hmem, rfl⟩ := List.mem_map.mp hn
  obtain ⟨group, hgroup⟩ := mem_values_iff.mp hmem
  refine size_eq_zero_iff.mpr fun id => ?_
  have hid := hnone group id
  unfold get at hid
  rw [hgroup] at hid
  exact hid

theorem len_ne_zero_of_get {group id : Bytes} (h : s.get group id ≠ none) : s.len ≠ 0 := by
  intro hzero
  unfold get at h
  cases hgroup : s.lookup group with
  | none =>
    rw [hgroup] at h
    exact h rfl
  | some members =>
    rw [hgroup] at h
    have hsize : size members = 0 :=
      (List.sum_eq_zero_iff (M := ℕ)).mp hzero _ (List.mem_map_of_mem (mem_values_iff.mpr ⟨group, hgroup⟩))
    exact h (size_eq_zero_iff.mp hsize id)

end SharedSubscriptions

namespace Particle

theorem exists_held_of_not_isEmpty {n : Particle} (h : n.isEmpty = false) :
    (∃ group client, n.held group client ≠ none) ∨ (∃ id, n.inlineSubscriptions.lookup id ≠ none) ∨
      n.retainPath ≠ [] := by
  by_contra hnone
  push Not at hnone
  obtain ⟨hheld, hinline, hretain⟩ := hnone
  have hsubs : size n.subscriptions = 0 := size_eq_zero_iff.mpr fun client => hheld none client
  have hshared : n.shared.len = 0 := by
    by_contra hlen
    obtain ⟨group, id, hget⟩ := SharedSubscriptions.exists_get_of_len_ne_zero hlen
    exact hget (hheld (some group) id)
  have hsize : size n.inlineSubscriptions = 0 := size_eq_zero_iff.mpr hinline
  unfold isEmpty at h
  rw [hretain, hsubs, hshared, hsize] at h
  cases h

theorem isEmpty_eq_false_of_held {n : Particle} {group : Option Bytes} {client : Bytes}
    (h : n.held group client ≠ none) : n.isEmpty = false := by
  unfold isEmpty
  cases group with
  | none =>
    have hsize : size n.subscriptions ≠ 0 := fun hzero => h (size_eq_zero_iff.mp hzero client)
    rw [Bool.and_eq_false_iff, beq_eq_false_iff_ne]
    exact .inr (by omega)
  | some group =>
    have hlen : n.shared.len ≠ 0 := SharedSubscriptions.len_ne_zero_of_get h
    rw [Bool.and_eq_false_iff, beq_eq_false_iff_ne]
    exact .inr (by omega)

theorem isEmpty_eq_false_of_inline {n : Particle} (h : size n.inlineSubscriptions ≠ 0) : n.isEmpty = false := by
  unfold isEmpty
  rw [Bool.and_eq_false_iff, beq_eq_false_iff_ne]
  exact .inr (by omega)

theorem isEmpty_eq_false_of_retainPath {n : Particle} (h : n.retainPath ≠ []) : n.isEmpty = false := by
  unfold isEmpty
  rw [Bool.and_eq_false_iff, List.isEmpty_eq_false_iff]
  exact .inl h

theorem held_of_isEmpty {n : Particle} (h : n.isEmpty = true) (group : Option Bytes) (client : Bytes) :
    n.held group client = none := by
  by_contra hsome
  rw [isEmpty_eq_false_of_held hsome] at h
  cases h

def addHeld (group : Option Bytes) (client : Bytes) (sub : Subscription) (n : Particle) : Particle :=
  match group with
  | some group => { n with shared := n.shared.add group client sub }
  | none => { n with subscriptions := n.subscriptions.insert client sub }

def dropHeld (group : Option Bytes) (client : Bytes) (n : Particle) : Particle :=
  match group with
  | some group => { n with shared := n.shared.delete group client }
  | none => { n with subscriptions := n.subscriptions.erase client }

theorem held_addHeld (group group' : Option Bytes) (client client' : Bytes) (sub : Subscription) (n : Particle) :
    (n.addHeld group client sub).held group' client' =
      if group' = group ∧ client' = client then some sub else n.held group' client' := by
  cases group with
  | none =>
    cases group' with
    | none => simpa [addHeld, held] using lookup_insert_eq n.subscriptions client client' sub
    | some group' => simp [addHeld, held]
  | some group =>
    cases group' with
    | none => simp [addHeld, held]
    | some group' => simpa [addHeld, held] using SharedSubscriptions.get_add n.shared group client group' client' sub

theorem held_dropHeld (group group' : Option Bytes) (client client' : Bytes) (n : Particle) :
    (n.dropHeld group client).held group' client' =
      if group' = group ∧ client' = client then none else n.held group' client' := by
  cases group with
  | none =>
    cases group' with
    | none => simpa [dropHeld, held] using lookup_erase_eq n.subscriptions client client'
    | some group' => simp [dropHeld, held]
  | some group =>
    cases group' with
    | none => simp [dropHeld, held]
    | some group' => simpa [dropHeld, held] using SharedSubscriptions.get_delete n.shared group client group' client'

end Particle

namespace Particle

variable (group : Option Bytes) (client : Bytes) (sub : Subscription) (n : Particle)

@[simp] theorem inlineSubscriptions_addHeld :
    (n.addHeld group client sub).inlineSubscriptions = n.inlineSubscriptions := by
  cases group <;> rfl

@[simp] theorem inlineSubscriptions_dropHeld :
    (n.dropHeld group client).inlineSubscriptions = n.inlineSubscriptions := by
  cases group <;> rfl

@[simp] theorem retainPath_addHeld : (n.addHeld group client sub).retainPath = n.retainPath := by
  cases group <;> rfl

@[simp] theorem retainPath_dropHeld : (n.dropHeld group client).retainPath = n.retainPath := by
  cases group <;> rfl

theorem dropHeld_empty (group : Option Bytes) (client : Bytes) : empty.dropHeld group client = empty := by
  have herase : ∀ {V : Type} (k : Bytes), AList.erase k (∅ : Map Bytes V) = ∅ := fun k => AList.ext rfl
  cases group with
  | none =>
    show ({ empty with subscriptions := AList.erase client ∅ } : Particle) = empty
    rw [herase]
    rfl
  | some group =>
    have hdelete : SharedSubscriptions.delete ∅ group client = ∅ := by
      have hnone : size (AList.erase client (((∅ : SharedSubscriptions).lookup group).getD ∅)) = 0 := rfl
      unfold SharedSubscriptions.delete
      dsimp only
      rw [if_pos hnone]
      exact herase group
    show ({ empty with shared := SharedSubscriptions.delete ∅ group client } : Particle) = empty
    rw [hdelete]
    rfl

end Particle

/-! ### Calls -/

namespace TopicsIndex

def held (x : TopicsIndex) (a : Address) (client : Bytes) : Option Subscription :=
  (x.particle a.path).held a.group client

theorem subscribe_eq (x : TopicsIndex) (client : Bytes) (sub : Subscription) :
    x.subscribe client sub = ((x.held (address sub.filter) client).isNone,
      x.set (address sub.filter).path (Particle.addHeld (address sub.filter).group client sub)) := by
  unfold subscribe held address
  split <;> rfl

theorem unsubscribe_eq (x : TopicsIndex) (filter client : Bytes) :
    x.unsubscribe filter client =
      match x.seek (address filter).path with
      | none => (false, x)
      | some _ => (true, (x.set (address filter).path
          (Particle.dropHeld (address filter).group client)).trim (address filter).path) := by
  unfold unsubscribe address
  cases equalFold (isolateParticle filter 0).1 sharePrefix <;> rfl

theorem particle_of_seek_eq_none {x : TopicsIndex} {path : List Bytes} (h : x.seek path = none) :
    x.particle path = Particle.empty := by
  unfold particle Trie.valueAt
  rw [show x.root.find? path = none from h]
  rfl

end TopicsIndex

inductive IndexCall where
  | subscribe (client : Bytes) (sub : Subscription)
  | unsubscribe (filter client : Bytes)
  | inlineSubscribe (sub : InlineSubscription)
  | inlineUnsubscribe (id : Int) (filter : Bytes)
  | retainMessage (pk : Packet)

namespace IndexCall

def run (x : TopicsIndex) : IndexCall → TopicsIndex
  | subscribe client sub => (x.subscribe client sub).2
  | unsubscribe filter client => (x.unsubscribe filter client).2
  | inlineSubscribe sub => (x.inlineSubscribe sub).2
  | inlineUnsubscribe id filter => (x.inlineUnsubscribe id filter).2
  | retainMessage pk => (x.retainMessage pk).2

def Named : IndexCall → Prop
  | subscribe _ sub => sub.filter ≠ []
  | unsubscribe filter _ => filter ≠ []
  | inlineSubscribe sub => sub.filter ≠ []
  | inlineUnsubscribe _ filter => filter ≠ []
  | retainMessage pk => pk.topicName ≠ []

def path : IndexCall → List Bytes
  | subscribe _ sub => (address sub.filter).path
  | unsubscribe filter _ => (address filter).path
  | inlineSubscribe sub => levelsFrom sub.filter 0
  | inlineUnsubscribe _ filter => levelsFrom filter 0
  | retainMessage pk => levelsFrom pk.topicName 0

def change : IndexCall → Particle → Particle
  | subscribe client sub => Particle.addHeld (address sub.filter).group client sub
  | unsubscribe filter client => Particle.dropHeld (address filter).group client
  | inlineSubscribe sub => fun n =>
    { n with inlineSubscriptions := n.inlineSubscriptions.insert sub.identifier sub }
  | inlineUnsubscribe id _ => fun n => { n with inlineSubscriptions := n.inlineSubscriptions.erase id }
  | retainMessage pk => fun n => { n with retainPath := if pk.payload.length > 0 then pk.topicName else [] }

theorem root_run (call : IndexCall) (x : TopicsIndex) :
    (call.run x).root = x.root.alter Particle.empty call.change call.path ∧
        (call.Named → (call.change (x.particle call.path)).isEmpty = false) ∨
      (call.run x).root = (x.root.alter Particle.empty call.change call.path).trim Particle.isEmpty call.path ∨
      (call.run x).root = x.root ∧ x.particle call.path = Particle.empty ∧
        call.change Particle.empty = Particle.empty := by
  cases call with
  | subscribe client sub =>
    refine .inl ⟨?_, fun _ => ?_⟩
    · show (x.subscribe client sub).2.root = _
      rw [TopicsIndex.subscribe_eq]
      rfl
    · have hheld : ((subscribe client sub).change (x.particle (subscribe client sub).path)).held
          (address sub.filter).group client = some sub :=
        (Particle.held_addHeld _ _ _ _ _ _).trans (if_pos ⟨rfl, rfl⟩)
      exact Particle.isEmpty_eq_false_of_held (hheld.trans_ne (Option.some_ne_none sub))
  | unsubscribe filter client =>
    show (x.unsubscribe filter client).2.root = _ ∧ _ ∨ (x.unsubscribe filter client).2.root = _ ∨
      (x.unsubscribe filter client).2.root = _ ∧ _
    rw [TopicsIndex.unsubscribe_eq]
    cases hseek : x.seek (address filter).path with
    | none => exact .inr (.inr ⟨rfl, TopicsIndex.particle_of_seek_eq_none hseek, Particle.dropHeld_empty _ _⟩)
    | some n => exact .inr (.inl rfl)
  | inlineSubscribe sub =>
    refine .inl ⟨rfl, fun _ => Particle.isEmpty_eq_false_of_inline ?_⟩
    intro hzero
    have hnone := size_eq_zero_iff.mp hzero sub.identifier
    have hsome := lookup_insert_eq (x.particle (levelsFrom sub.filter 0)).inlineSubscriptions sub.identifier
      sub.identifier sub
    rw [if_pos rfl] at hsome
    exact absurd (hnone.symm.trans hsome) nofun
  | inlineUnsubscribe id filter =>
    show (x.inlineUnsubscribe id filter).2.root = _ ∧ _ ∨ (x.inlineUnsubscribe id filter).2.root = _ ∨
      (x.inlineUnsubscribe id filter).2.root = _ ∧ _
    unfold TopicsIndex.inlineUnsubscribe
    dsimp only
    cases hseek : x.seek (levelsFrom filter 0) with
    | none =>
      refine .inr (.inr ⟨rfl, TopicsIndex.particle_of_seek_eq_none hseek, ?_⟩)
      have herase : AList.erase id (∅ : InlineSubscriptions) = ∅ := AList.ext rfl
      show ({ Particle.empty with inlineSubscriptions := AList.erase id ∅ } : Particle) = Particle.empty
      rw [herase]
      rfl
    | some n =>
      have hvalue : x.particle (levelsFrom filter 0) = n.value := by
        unfold TopicsIndex.particle Trie.valueAt
        rw [show x.root.find? (levelsFrom filter 0) = some n from hseek]
        rfl
      dsimp only
      split
      · exact .inr (.inl rfl)
      · rename_i hsize
        refine .inl ⟨rfl, fun _ => Particle.isEmpty_eq_false_of_inline ?_⟩
        show size ((x.particle (levelsFrom filter 0)).inlineSubscriptions.erase id) ≠ 0
        rw [hvalue]
        exact hsize
  | retainMessage pk =>
    show (x.retainMessage pk).2.root = _ ∧ _ ∨ (x.retainMessage pk).2.root = _ ∨
      (x.retainMessage pk).2.root = _ ∧ _
    unfold TopicsIndex.retainMessage
    dsimp only
    split
    · rename_i hpayload
      have hchange : (retainMessage pk).change = fun n => { n with retainPath := pk.topicName } := by
        funext n
        show ({ n with retainPath := _ } : Particle) = _
        rw [if_pos hpayload]
      rw [hchange]
      exact .inl ⟨rfl, fun hnamed => Particle.isEmpty_eq_false_of_retainPath hnamed⟩
    · rename_i hpayload
      have hchange : (retainMessage pk).change = fun n => { n with retainPath := [] } := by
        funext n
        show ({ n with retainPath := _ } : Particle) = _
        rw [if_neg hpayload]
      rw [hchange]
      exact .inr (.inl rfl)

theorem observe_run {β : Type} {g : Particle → β} (hg : ∀ n : Particle, n.isEmpty = true → g n = g Particle.empty)
    (call : IndexCall) (x : TopicsIndex) (q : List Bytes) :
    g ((call.run x).particle q) = g (if q = call.path then call.change (x.particle call.path) else x.particle q) := by
  have halter : (x.root.alter Particle.empty call.change call.path).valueAt Particle.empty q =
      if q = call.path then call.change (x.particle call.path) else x.particle q := Trie.valueAt_alter _ _ _ _ _
  unfold TopicsIndex.particle at halter ⊢
  obtain ⟨hroot, -⟩ | hroot | ⟨hroot, hnone, hchange⟩ := root_run call x
  · rw [hroot, halter]
  · rw [hroot, Trie.map_valueAt_trim hg, halter]
  · unfold TopicsIndex.particle at hnone
    rw [hroot, hnone, hchange]
    split
    · rename_i hq
      rw [hq, hnone]
    · rfl

theorem trimmed_run {call : IndexCall} (hnamed : call.Named) {x : TopicsIndex}
    (h : x.root.Trimmed Particle.isEmpty) : (call.run x).root.Trimmed Particle.isEmpty := by
  obtain ⟨hroot, hholds⟩ | hroot | ⟨hroot, -⟩ := root_run call x
  · rw [hroot]
    exact (h.alter _ _ _ (hholds hnamed)).2
  · rw [hroot]
    exact h.trim_alter _ _ _
  · rw [hroot]
    exact h

end IndexCall

/-! ### Tables -/

structure Tables where
  subscriptions : Map (List Bytes × Bytes) Subscription := ∅
  shared : Map (List Bytes × Bytes × Bytes) Subscription := ∅
  inlineSubscriptions : Map (List Bytes × Int) InlineSubscription := ∅
  retained : Map Bytes Packet := ∅

namespace Tables

def held (t : Tables) (a : Address) (client : Bytes) : Option Subscription :=
  match a.group with
  | some group => t.shared.lookup (a.path, group, client)
  | none => t.subscriptions.lookup (a.path, client)

def apply (t : Tables) : IndexCall → Tables
  | .subscribe client sub =>
    match address sub.filter with
    | ⟨some group, path⟩ => { t with shared := t.shared.insert (path, group, client) sub }
    | ⟨none, path⟩ => { t with subscriptions := t.subscriptions.insert (path, client) sub }
  | .unsubscribe filter client =>
    match address filter with
    | ⟨some group, path⟩ => { t with shared := t.shared.erase (path, group, client) }
    | ⟨none, path⟩ => { t with subscriptions := t.subscriptions.erase (path, client) }
  | .inlineSubscribe sub =>
    { t with inlineSubscriptions := t.inlineSubscriptions.insert (levelsFrom sub.filter 0, sub.identifier) sub }
  | .inlineUnsubscribe id filter =>
    { t with inlineSubscriptions := t.inlineSubscriptions.erase (levelsFrom filter 0, id) }
  | .retainMessage pk =>
    if pk.payload.length > 0 then { t with retained := t.retained.insert pk.topicName pk }
    else { t with retained := t.retained.erase pk.topicName }

def HoldsAt (t : Tables) (path : List Bytes) : Prop :=
  (∃ client, t.subscriptions.lookup (path, client) ≠ none) ∨
    (∃ group client, t.shared.lookup (path, group, client) ≠ none) ∨
    (∃ id, t.inlineSubscriptions.lookup (path, id) ≠ none) ∨
    ∃ topic, levels topic = path ∧ t.retained.lookup topic ≠ none

end Tables

structure Refines (x : TopicsIndex) (t : Tables) : Prop where
  subscriptions : ∀ path client, (x.particle path).subscriptions.lookup client = t.subscriptions.lookup (path, client)
  shared : ∀ path group client, (x.particle path).shared.get group client = t.shared.lookup (path, group, client)
  inlineSubscriptions : ∀ path id,
    (x.particle path).inlineSubscriptions.lookup id = t.inlineSubscriptions.lookup (path, id)
  retained : ∀ topic, x.retained.lookup topic = t.retained.lookup topic

/-- The paths of retained messages are set where the tables have a message, and the trie is trimmed. -/
structure Consistent (x : TopicsIndex) (t : Tables) : Prop extends Refines x t where
  retainPath : ∀ path, (x.particle path).retainPath = [] ∨
    levels (x.particle path).retainPath = path ∧ t.retained.lookup (x.particle path).retainPath ≠ none
  trimmed : x.root.Trimmed Particle.isEmpty

variable {x : TopicsIndex}

theorem Refines.held {t : Tables} (h : Refines x t) (a : Address) (client : Bytes) :
    x.held a client = t.held a client := by
  obtain ⟨_ | group, path⟩ := a
  · exact h.subscriptions path client
  · exact h.shared path group client

/-! ### What each call changes -/

namespace IndexCall

def heldAfter (call : IndexCall) (a : Address) (client : Bytes) (before : Option Subscription) : Option Subscription :=
  match call with
  | subscribe client' sub => if a = address sub.filter ∧ client = client' then some sub else before
  | unsubscribe filter client' => if a = address filter ∧ client = client' then none else before
  | _ => before

theorem ite_address {β : Type} (a b : Address) (P : Prop) [Decidable P] (u v : β) :
    (if a = b ∧ P then u else v) = if a.path = b.path then (if a.group = b.group ∧ P then u else v) else v := by
  obtain ⟨group, path⟩ := a
  obtain ⟨group', path'⟩ := b
  by_cases hpath : path = path'
  · simp [hpath]
  · simp [hpath]

theorem held_run (call : IndexCall) (x : TopicsIndex) (a : Address) (client : Bytes) :
    (call.run x).held a client = call.heldAfter a client (x.held a client) := by
  have hobs : ((call.run x).particle a.path).held a.group client =
      (if a.path = call.path then call.change (x.particle call.path) else x.particle a.path).held a.group client :=
    observe_run (fun n hn =>
      (Particle.held_of_isEmpty hn _ _).trans (Particle.held_of_isEmpty rfl _ _).symm) call x a.path
  unfold TopicsIndex.held
  rw [hobs]
  cases call with
  | subscribe client' sub =>
    show _ = if a = address sub.filter ∧ client = client' then _ else _
    rw [ite_address]
    by_cases hpath : a.path = (subscribe client' sub).path
    · rw [if_pos hpath, hpath]
      exact (Particle.held_addHeld _ _ _ _ _ _).trans (if_pos rfl).symm
    · rw [if_neg hpath]
      exact (if_neg hpath).symm
  | unsubscribe filter client' =>
    show _ = if a = address filter ∧ client = client' then _ else _
    rw [ite_address]
    by_cases hpath : a.path = (unsubscribe filter client').path
    · rw [if_pos hpath, hpath]
      exact (Particle.held_dropHeld _ _ _ _ _).trans (if_pos rfl).symm
    · rw [if_neg hpath]
      exact (if_neg hpath).symm
  | inlineSubscribe | inlineUnsubscribe | retainMessage =>
    split
    · rename_i hpath
      rw [hpath]
      rfl
    · rfl

theorem held_apply (call : IndexCall) (t : Tables) (a : Address) (client : Bytes) :
    (t.apply call).held a client = call.heldAfter a client (t.held a client) := by
  obtain ⟨group, path⟩ := a
  cases call with
  | subscribe client' sub =>
    show (match address sub.filter with | ⟨some g, p⟩ => _ | ⟨none, p⟩ => _ : Tables).held _ _ = if _ then _ else _
    obtain ⟨group', path'⟩ := address sub.filter
    cases group' <;> cases group <;> simp [Tables.held, lookup_insert_eq, and_left_comm, and_assoc]
  | unsubscribe filter client' =>
    show (match address filter with | ⟨some g, p⟩ => _ | ⟨none, p⟩ => _ : Tables).held _ _ = if _ then _ else _
    obtain ⟨group', path'⟩ := address filter
    cases group' <;> cases group <;> simp [Tables.held, lookup_erase_eq, and_left_comm, and_assoc]
  | inlineSubscribe | inlineUnsubscribe => rfl
  | retainMessage pk =>
    show (if pk.payload.length > 0 then _ else _ : Tables).held _ _ = _
    split <;> rfl

theorem inline_observe (call : IndexCall) (x : TopicsIndex) (path : List Bytes) :
    ((call.run x).particle path).inlineSubscriptions =
      (if path = call.path then call.change (x.particle call.path) else x.particle path).inlineSubscriptions :=
  observe_run (g := fun n => n.inlineSubscriptions)
    (fun _ hn => TopicsIndex.inlineSubscriptions_of_isEmpty hn) call x path

theorem inline_run_of_same {call : IndexCall}
    (hchange : ∀ n, (call.change n).inlineSubscriptions = n.inlineSubscriptions) (x : TopicsIndex) (path : List Bytes) :
    ((call.run x).particle path).inlineSubscriptions = (x.particle path).inlineSubscriptions := by
  rw [inline_observe]
  split
  · rename_i hpath
    rw [hchange, hpath]
  · rfl

variable {t : Tables} {x : TopicsIndex}

theorem inline_run (call : IndexCall) (h : Refines x t) (path : List Bytes) (id : Int) :
    ((call.run x).particle path).inlineSubscriptions.lookup id =
      (t.apply call).inlineSubscriptions.lookup (path, id) := by
  -- the calls that leave inline subscriptions alone in both
  have hsame : (∀ n, (call.change n).inlineSubscriptions = n.inlineSubscriptions) →
      (t.apply call).inlineSubscriptions = t.inlineSubscriptions →
      ((call.run x).particle path).inlineSubscriptions.lookup id =
        (t.apply call).inlineSubscriptions.lookup (path, id) := by
    intro hchange happly
    rw [inline_run_of_same hchange, happly, h.inlineSubscriptions]
  cases call with
  | subscribe client sub =>
    refine hsame (fun n => ?_) ?_
    · exact Particle.inlineSubscriptions_addHeld _ _ _ _
    · unfold Tables.apply
      dsimp only
      split <;> rfl
  | unsubscribe filter client =>
    refine hsame (fun n => ?_) ?_
    · exact Particle.inlineSubscriptions_dropHeld _ _ _
    · unfold Tables.apply
      dsimp only
      split <;> rfl
  | inlineSubscribe sub =>
    show _ = (t.inlineSubscriptions.insert (levelsFrom sub.filter 0, sub.identifier) sub).lookup (path, id)
    rw [inline_observe, lookup_insert_eq, ← h.inlineSubscriptions]
    by_cases hpath : path = (inlineSubscribe sub).path
    · rw [if_pos hpath, hpath]
      refine (lookup_insert_eq _ _ _ _).trans ?_
      exact if_congr ⟨fun hid => Prod.ext rfl hid, fun heq => (Prod.mk.inj heq).2⟩ rfl rfl
    · rw [if_neg hpath]
      exact (if_neg fun heq => hpath (Prod.mk.inj heq).1).symm
  | inlineUnsubscribe id' filter =>
    show _ = (t.inlineSubscriptions.erase (levelsFrom filter 0, id')).lookup (path, id)
    rw [inline_observe, lookup_erase_eq, ← h.inlineSubscriptions]
    by_cases hpath : path = (inlineUnsubscribe id' filter).path
    · rw [if_pos hpath, hpath]
      refine (lookup_erase_eq _ _ _).trans ?_
      exact if_congr ⟨fun hid => Prod.ext rfl hid, fun heq => (Prod.mk.inj heq).2⟩ rfl rfl
    · rw [if_neg hpath]
      exact (if_neg fun heq => hpath (Prod.mk.inj heq).1).symm
  | retainMessage pk =>
    refine hsame (fun n => rfl) ?_
    unfold Tables.apply
    dsimp only
    split <;> rfl

theorem retained_of_ne (call : IndexCall) (hne : ∀ pk, call ≠ retainMessage pk) (x : TopicsIndex) (t : Tables) :
    (call.run x).retained = x.retained ∧ (t.apply call).retained = t.retained := by
  cases call with
  | subscribe client sub =>
    rw [run, TopicsIndex.subscribe_eq]
    unfold Tables.apply
    exact ⟨rfl, by dsimp only; split <;> rfl⟩
  | unsubscribe filter client =>
    rw [run, TopicsIndex.unsubscribe_eq]
    unfold Tables.apply
    exact ⟨by split <;> rfl, by dsimp only; split <;> rfl⟩
  | inlineSubscribe sub => exact ⟨rfl, rfl⟩
  | inlineUnsubscribe id filter =>
    refine ⟨?_, rfl⟩
    unfold run TopicsIndex.inlineUnsubscribe
    dsimp only
    split
    · rfl
    · dsimp only
      split <;> rfl
  | retainMessage pk => exact absurd rfl (hne pk)

theorem retained_run (call : IndexCall) (h : Refines x t) (topic : Bytes) :
    (call.run x).retained.lookup topic = (t.apply call).retained.lookup topic := by
  by_cases hne : ∀ pk, call ≠ retainMessage pk
  · obtain ⟨hrun, happly⟩ := call.retained_of_ne hne x t
    rw [hrun, happly, h.retained]
  · obtain ⟨pk, hpk⟩ := not_forall.mp hne
    obtain rfl := not_not.mp hpk
    show _ = (if pk.payload.length > 0 then _ else _ : Tables).retained.lookup topic
    rw [run, TopicsIndex.lookup_retainMessage, h.retained]
    by_cases hpayload : pk.payload.length > 0
    · rw [if_pos hpayload, if_pos hpayload]
      exact (lookup_insert_eq t.retained _ _ _).symm
    · rw [if_neg hpayload, if_neg hpayload]
      exact (lookup_erase_eq t.retained _ _).symm

theorem retainPath_observe (call : IndexCall) (x : TopicsIndex) (path : List Bytes) :
    ((call.run x).particle path).retainPath =
      (if path = call.path then call.change (x.particle call.path) else x.particle path).retainPath :=
  observe_run (g := fun n => n.retainPath) (fun _ hn => TopicsIndex.retainPath_of_isEmpty hn) call x path

theorem retainPath_run (call : IndexCall) (h : Consistent x t) (path : List Bytes) :
    ((call.run x).particle path).retainPath = [] ∨
      levels ((call.run x).particle path).retainPath = path ∧
        (t.apply call).retained.lookup ((call.run x).particle path).retainPath ≠ none := by
  have hrun : (∀ n, (call.change n).retainPath = n.retainPath) →
      ((call.run x).particle path).retainPath = (x.particle path).retainPath := by
    intro hchange
    rw [retainPath_observe]
    split
    · rename_i hpath
      rw [hchange, hpath]
    · rfl
  cases call with
  | subscribe client sub =>
    rw [hrun fun n => Particle.retainPath_addHeld _ _ _ _, (retained_of_ne _ (fun _ h => by cases h) x t).2]
    exact h.retainPath path
  | unsubscribe filter client =>
    rw [hrun fun n => Particle.retainPath_dropHeld _ _ _, (retained_of_ne _ (fun _ h => by cases h) x t).2]
    exact h.retainPath path
  | inlineSubscribe | inlineUnsubscribe =>
    rw [hrun fun n => rfl]
    exact h.retainPath path
  | retainMessage pk =>
    rw [retainPath_observe]
    by_cases hpath : path = (retainMessage pk).path
    · rw [if_pos hpath, hpath]
      show (if pk.payload.length > 0 then pk.topicName else []) = [] ∨
        levels (if pk.payload.length > 0 then pk.topicName else []) = levelsFrom pk.topicName 0 ∧
          (if pk.payload.length > 0 then _ else _ : Tables).retained.lookup
            (if pk.payload.length > 0 then pk.topicName else []) ≠ none
      by_cases hpayload : pk.payload.length > 0
      · rw [if_pos hpayload, if_pos hpayload]
        refine .inr ⟨(levelsFrom_zero _).symm, ?_⟩
        show (AList.insert _ _ _).lookup _ ≠ none
        rw [AList.lookup_insert]
        exact Option.some_ne_none pk
      · rw [if_neg hpayload]
        exact .inl rfl
    · rw [if_neg hpath]
      refine (h.retainPath path).imp_right fun ⟨hlevels, hmessage⟩ => ⟨hlevels, ?_⟩
      have hne : (x.particle path).retainPath ≠ pk.topicName := by
        intro heq
        rw [heq, ← levelsFrom_zero] at hlevels
        exact hpath hlevels.symm
      show (if pk.payload.length > 0 then _ else _ : Tables).retained.lookup _ ≠ none
      split
      · show (AList.insert _ _ _).lookup _ ≠ none
        rw [AList.lookup_insert_ne hne]
        exact hmessage
      · show (AList.erase _ _).lookup _ ≠ none
        rw [AList.lookup_erase_ne hne]
        exact hmessage

end IndexCall

theorem Consistent.run {call : IndexCall} {x : TopicsIndex} {t : Tables} (h : Consistent x t) (hnamed : call.Named) :
    Consistent (call.run x) (t.apply call) := by
  have hheld : ∀ a client, (call.run x).held a client = (t.apply call).held a client := by
    intro a client
    rw [call.held_run, call.held_apply, h.held]
  refine ⟨⟨?_, ?_, call.inline_run h.toRefines, call.retained_run h.toRefines⟩, call.retainPath_run h,
    IndexCall.trimmed_run hnamed h.trimmed⟩
  · exact fun path client => hheld ⟨none, path⟩ client
  · exact fun path group client => hheld ⟨some group, path⟩ client

theorem consistent_new : Consistent .new {} := by
  have hparticle : ∀ path, TopicsIndex.new.particle path = Particle.empty := fun path => Trie.valueAt_leaf _ path
  refine ⟨⟨?_, ?_, ?_, fun _ => rfl⟩, ?_, Trie.trimmed_leaf _⟩
  · intro path client
    rw [hparticle]
    rfl
  · intro path group client
    rw [hparticle]
    rfl
  · intro path id
    rw [hparticle]
    rfl
  · intro path
    rw [hparticle]
    exact .inl rfl

theorem Consistent.holdsAt {t : Tables} (h : Consistent x t) {k : Bytes} {path : List Bytes}
    (hseek : (x.seek (k :: path)).isSome = true) : ∃ rest, t.HoldsAt (k :: path ++ rest) := by
  obtain ⟨c, hc⟩ := Option.isSome_iff_exists.mp hseek
  obtain ⟨rest, d, hd, hvalue⟩ := h.trimmed k path c hc
  have hparticle : x.particle (k :: path ++ rest) = d.value := by
    unfold TopicsIndex.particle Trie.valueAt
    rw [Trie.find?_append, show x.root.find? (k :: path) = some c from hc, Option.bind_some, hd]
    rfl
  rw [← hparticle] at hvalue
  refine ⟨rest, ?_⟩
  rcases Particle.exists_held_of_not_isEmpty hvalue with ⟨group, client, hheld⟩ | ⟨id, hinline⟩ | hretain
  · cases group with
    | none =>
      refine .inl ⟨client, ?_⟩
      rw [← h.subscriptions]
      exact hheld
    | some group =>
      refine .inr (.inl ⟨group, client, ?_⟩)
      rw [← h.shared]
      exact hheld
  · refine .inr (.inr (.inl ⟨id, ?_⟩))
    rw [← h.inlineSubscriptions]
    exact hinline
  · have hmessage := (h.retainPath (k :: path ++ rest)).resolve_left hretain
    exact .inr (.inr (.inr ⟨_, hmessage⟩))

namespace TopicsIndex
variable {x : TopicsIndex} {client : Bytes} {sub : Subscription}

theorem held_new (a : Address) (client : Bytes) : new.held a client = none := by
  unfold held
  rw [show new.particle a.path = Particle.empty from Trie.valueAt_leaf _ _]
  exact Particle.held_of_isEmpty rfl _ _

theorem held_unsubscribe (x : TopicsIndex) (filter client : Bytes) (a : Address) (client' : Bytes) :
    (x.unsubscribe filter client).2.held a client' =
      if a = address filter ∧ client' = client then none else x.held a client' :=
  (IndexCall.unsubscribe filter client).held_run x a client'

theorem held_subscribe (x : TopicsIndex) (client : Bytes) (sub : Subscription) (a : Address) (client' : Bytes) :
    (x.subscribe client sub).2.held a client' =
      if a = address sub.filter ∧ client' = client then some sub else x.held a client' :=
  (IndexCall.subscribe client sub).held_run x a client'

def Placed (x : TopicsIndex) : Prop := ∀ ⦃a client sub⦄, x.held a client = some sub → a = address sub.filter

theorem held_run_cases {call : IndexCall} {a : Address}
    (h : (call.run x).held a client = some sub) :
    x.held a client = some sub ∨ call = .subscribe client sub ∧ a = address sub.filter := by
  rw [call.held_run] at h
  cases call with
  | subscribe client' sub' =>
    rw [IndexCall.heldAfter] at h
    split at h
    · rename_i hat
      obtain rfl : sub' = sub := Option.some.inj h
      rw [hat.2]
      exact .inr ⟨rfl, hat.1⟩
    · exact .inl h
  | unsubscribe filter client' =>
    rw [IndexCall.heldAfter] at h
    split at h
    · cases h
    · exact .inl h
  | inlineSubscribe | inlineUnsubscribe | retainMessage => exact .inl h

theorem Placed.run (hx : Placed x) (call : IndexCall) : Placed (call.run x) := by
  intro a client sub h
  rcases held_run_cases h with hold | ⟨-, haddress⟩
  · exact hx hold
  · exact haddress

theorem placed_foldl (calls : List IndexCall) : Placed (calls.foldl IndexCall.run new) := by
  refine List.foldlRecOn (motive := Placed) calls IndexCall.run ?_ fun _ hx call _ => hx.run call
  intro a client sub h
  rw [held_new] at h
  cases h

end TopicsIndex

/-- After any calls the index holds what the tables hold, `Subscribe` and `InlineSubscribe` report
whether the key was absent, every particle leads to something held, and when nothing is held there is
no particle. -/
theorem index_refines_tables (calls : List IndexCall) (hnamed : ∀ call ∈ calls, call.Named) :
    let x := calls.foldl IndexCall.run .new
    let t := calls.foldl Tables.apply {}
    Refines x t ∧
      (∀ client sub, (x.subscribe client sub).1 = (t.held (address sub.filter) client).isNone) ∧
      (∀ sub, (x.inlineSubscribe sub).1 =
        (t.inlineSubscriptions.lookup (levelsFrom sub.filter 0, sub.identifier)).isNone) ∧
      (∀ k path, (x.seek (k :: path)).isSome = true → ∃ rest, t.HoldsAt (k :: path ++ rest)) ∧
      ((∀ path, ¬ t.HoldsAt path) → x.root.children = []) := by
  have h : Consistent (calls.foldl IndexCall.run .new) (calls.foldl Tables.apply {}) :=
    List.foldl_rel (r := Consistent) consistent_new fun call hcall _ _ h => h.run (hnamed call hcall)
  intro x t
  refine ⟨h.toRefines, ?_, ?_, fun k path => h.holdsAt, ?_⟩
  · intro client sub
    rw [TopicsIndex.subscribe_eq]
    exact congrArg Option.isNone (h.held _ _)
  · intro sub
    exact congrArg Option.isNone (h.inlineSubscriptions _ _)
  · intro hnone
    by_contra hchildren
    obtain ⟨⟨k, c⟩, cs, hcons⟩ := List.exists_cons_of_ne_nil hchildren
    have hk : (x.seek [k]).isSome = true := by
      have hchild : x.root.child? k = some c := by
        unfold Trie.child?
        rw [hcons]
        exact (Trie.lookup_cons_eq _ _ _ _).trans (if_pos rfl)
      show (x.root.find? [k]).isSome = true
      rw [Trie.find?_cons, hchild]
      rfl
    obtain ⟨rest, hrest⟩ := h.holdsAt hk
    exact hnone _ hrest

/-- The two agree after a subscription that is taken back. -/
theorem index_refines_tables_of_unsubscribe :
    let calls : List IndexCall := [.subscribe [99] { filter := [97] }, .unsubscribe [97] [99]]
    (∀ call ∈ calls, call.Named) ∧ Refines (calls.foldl IndexCall.run .new) (calls.foldl Tables.apply {}) := by
  intro calls
  have hnamed : ∀ call ∈ calls, call.Named := by
    intro call hcall
    rcases List.mem_cons.mp hcall with rfl | hcall
    · exact List.cons_ne_nil _ _
    · rw [List.mem_singleton.mp hcall]
      exact List.cons_ne_nil _ _
  exact ⟨hnamed, (index_refines_tables calls hnamed).1⟩

end Mqtt
