import MqttBroker.Topics.Tables

/-! The number of subscriptions in the index. A call changes it by what it
changes at one particle: a subscription that is new adds 1, and one that is
taken back removes 1 if its client held it. -/

namespace Mqtt
open FiniteMap

namespace SharedSubscriptions

theorem len_add (s : SharedSubscriptions) (group id : Bytes) (sub : Subscription) :
    (s.add group id sub).len + (s.get group id).isSome.toNat = s.len + 1 := by
  have htotal := total_insert size s group (AList.insert id sub ((s.lookup group).getD ∅))
  have hsize := size_insert ((s.lookup group).getD ∅) id sub
  show total size (AList.insert group _ s) + (s.get group id).isSome.toNat = total size s + 1
  unfold get
  cases hgroup : s.lookup group with
  | none =>
    rw [hgroup] at htotal hsize
    have hzero : size (∅ : Map Bytes Subscription) = 0 := rfl
    have hnone : (∅ : Map Bytes Subscription).lookup id = none := rfl
    simp only [Option.getD_none, Option.map_none, Option.bind_none, hnone, Option.isSome_none, Bool.toNat_false]
      at htotal hsize ⊢
    omega
  | some members =>
    rw [hgroup] at htotal hsize
    simp only [Option.getD_some, Option.map_some, Option.bind_some] at htotal hsize ⊢
    omega

theorem len_delete (s : SharedSubscriptions) (group id : Bytes) :
    (s.delete group id).len + (s.get group id).isSome.toNat = s.len := by
  have hsize := size_erase ((s.lookup group).getD ∅) id
  have herase := total_erase size s group
  have hinsert := total_insert size s group (AList.erase id ((s.lookup group).getD ∅))
  have hget : (s.get group id).isSome = (((s.lookup group).getD ∅).lookup id).isSome := by
    unfold get
    cases s.lookup group <;> rfl
  have hold : ((s.lookup group).map size).getD 0 = size ((s.lookup group).getD ∅) := by
    cases s.lookup group <;> rfl
  rw [hget]
  rw [hold] at herase hinsert
  show total size (s.delete group id) + _ = total size s
  unfold delete
  dsimp only
  split
  · omega
  · omega

end SharedSubscriptions

/-! ### Particles -/

namespace Particle

def numSubscriptions (n : Particle) : Nat := size n.subscriptions + n.shared.len

theorem numSubscriptions_empty : empty.numSubscriptions = 0 := rfl

variable {n : Particle}

theorem numSubscriptions_of_isEmpty (h : n.isEmpty = true) : n.numSubscriptions = 0 := by
  unfold isEmpty at h
  rw [Bool.and_eq_true, beq_iff_eq] at h
  unfold numSubscriptions
  omega

theorem numSubscriptions_addHeld (n : Particle) (group : Option Bytes) (client : Bytes) (sub : Subscription) :
    (n.addHeld group client sub).numSubscriptions + (n.held group client).isSome.toNat = n.numSubscriptions + 1 := by
  unfold numSubscriptions
  cases group with
  | none =>
    have h := size_insert n.subscriptions client sub
    show size (n.subscriptions.insert client sub) + n.shared.len + (n.subscriptions.lookup client).isSome.toNat = _
    omega
  | some group =>
    have h := SharedSubscriptions.len_add n.shared group client sub
    show size n.subscriptions + (n.shared.add group client sub).len + (n.shared.get group client).isSome.toNat = _
    omega

theorem numSubscriptions_dropHeld (n : Particle) (group : Option Bytes) (client : Bytes) :
    (n.dropHeld group client).numSubscriptions + (n.held group client).isSome.toNat = n.numSubscriptions := by
  unfold numSubscriptions
  cases group with
  | none =>
    have h := size_erase n.subscriptions client
    show size (n.subscriptions.erase client) + n.shared.len + (n.subscriptions.lookup client).isSome.toNat = _
    omega
  | some group =>
    have h := SharedSubscriptions.len_delete n.shared group client
    show size n.subscriptions + (n.shared.delete group client).len + (n.shared.get group client).isSome.toNat = _
    omega

theorem isEmpty_dropHeld (h : n.isEmpty = true) (group : Option Bytes) (client : Bytes) :
    (n.dropHeld group client).isEmpty = true := by
  have hdrop := numSubscriptions_dropHeld n group client
  unfold numSubscriptions at hdrop
  unfold isEmpty at h ⊢
  rw [Bool.and_eq_true, beq_iff_eq] at h ⊢
  rw [retainPath_dropHeld, inlineSubscriptions_dropHeld]
  exact ⟨h.1, by omega⟩

end Particle

/-! ### The index -/

namespace TopicsIndex

def numSubscriptions (x : TopicsIndex) : Nat := x.root.sum Particle.numSubscriptions

end TopicsIndex

theorem IndexCall.numSubscriptions_run (call : IndexCall) (x : TopicsIndex) :
    (call.run x).numSubscriptions + (x.particle call.path).numSubscriptions =
      x.numSubscriptions + (call.change (x.particle call.path)).numSubscriptions := by
  have halter := Trie.sum_alter (g := Particle.numSubscriptions) Particle.numSubscriptions_empty call.change call.path
    x.keys
  unfold TopicsIndex.numSubscriptions
  obtain ⟨hroot, -⟩ | hroot | ⟨hroot, hnone, hchange⟩ := root_run call x
  · rw [hroot]
    exact halter
  · have htrim := Trie.sum_trim (g := Particle.numSubscriptions)
      (fun n hn => Particle.numSubscriptions_of_isEmpty hn) call.path
      (x.keys.alter Particle.empty call.change call.path)
    rw [hroot, htrim]
    exact halter
  · rw [hroot, hnone, hchange]

namespace TopicsIndex
variable (x : TopicsIndex)

theorem numSubscriptions_subscribe (client : Bytes) (sub : Subscription) :
    (x.subscribe client sub).2.numSubscriptions + (x.held (address sub.filter) client).isSome.toNat =
      x.numSubscriptions + 1 := by
  have hrun := (IndexCall.subscribe client sub).numSubscriptions_run x
  have hadd := Particle.numSubscriptions_addHeld (x.particle (address sub.filter).path) (address sub.filter).group
    client sub
  change (x.subscribe client sub).2.numSubscriptions + (x.particle (address sub.filter).path).numSubscriptions =
    x.numSubscriptions + ((x.particle (address sub.filter).path).addHeld _ client sub).numSubscriptions at hrun
  unfold held
  omega

theorem numSubscriptions_unsubscribe (filter client : Bytes) :
    (x.unsubscribe filter client).2.numSubscriptions + (x.held (address filter) client).isSome.toNat =
      x.numSubscriptions := by
  have hrun := (IndexCall.unsubscribe filter client).numSubscriptions_run x
  have hdrop := Particle.numSubscriptions_dropHeld (x.particle (address filter).path) (address filter).group client
  change (x.unsubscribe filter client).2.numSubscriptions + (x.particle (address filter).path).numSubscriptions =
    x.numSubscriptions + ((x.particle (address filter).path).dropHeld _ client).numSubscriptions at hrun
  unfold held
  omega

/-! ### Filters without a particle -/

theorem trimmed_unsubscribe (h : x.root.Trimmed Particle.isEmpty) (filter client : Bytes) :
    (x.unsubscribe filter client).2.root.Trimmed Particle.isEmpty := by
  rw [unsubscribe_eq]
  cases x.seek (address filter).path with
  | none => exact h
  | some n => exact h.trim_alter _ _ _

def Vacant (filter : Bytes) : Prop := ∀ rest, (x.particle ((address filter).path ++ rest)).isEmpty = true

variable {x} {filter : Bytes}

theorem seek_of_vacant (h : x.root.Trimmed Particle.isEmpty) (hv : x.Vacant filter) :
    x.seek (address filter).path = none := by
  by_contra hsome
  obtain ⟨c, hc⟩ := Option.ne_none_iff_exists'.mp hsome
  obtain ⟨k, path, hpath⟩ := List.exists_cons_of_ne_nil (path_address_ne_nil filter)
  rw [hpath] at hc
  obtain ⟨rest, d, hd, hvalue⟩ := h k path c hc
  have hparticle : x.particle ((address filter).path ++ rest) = d.value := by
    unfold particle Trie.valueAt
    rw [hpath, Trie.find?_append, show x.root.find? (k :: path) = some c from hc, Option.bind_some, hd]
    rfl
  have hempty := hv rest
  rw [hparticle, hvalue] at hempty
  cases hempty

theorem held_of_vacant (hv : x.Vacant filter) (group : Option Bytes) (client : Bytes) :
    x.held ⟨group, (address filter).path⟩ client = none := by
  have hempty := hv []
  rw [List.append_nil] at hempty
  exact Particle.held_of_isEmpty hempty group client

theorem Vacant.unsubscribe (hv : x.Vacant filter) (filter' client : Bytes) :
    (x.unsubscribe filter' client).2.Vacant filter := by
  intro rest
  have hobs := IndexCall.observe_run (g := Particle.isEmpty) (fun n hn => hn) (.unsubscribe filter' client) x
    ((address filter).path ++ rest)
  refine hobs.trans ?_
  split
  · rename_i hpath
    have hempty := hv rest
    rw [hpath] at hempty
    exact Particle.isEmpty_dropHeld hempty _ _
  · exact hv rest

theorem unsubscribe_fst (h : x.root.Trimmed Particle.isEmpty) {client : Bytes}
    (hheld : (x.held (address filter) client).isSome = true ∨ x.Vacant filter) :
    (x.unsubscribe filter client).1 = (x.held (address filter) client).isSome := by
  rw [unsubscribe_eq]
  rcases hheld with hheld | hvacant
  · have hseek : x.seek (address filter).path ≠ none := by
      intro hnone
      unfold held at hheld
      rw [particle_of_seek_eq_none hnone, Particle.held_of_isEmpty rfl] at hheld
      cases hheld
    obtain ⟨c, hc⟩ := Option.ne_none_iff_exists'.mp hseek
    rw [hc, hheld]
  · have hnone : x.held (address filter) client = none := held_of_vacant hvacant _ _
    rw [seek_of_vacant h hvacant, hnone]
    rfl

end TopicsIndex
end Mqtt
