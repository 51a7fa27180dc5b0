import MqttBroker.Library.FiniteMap
import MqttBroker.Library.Trie
import MqttBroker.Topics.Levels

/-! The topic index: a trie of particles with their subscriptions, shared
subscriptions, inline subscriptions and retained path, and the retained
messages by topic. -/

namespace Mqtt
open FiniteMap

abbrev Subscriptions := Map Bytes Subscription

abbrev SharedSubscriptions := Map Bytes (Map Bytes Subscription)

abbrev InlineSubscription := Subscription

abbrev InlineSubscriptions := Map Int InlineSubscription

namespace SharedSubscriptions

def add (s : SharedSubscriptions) (group id : Bytes) (val : Subscription) : SharedSubscriptions :=
  AList.insert group (AList.insert id val ((s.lookup group).getD ∅)) s

def delete (s : SharedSubscriptions) (group id : Bytes) : SharedSubscriptions :=
  let members := AList.erase id ((s.lookup group).getD ∅)
  if size members = 0 then AList.erase group s else AList.insert group members s

def get (s : SharedSubscriptions) (group id : Bytes) : Option Subscription :=
  (s.lookup group).bind fun members => members.lookup id

def len (s : SharedSubscriptions) : Nat := ((values s).map size).sum

end SharedSubscriptions

structure Particle where
  subscriptions : Subscriptions := ∅
  shared : SharedSubscriptions := ∅
  inlineSubscriptions : InlineSubscriptions := ∅
  retainPath : Bytes := []

namespace Particle

def empty : Particle := {}

/-- The condition of `trim` on a particle without children. -/
def isEmpty (n : Particle) : Bool :=
  n.retainPath.isEmpty &&
    size n.subscriptions + n.shared.len + size n.inlineSubscriptions == 0

end Particle

abbrev ParticleTrie := Trie Bytes Particle

structure TopicsIndex where
  retained : Map Bytes Packet
  root : ParticleTrie
  keys : root.KeysNodup

namespace TopicsIndex

def new : TopicsIndex := ⟨∅, Trie.leaf Particle.empty, Trie.keysNodup_leaf _⟩

def particle (x : TopicsIndex) (path : List Bytes) : Particle := x.root.valueAt Particle.empty path

/-- `set` followed by a change of the particle it returns. -/
def set (x : TopicsIndex) (path : List Bytes) (f : Particle → Particle) : TopicsIndex :=
  { x with
    root := x.root.alter Particle.empty f path
    keys := x.keys.alter _ _ _ }

def seek (x : TopicsIndex) (path : List Bytes) : Option ParticleTrie := x.root.find? path

def trim (x : TopicsIndex) (path : List Bytes) : TopicsIndex :=
  { x with
    root := x.root.trim Particle.isEmpty path
    keys := x.keys.trim _ _ }

/-- `Subscribe`: whether the subscription was new, and the index after it. -/
def subscribe (x : TopicsIndex) (client : Bytes) (subscription : Subscription) : Bool × TopicsIndex :=
  if equalFold (isolateParticle subscription.filter 0).1 sharePrefix then
    let group := (isolateParticle subscription.filter 1).1
    let path := levelsFrom subscription.filter 2
    (((x.particle path).shared.get group client).isNone,
      x.set path fun n => { n with shared := n.shared.add group client subscription })
  else
    let path := levelsFrom subscription.filter 0
    (((x.particle path).subscriptions.lookup client).isNone,
      x.set path fun n => { n with subscriptions := n.subscriptions.insert client subscription })

/-- `Unsubscribe`: whether the particle of the filter exists, and the index after it. -/
def unsubscribe (x : TopicsIndex) (filter client : Bytes) : Bool × TopicsIndex :=
  let shareSub := equalFold (isolateParticle filter 0).1 sharePrefix
  let path := levelsFrom filter (if shareSub then 2 else 0)
  match x.seek path with
  | none => (false, x)
  | some _ =>
    if shareSub then
      let group := (isolateParticle filter 1).1
      (true, (x.set path fun n => { n with shared := n.shared.delete group client }).trim path)
    else
      (true, (x.set path fun n => { n with subscriptions := n.subscriptions.erase client }).trim path)

def inlineSubscribe (x : TopicsIndex) (subscription : InlineSubscription) : Bool × TopicsIndex :=
  let path := levelsFrom subscription.filter 0
  (((x.particle path).inlineSubscriptions.lookup subscription.identifier).isNone,
    x.set path fun n =>
      { n with inlineSubscriptions := n.inlineSubscriptions.insert subscription.identifier subscription })

def inlineUnsubscribe (x : TopicsIndex) (id : Int) (filter : Bytes) : Bool × TopicsIndex :=
  let path := levelsFrom filter 0
  match x.seek path with
  | none => (false, x)
  | some n =>
    let x' := x.set path fun n => { n with inlineSubscriptions := n.inlineSubscriptions.erase id }
    (true, if size (n.value.inlineSubscriptions.erase id) = 0 then x'.trim path else x')

/-- `RetainMessage`: 1 if the message was stored, -1 if a retained one was removed, else 0. -/
def retainMessage (x : TopicsIndex) (pk : Packet) : Int × TopicsIndex :=
  let path := levelsFrom pk.topicName 0
  if pk.payload.length > 0 then
    let x' := x.set path fun n => { n with retainPath := pk.topicName }
    (1, { x' with retained := x.retained.insert pk.topicName pk })
  else
    let out : Int := match x.retained.lookup pk.topicName with
      | some pke => if pke.payload.length > 0 && pke.fixedHeader.retain then -1 else 0
      | none => 0
    let x' := (x.set path fun n => { n with retainPath := [] }).trim path
    (out, { x' with retained := x.retained.erase pk.topicName })

/-! ### The index as a function from paths to particles -/

theorem lookup_retainMessage (x : TopicsIndex) (pk : Packet) (topic : Bytes) :
    (x.retainMessage pk).2.retained.lookup topic =
      if topic = pk.topicName then (if pk.payload.length > 0 then some pk else none) else x.retained.lookup topic := by
  unfold retainMessage
  dsimp only
  split
  · exact lookup_insert_eq _ _ _ _
  · exact lookup_erase_eq _ _ _

theorem particle_set (x : TopicsIndex) (path q : List Bytes) (f : Particle → Particle) :
    (x.set path f).particle q = if q = path then f (x.particle path) else x.particle q :=
  Trie.valueAt_alter _ _ _ _ _

variable {n : Particle}

theorem inlineSubscriptions_of_isEmpty (h : n.isEmpty = true) :
    n.inlineSubscriptions = Particle.empty.inlineSubscriptions := by
  simp only [Particle.isEmpty, Bool.and_eq_true, beq_iff_eq, size] at h
  exact AList.ext (List.eq_nil_of_length_eq_zero (by omega))

theorem retainPath_of_isEmpty (h : n.isEmpty = true) : n.retainPath = Particle.empty.retainPath := by
  simp only [Particle.isEmpty, Bool.and_eq_true, List.isEmpty_iff] at h
  exact h.1

end TopicsIndex
end Mqtt
