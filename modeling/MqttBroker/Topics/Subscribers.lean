import MqttBroker.Topics.Index

/-! The walk of the index that collects the subscribers of a topic. At every
level it follows the child of the level and the child `+`, and it collects the
child `#`; at the last level it also collects `#` below the child of the level,
but not below `+`. -/

namespace Mqtt
open FiniteMap

def Subscription.merge (s n : Subscription) : Subscription :=
  let identifiers := s.identifiers.getD (AList.singleton s.filter s.identifier)
  { s with
    identifiers := some (if n.identifier > 0 then identifiers.insert n.filter n.identifier else identifiers)
    qos := if n.qos > s.qos then n.qos else s.qos
    noLocal := n.noLocal || s.noLocal }

structure Subscribers where
  shared : Map Bytes (Map Bytes Subscription) := ∅
  sharedSelected : Map Bytes Subscription := ∅
  subscriptions : Map Bytes Subscription := ∅
  inlineSubscriptions : Map Int InlineSubscription := ∅

/-- The test of `gatherSubscriptions`: a topic that starts with `$` against a filter that starts
with a wildcard. -/
def skipsDollar (topic filter : Bytes) : Bool :=
  topic.head? == some dollar && (filter.head? == some plus || filter.head? == some hash)

namespace Subscribers

def addSubscription (topic : Bytes) (subs : Subscribers) (client : Bytes) (sub : Subscription) :
    Subscribers :=
  if skipsDollar topic sub.filter then subs
  else
    let cls := (subs.subscriptions.lookup client).getD sub
    { subs with subscriptions := subs.subscriptions.insert client (cls.merge sub) }

def gatherSubscriptions (topic : Bytes) (n : Particle) (subs : Subscribers) : Subscribers :=
  n.subscriptions.entries.foldl (fun subs e => subs.addSubscription topic e.1 e.2) subs

def addShared (subs : Subscribers) (client : Bytes) (sub : Subscription) : Subscribers :=
  let members := (subs.shared.lookup sub.filter).getD ∅
  { subs with shared := subs.shared.insert sub.filter (members.insert client sub) }

def gatherSharedSubscriptions (n : Particle) (subs : Subscribers) : Subscribers :=
  n.shared.entries.foldl
    (fun subs group => group.2.entries.foldl (fun subs e => subs.addShared e.1 e.2) subs) subs

def gatherInlineSubscriptions (n : Particle) (subs : Subscribers) : Subscribers :=
  { subs with
    inlineSubscriptions :=
      n.inlineSubscriptions.entries.foldl (fun m e => m.insert e.1 e.2) subs.inlineSubscriptions }

def gather (topic : Bytes) (n : Particle) (subs : Subscribers) : Subscribers :=
  gatherInlineSubscriptions n (gatherSharedSubscriptions n (gatherSubscriptions topic n subs))

/-- The three gather calls for `#` below the last level. The inline subscriptions are gathered
from the particle of the level, not from `#`. -/
def gatherWild (topic : Bytes) (n wild : Particle) (subs : Subscribers) : Subscribers :=
  gatherInlineSubscriptions n (gatherSharedSubscriptions wild (gatherSubscriptions topic wild subs))

end Subscribers

namespace TopicsIndex
open Subscribers

def visit (n : ParticleTrie) (partKey : Bytes) (f : ParticleTrie → Subscribers → Subscribers)
    (subs : Subscribers) : Subscribers :=
  match n.child? partKey with
  | some p => f p subs
  | none => subs

/-- The particle of the last level, and `#` below it unless the level was matched by `+`. -/
def gatherLast (topic partKey : Bytes) (p : ParticleTrie) (subs : Subscribers) : Subscribers :=
  let subs := gather topic p.value subs
  match p.child? [hash] with
  | some wild => if partKey ≠ [plus] then gatherWild topic p.value wild.value subs else subs
  | none => subs

def gatherHash (topic : Bytes) (n : ParticleTrie) (subs : Subscribers) : Subscribers :=
  visit n [hash] (fun p subs => gather topic p.value subs) subs

def scanSubscribers (topic : Bytes) (d : Nat) (n : ParticleTrie) (subs : Subscribers) : Subscribers :=
  if topic.isEmpty then subs
  else
    let key := (isolateParticle topic d).1
    if _h : (isolateParticle topic d).2 then
      let subs := visit n key (fun p subs => scanSubscribers topic (d + 1) p subs) subs
      let subs := visit n [plus] (fun p subs => scanSubscribers topic (d + 1) p subs) subs
      gatherHash topic n subs
    else
      let subs := visit n key (gatherLast topic key) subs
      let subs := visit n [plus] (gatherLast topic [plus]) subs
      gatherHash topic n subs
termination_by (levels topic).length - d
decreasing_by
  all_goals
    rw [isolateParticle_eq, decide_eq_true_eq] at _h
    omega

def subscribers (x : TopicsIndex) (topic : Bytes) : Subscribers :=
  scanSubscribers topic 0 x.root {}

end TopicsIndex
end Mqtt
