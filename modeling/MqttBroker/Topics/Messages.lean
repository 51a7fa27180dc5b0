import MqttBroker.Topics.Matching

/-! The walk of the index that collects the retained messages of a filter. It
follows the filter, not the topic: a wildcard level visits every child, and a
final `#` everything below. -/

namespace Mqtt
open FiniteMap

def containsWildcard (filter : Bytes) : Bool := filter.contains hash || filter.contains plus

namespace TopicsIndex

def appendRetained (retained : Map Bytes Packet) (topic : Bytes) (pks : List Packet) : List Packet :=
  match retained.lookup topic with
  | some pk => pks ++ [pk]
  | none => pks

def scanMessages (retained : Map Bytes Packet) (filter : Bytes) (d : Nat) (n : ParticleTrie)
    (pks : List Packet) : List Packet :=
  if filter.isEmpty || size retained == 0 then pks
  else if !containsWildcard filter then appendRetained retained filter pks
  else
    let key := (isolateParticle filter d).1
    let hasNext := (isolateParticle filter d).2
    if key = [plus] ∨ key = [hash] then
      n.children.attach.foldl (fun pks adjacent =>
        if d = 0 ∧ adjacent.1.1 = sysPrefix then pks
        else
          let pks := if !hasNext && adjacent.1.2.value.retainPath != [] then
            appendRetained retained adjacent.1.2.value.retainPath pks else pks
          if hasNext ∨ key = [hash] then
            scanMessages retained filter (d + 1) adjacent.1.2 pks
          else pks) pks
    else
      match _hp : n.child? key with
      | some p =>
        if hasNext then scanMessages retained filter (d + 1) p pks
        else appendRetained retained p.value.retainPath pks
      | none => pks
termination_by sizeOf n
decreasing_by
  · exact Trie.sizeOf_lt_of_mem adjacent.2
  · exact Trie.sizeOf_lt_of_mem (Trie.mem_of_child? _hp)

def messages (x : TopicsIndex) (filter : Bytes) : List Packet :=
  scanMessages x.retained filter 0 x.root []

theorem of_lookup_retainMessage {x : TopicsIndex} {pk pk' : Packet} {topic : Bytes}
    (h : (x.retainMessage pk).2.retained.lookup topic = some pk') :
    pk' = pk ∨ x.retained.lookup topic = some pk' := by
  rw [lookup_retainMessage] at h
  split at h
  · split at h
    · exact .inl (Option.some.inj h).symm
    · cases h
  · exact .inr h

/-! ### The particles visited -/

def visited (filter : Bytes) (d : Nat) (n : ParticleTrie) : List (List Bytes × Particle) :=
  let key := (isolateParticle filter d).1
  let hasNext := (isolateParticle filter d).2
  if key = [plus] ∨ key = [hash] then
    n.children.attach.flatMap fun adjacent =>
      if d = 0 ∧ adjacent.1.1 = sysPrefix then []
      else
        (if hasNext then [] else [([adjacent.1.1], adjacent.1.2.value)]) ++
          if hasNext ∨ key = [hash] then
            (visited filter (d + 1) adjacent.1.2).map fun e => (adjacent.1.1 :: e.1, e.2)
          else []
  else
    match _hp : n.child? key with
    | some p =>
      if hasNext then (visited filter (d + 1) p).map fun e => (key :: e.1, e.2)
      else [([key], p.value)]
    | none => []
termination_by sizeOf n
decreasing_by
  · exact Trie.sizeOf_lt_of_mem adjacent.2
  · exact Trie.sizeOf_lt_of_mem (Trie.mem_of_child? _hp)

def wildLast (filter : Bytes) : Bool :=
  (levels filter).getLast? == some [plus] || (levels filter).getLast? == some [hash]

/-- The message that the walk takes from a particle: a wildcard passes over particles without a
retained path, a literal level asks for the empty topic then. -/
def retrieve (retained : Map Bytes Packet) (filter : Bytes) (n : Particle) : Option Packet :=
  if wildLast filter && n.retainPath == [] then none else retained.lookup n.retainPath

end TopicsIndex
end Mqtt
