import MqttBroker.Topics.Gather

/-! The subscribers of a topic with the order of every loop over a map left open, and the
choice and merge of shared subscriptions. The walk of the index is a list of particles to
gather from; each loop over a map goes through it in an order of its own. -/

namespace Mqtt
open FiniteMap

/-- The loops over maps from clients to subscriptions: of `gatherSubscriptions` and of `gatherSharedSubscriptions` at
a step of the walk, of `SelectShared` in a group, and of `MergeSharedSelected`. -/
inductive Loop where
  | subscriptions (step : Nat)
  | shares (step : Nat) (group : Bytes)
  | members (filter : Bytes)
  | selected

/-- The orders of the loops. The loops over groups are those of the steps of the walk and that of `SelectShared`. -/
structure Orders where
  clients : Iteration Loop Bytes Subscription
  groups : Iteration (Option Nat) Bytes (Map Bytes Subscription)

def Orders.stored : Orders := ⟨⟨fun _ m => m.entries, fun _ _ => .refl _⟩, ⟨fun _ m => m.entries, fun _ _ => .refl _⟩⟩

namespace TopicsIndex
open Subscribers

/-! ### The walk -/

def below {β : Type} (n : ParticleTrie) (partKey : Bytes) (f : ParticleTrie → List β) : List β :=
  match n.child? partKey with
  | some p => f p
  | none => []

/-- The last level: its particle, and `#` below it. The second particle is the one whose inline subscriptions are
gathered. -/
def lastParticles (partKey : Bytes) (p : ParticleTrie) : List (Particle × Particle) :=
  (p.value, p.value) ::
    match p.child? [hash] with
    | some wild => if partKey ≠ [plus] then [(wild.value, p.value)] else []
    | none => []

/-- The particles from which `scanSubscribers` gathers, in its order. -/
def scanned (topic : Bytes) (d : Nat) (n : ParticleTrie) : List (Particle × Particle) :=
  if topic.isEmpty then []
  else
    let key := (isolateParticle topic d).1
    let wild := below n [hash] fun p => [(p.value, p.value)]
    if _h : (isolateParticle topic d).2 then
      below n key (fun p => scanned topic (d + 1) p) ++ below n [plus] (fun p => scanned topic (d + 1) p) ++ wild
    else below n key (lastParticles key) ++ below n [plus] (lastParticles [plus]) ++ wild
termination_by (levels topic).length - d
decreasing_by
  all_goals
    rw [isolateParticle_eq, decide_eq_true_eq] at _h
    omega

def gatherStep (topic : Bytes) (subs : Subscribers) (step : Particle × Particle) : Subscribers :=
  gatherWild topic step.2 step.1 subs

theorem visit_eq_foldl {topic : Bytes} {n : ParticleTrie} {k : Bytes} {f : ParticleTrie → Subscribers → Subscribers}
    {g : ParticleTrie → List (Particle × Particle)} (h : ∀ p subs, f p subs = (g p).foldl (gatherStep topic) subs)
    (subs : Subscribers) : visit n k f subs = (below n k g).foldl (gatherStep topic) subs := by
  unfold visit below
  cases n.child? k with
  | none => rfl
  | some p => exact h p subs

theorem gatherLast_eq_foldl (topic k : Bytes) (p : ParticleTrie) (subs : Subscribers) :
    gatherLast topic k p subs = (lastParticles k p).foldl (gatherStep topic) subs := by
  unfold gatherLast lastParticles
  cases p.child? [hash] with
  | none => rfl
  | some wild =>
    dsimp only
    split <;> rfl

theorem scanSubscribers_eq_foldl (topic : Bytes) (d : Nat) (n : ParticleTrie) (subs : Subscribers) :
    scanSubscribers topic d n subs = (scanned topic d n).foldl (gatherStep topic) subs := by
  fun_induction scanned topic d n generalizing subs with
  | case1 d n hempty =>
    rw [scanSubscribers, if_pos hempty]
    rfl
  | case2 d n hempty key wild hnext ih =>
    have hwild : ∀ subs, gatherHash topic n subs = wild.foldl (gatherStep topic) subs :=
      visit_eq_foldl fun p subs => rfl
    rw [scanSubscribers, if_neg hempty, dif_pos hnext, List.foldl_append, List.foldl_append, ← hwild]
    dsimp only
    rw [visit_eq_foldl ih, visit_eq_foldl ih]
  | case3 d n hempty key wild hnext =>
    have hwild : ∀ subs, gatherHash topic n subs = wild.foldl (gatherStep topic) subs :=
      visit_eq_foldl fun p subs => rfl
    rw [scanSubscribers, if_neg hempty, dif_neg hnext, List.foldl_append, List.foldl_append, ← hwild]
    dsimp only
    rw [visit_eq_foldl (gatherLast_eq_foldl topic key), visit_eq_foldl (gatherLast_eq_foldl topic [plus])]

/-! ### The loops -/

section Loops
variable (e : Orders) (topic : Bytes)

def gatherStepIn (subs : Subscribers) (step : (Particle × Particle) × Nat) : Subscribers :=
  let subs := (e.clients.order (.subscriptions step.2) step.1.1.subscriptions).foldl
    (fun subs a => subs.addSubscription topic a.1 a.2) subs
  let subs := (e.groups.order (some step.2) step.1.1.shared).foldl (fun subs group =>
    (e.clients.order (.shares step.2 group.1) group.2).foldl (fun subs a => subs.addShared a.1 a.2) subs) subs
  gatherInlineSubscriptions step.1.2 subs

def subscribersIn (x : TopicsIndex) : Subscribers := (scanned topic 0 x.root).zipIdx.foldl (gatherStepIn e topic) {}

end Loops

theorem subscribers_eq_stored (x : TopicsIndex) (topic : Bytes) :
    x.subscribers topic = x.subscribersIn .stored topic := by
  have hstep : gatherStepIn .stored topic = fun subs step => gatherStep topic subs step.1 := rfl
  unfold subscribersIn subscribers
  rw [scanSubscribers_eq_foldl, hstep]
  conv_lhs => rw [← List.zipIdx_map_fst 0 (scanned topic 0 x.root), List.foldl_map]

end TopicsIndex

namespace Subscribers

def joined (cls : Option Subscription) (sub : Subscription) : Subscription := (cls.getD sub).merge sub

variable (e : Orders)

def selectFirst (selected : Map Bytes Subscription) (group : Σ _ : Bytes, Map Bytes Subscription) :
    Map Bytes Subscription :=
  match e.clients.order (.members group.1) group.2 with
  | [] => selected
  | a :: _ => upsert joined selected a.1 a.2

def selectShared (s : Subscribers) : Subscribers :=
  { s with sharedSelected := (e.groups.order none s.shared).foldl (selectFirst e) ∅ }

def mergeSharedSelected (s : Subscribers) : Subscribers :=
  { s with
    subscriptions := (e.clients.order .selected s.sharedSelected).foldl (fun m a => upsert joined m a.1 a.2)
      s.subscriptions }

end Subscribers

namespace TopicsIndex
open Subscribers

/-- The subscribers of a topic as `publishToSubscribers` uses them. -/
def mergedSubscribers (e : Orders) (x : TopicsIndex) (topic : Bytes) : Subscribers :=
  mergeSharedSelected e (selectShared e (x.subscribersIn e topic))

end TopicsIndex
end Mqtt
