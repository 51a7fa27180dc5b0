import MqttBroker.Session.Quota
import Mathlib.Logic.Function.Basic

/-! Flow control of an MQTT 5 client over whole runs. A message that is accepted is
parked, queued or sent under its packet id until it is acknowledged. Each complete
call moves messages from one of these places to the next, and the send quota counts
the messages that are queued or sent. -/

namespace Mqtt
open FiniteMap
namespace Session

def Resumable (env : Env) (s : Session) : Prop :=
  ∀ id pk, s.client.inflight.get id = some pk → pk.expiry = inflightExpiryDeferred →
    ¬ Fails env s { pk with expiry := 0 }

def NextWritable (env : Env) (s : Session) : Prop := ∀ q ∈ s.client.queue.head?, ¬ Fails env s q.packet

instance (now : Int) (s : Session) : Decidable (s.NextWritable (.encoding now)) :=
  inferInstanceAs (Decidable (∀ q ∈ s.client.queue.head?, ¬ Fails (.encoding now) s q.packet))

end Session

/-- A connection with its history: the messages accepted for the client, the last one under each packet
id, and the numbers of those that were transmitted and acknowledged. -/
structure Line where
  session : Session
  accepted : List Packet := []
  owner : UInt16 → Option Nat := fun _ => none
  transmitted : List Nat := []
  acknowledged : List Nat := []

namespace Line
open Session Inflight

/-- The message that a written packet transmits: the last one accepted under its id, if it has the same
payload. -/
def carriedBy (x : Line) : Event → Option Nat
  | .wrote pk _ =>
    if pk.fixedHeader.type = .publish ∧ 0 < pk.fixedHeader.qos then
      (x.owner pk.packetID).filter fun n => x.accepted[n]?.any fun m => m.payload == pk.payload
    else none
  | _ => none

def update (x : Line) (s : Session) : Line :=
  { x with
    session := s
    transmitted := x.transmitted ++ (s.log.drop x.session.log.length).filterMap x.carriedBy }

def accept (x : Line) (m : Packet) : Line :=
  { x with
    accepted := x.accepted ++ [m]
    owner := Function.update x.owner m.packetID (some x.accepted.length) }

def acknowledge (x : Line) (id : UInt16) : Line :=
  { x with acknowledged := x.acknowledged ++ (x.owner id).toList }

/-- What happens: a message is published to the client, the write loop takes a turn, or the client
acknowledges a packet id. -/
inductive Call where
  | publish (sub : Subscription) (pk : { pk : Packet // pk.fixedHeader.type = .publish })
  | write
  | puback (pk : Packet)

/-- A complete call. A message is accepted if `publishToClient` returns nil for it and it is not one that
the client published itself and does not want. -/
def run (env : Env) (x : Line) : Call → Line
  | .publish sub pk =>
    let (err, s) := x.session.publishToClient env sub pk.1
    if err.isNone && !x.session.isLocal sub pk.1 then
      (x.accept { pk.1 with packetID := UInt16.ofNat s.client.packetID }).update s
    else x.update s
  | .write => x.update (x.session.writeNext env)
  | .puback pk => (x.acknowledge pk.packetID).update (x.session.processPacket env pk).2

def Step (x : Line) (call : Env × Call) (y : Line) : Prop := y = x.run call.1 call.2

def Unanswered (x : Line) (n : Nat) : Prop := x.acknowledged.count n < x.transmitted.count n

/-- Messages have QoS 1 and find room in the queue, what is written can be written, and the client
acknowledges the ids written to it, once for each transmission. -/
def Regular (x : Line) : Env × Call → Prop
  | (_, .publish sub pk) => Plain pk.1.expiry ∧ (x.session.prepare sub pk.1).1.fixedHeader.qos = 1 ∧
      x.session.client.queue.length < x.session.server.caps.maximumClientWritesPending
  | (env, .write) => x.session.NextWritable env
  | (env, .puback pk) => x.session.Resumable env ∧ pk.fixedHeader.type = .puback ∧
      ∃ n, x.owner pk.packetID = some n ∧ x.Unanswered n

/-! ### Places -/

inductive Place where
  | free
  | parked (n : Nat)
  | queued (n : Nat)
  | sent (n : Nat)

namespace Place

def message : Place → Option Nat
  | .free => none
  | .parked n => some n
  | .queued n => some n
  | .sent n => some n

def transmissions : Place → Nat
  | .sent _ => 1
  | _ => 0

end Place

/-- A packet that carries the message `n` under an id. -/
structure Holds (x : Line) (i : UInt16) (n : Nat) (e : Packet) : Prop where
  id : e.packetID = i
  message : ∃ m, x.accepted[n]? = some m ∧ m.packetID = i ∧ e.payload = m.payload
  type : e.fixedHeader.type = .publish
  qos : 0 < e.fixedHeader.qos

def Place.Fits (x : Line) (i : UInt16) : Place → Option Packet → Prop
  | .free, e => e = none
  | .parked n, e => ∃ m, e = some m ∧ x.Holds i n m ∧ m.expiry = inflightExpiryDeferred
  | .queued n, e => ∃ m, e = some m ∧ x.Holds i n m ∧ Plain m.expiry
  | .sent n, e => ∃ m, e = some m ∧ x.Holds i n m ∧ Plain m.expiry

def inflight (x : Line) : Inflight := x.session.client.inflight

def outbound (x : Line) : List Packet :=
  (x.session.client.queue.map fun q => q.packet).filter fun pk => decide (0 < pk.fixedHeader.qos)

structure Carries (place : UInt16 → Place) (x : Line) : Prop where
  fits : ∀ i, (place i).Fits x i (x.inflight.get i)
  owned : ∀ i n, (place i).message = some n → x.owner i = some n
  unanswered : ∀ i n, (place i).message = some n → x.acknowledged.count n = 0
  once : ∀ i n, (place i).message = some n → x.transmitted.count n = (place i).transmissions
  finished : ∀ n, n < x.accepted.length → (∃ i, (place i).message = some n) ∨
    x.acknowledged.count n = 1 ∧ x.transmitted.count n = 1
  known : ∀ n, x.accepted.length ≤ n → x.acknowledged.count n = 0 ∧ x.transmitted.count n = 0
  nodup : (x.outbound.map Packet.packetID).Nodup
  queued : ∀ pk ∈ x.outbound, ∃ n, place pk.packetID = .queued n ∧ x.Holds pk.packetID n pk
  waiting : ∀ i n, place i = .queued n → ∃ pk ∈ x.outbound, pk.packetID = i

variable {place : UInt16 → Place} {x y : Line} {env : Env} {i : UInt16} {n : Nat} {e m : Packet}

theorem Holds.mono (h : x.Holds i n e) (hacc : x.accepted <+: y.accepted) : y.Holds i n e := by
  obtain ⟨m, hm, hid, hpayload⟩ := h.message
  refine ⟨h.id, ⟨m, ?_, hid, hpayload⟩, h.type, h.qos⟩
  obtain ⟨rest, hrest⟩ := hacc
  rw [← hrest, List.getElem?_append_left (List.getElem?_eq_some_iff.mp hm).1]
  exact hm

variable {v : Place} {l : List Event}

theorem Place.Fits.mono {o : Option Packet} (h : v.Fits x i o) (hacc : x.accepted <+: y.accepted) : v.Fits y i o := by
  cases v with
  | free => exact h
  | parked n | queued n | sent n =>
    obtain ⟨m, hm, hholds, hexp⟩ := h
    exact ⟨m, hm, hholds.mono hacc, hexp⟩

theorem Carries.holds (h : Carries place x) (hi : (place i).message = some n) :
    ∃ e, x.inflight.get i = some e ∧ x.Holds i n e := by
  have hfits := h.fits i
  cases hv : place i with
  | free =>
    rw [hv] at hi
    cases hi
  | _ k =>
    rw [hv] at hi hfits
    cases hi
    obtain ⟨e, he, hholds, -⟩ := hfits
    exact ⟨e, he, hholds⟩

theorem Carries.lt_length (h : Carries place x) (hi : (place i).message = some n) : n < x.accepted.length := by
  obtain ⟨e, -, hholds⟩ := h.holds hi
  obtain ⟨m, hm, -⟩ := hholds.message
  exact (List.getElem?_eq_some_iff.mp hm).1

theorem Carries.unique (h : Carries place x) {j : UInt16} (hi : (place i).message = some n)
    (hj : (place j).message = some n) : i = j := by
  obtain ⟨_, -, hholds⟩ := h.holds hi
  obtain ⟨_, -, hholds'⟩ := h.holds hj
  obtain ⟨m, hm, hid, -⟩ := hholds.message
  obtain ⟨m', hm', hid', -⟩ := hholds'.message
  rw [hm] at hm'
  cases hm'
  exact hid.symm.trans hid'

theorem Carries.alter (h : Carries place x) (hacc : x.accepted <+: y.accepted)
    (hget : ∀ j, j ≠ i → y.inflight.get j = x.inflight.get j) (hfits : v.Fits y i (y.inflight.get i))
    (hothers : ∀ j k, j ≠ i → (place j).message = some k → y.owner j = x.owner j ∧
      y.acknowledged.count k = x.acknowledged.count k ∧ y.transmitted.count k = x.transmitted.count k)
    (hself : ∀ k, v.message = some k → y.owner i = some k ∧ y.acknowledged.count k = 0 ∧
      y.transmitted.count k = v.transmissions)
    (hfinished : ∀ k, k < y.accepted.length → (∃ j, j ≠ i ∧ (place j).message = some k) ∨ v.message = some k ∨
      y.acknowledged.count k = 1 ∧ y.transmitted.count k = 1)
    (hknown : ∀ k, y.accepted.length ≤ k → y.acknowledged.count k = 0 ∧ y.transmitted.count k = 0)
    (hnodup : (y.outbound.map Packet.packetID).Nodup)
    (hqueued : ∀ pk ∈ y.outbound, pk ∈ x.outbound ∧ pk.packetID ≠ i ∨
      pk.packetID = i ∧ ∃ k, v = .queued k ∧ y.Holds i k pk)
    (hwaiting : ∀ pk ∈ x.outbound, pk.packetID ≠ i → pk ∈ y.outbound)
    (hnew : ∀ k, v = .queued k → ∃ pk ∈ y.outbound, pk.packetID = i) :
    Carries (Function.update place i v) y := by
  refine ⟨?_, ?_, ?_, ?_, fun k hk => ?_, hknown, hnodup, fun pk hpk => ?_, ?_⟩
  · refine (Function.forall_update_iff place fun j w => w.Fits y j (y.inflight.get j)).mpr ⟨hfits, fun j hj => ?_⟩
    rw [hget j hj]
    exact (h.fits j).mono hacc
  · exact (Function.forall_update_iff place fun j w => ∀ k, w.message = some k → y.owner j = some k).mpr
      ⟨fun k hk => (hself k hk).1, fun j hj k hk => (hothers j k hj hk).1.trans (h.owned j k hk)⟩
  · exact (Function.forall_update_iff place fun _ w => ∀ k, w.message = some k → y.acknowledged.count k = 0).mpr
      ⟨fun k hk => (hself k hk).2.1, fun j hj k hk => (hothers j k hj hk).2.1.trans (h.unanswered j k hk)⟩
  · exact (Function.forall_update_iff place fun _ w => ∀ k, w.message = some k →
      y.transmitted.count k = w.transmissions).mpr
      ⟨fun k hk => (hself k hk).2.2, fun j hj k hk => (hothers j k hj hk).2.2.trans (h.once j k hk)⟩
  · obtain ⟨j, hj, hjk⟩ | hv | hdone := hfinished k hk
    · refine .inl ⟨j, ?_⟩
      rw [Function.update_of_ne hj]
      exact hjk
    · refine .inl ⟨i, ?_⟩
      rw [Function.update_self]
      exact hv
    · exact .inr hdone
  · obtain ⟨hold, hne⟩ | ⟨heq, k, hv, hholds⟩ := hqueued pk hpk
    · obtain ⟨k, hk, hholds⟩ := h.queued pk hold
      refine ⟨k, ?_, hholds.mono hacc⟩
      rw [Function.update_of_ne hne]
      exact hk
    · refine ⟨k, ?_, ?_⟩
      · rw [heq, Function.update_self]
        exact hv
      · rw [heq]
        exact hholds
  · refine (Function.forall_update_iff place fun j w => ∀ k, w = .queued k → ∃ pk ∈ y.outbound, pk.packetID = j).mpr
      ⟨hnew, fun j hj k hk => ?_⟩
    obtain ⟨pk, hpk, hid⟩ := h.waiting j k hk
    exact ⟨pk, hwaiting pk hpk (fun heq => hj (hid.symm.trans heq)), hid⟩

/-! ### Moves -/

theorem transmitted_update {s : Session} (l : List Event) (hlog : s.log = x.session.log ++ l) :
    (x.update s).transmitted = x.transmitted ++ l.filterMap x.carriedBy := by
  unfold update
  rw [hlog, List.drop_left]

theorem transmitted_silent {s : Session} (hlog : s.log = x.session.log ++ l)
    (hes : l.filterMap x.carriedBy = []) : (x.update s).transmitted = x.transmitted := by
  rw [transmitted_update l hlog, hes]
  exact List.append_nil _

theorem update_update {s t : Session} (hs : x.session.log <+: s.log) (ht : s.log <+: t.log) :
    (x.update s).update t = x.update t := by
  obtain ⟨l, hes⟩ := hs
  obtain ⟨l', hes'⟩ := ht
  have hone : (x.update s).transmitted = x.transmitted ++ l.filterMap x.carriedBy := transmitted_update l hes.symm
  have htwo : ((x.update s).update t).transmitted = (x.update s).transmitted ++ l'.filterMap x.carriedBy :=
    transmitted_update (x := x.update s) l' hes'.symm
  have hall : (x.update t).transmitted = x.transmitted ++ (l ++ l').filterMap x.carriedBy := by
    refine transmitted_update (l ++ l') ?_
    rw [← hes', ← hes, List.append_assoc]
  have hsame : ((x.update s).update t).transmitted = (x.update t).transmitted := by
    rw [htwo, hone, hall, List.filterMap_append, List.append_assoc]
  show { x with session := t, transmitted := ((x.update s).update t).transmitted } =
    ({ x with session := t, transmitted := (x.update t).transmitted } : Line)
  rw [hsame]

theorem carriedBy_wrote (h : x.Holds i n e) (howner : x.owner i = some n) (topic : Bytes) :
    x.carriedBy (.wrote e topic) = some n := by
  obtain ⟨m, hm, -, hpayload⟩ := h.message
  unfold carriedBy
  dsimp only
  rw [if_pos ⟨h.type, h.qos⟩, h.id, howner]
  refine Option.filter_eq_some_iff.mpr ⟨rfl, ?_⟩
  rw [hm, Option.any_some, hpayload]
  exact beq_self_eq_true _

theorem Carries.ne_outbound (h : Carries place x) (hi : ∀ k, place i ≠ .queued k) :
    ∀ pk ∈ x.outbound, pk.packetID ≠ i := by
  intro pk hpk heq
  obtain ⟨k, hk, -⟩ := h.queued pk hpk
  exact hi k (heq ▸ hk)

theorem count_concat_of_ne {l : List Nat} {k : Nat} (hk : k ≠ n) : (l ++ [n]).count k = l.count k := by
  rw [List.count_append, List.count_singleton, beq_false_of_ne (Ne.symm hk)]
  rfl

theorem Carries.enter (h : Carries place x) {s : Session}
    (hfree : place m.packetID = .free) (hv : v = .parked x.accepted.length ∨ v = .queued x.accepted.length)
    (hlog : s.log = x.session.log ++ l) (hes : ∀ z : Line, l.filterMap z.carriedBy = [])
    (hget : ∀ j, j ≠ m.packetID → s.client.inflight.get j = x.inflight.get j)
    (hfits : v.Fits (x.accept m) m.packetID (s.client.inflight.get m.packetID))
    (hqueue : v = .parked x.accepted.length ∧ s.client.queue = x.session.client.queue ∨
      v = .queued x.accepted.length ∧ ∃ q, s.client.queue = x.session.client.queue ++ [q] ∧
        (x.accept m).Holds m.packetID x.accepted.length q.packet) :
    Carries (Function.update place m.packetID v) ((x.accept m).update s) := by
  have hout : ((x.accept m).update s).transmitted = x.transmitted := transmitted_silent (x := x.accept m) hlog (hes _)
  have hmessage : v.message = some x.accepted.length ∧ v.transmissions = 0 := by
    rcases hv with rfl | rfl <;> exact ⟨rfl, rfl⟩
  have hnone := h.known x.accepted.length (Nat.le_refl _)
  have hnot := h.ne_outbound (i := m.packetID) (by rw [hfree]; exact nofun)
  obtain ⟨new, hadd, hids, hholds, hqueued⟩ : ∃ new : List Packet,
      ((x.accept m).update s).outbound = x.outbound ++ new ∧
      (new.map Packet.packetID).Nodup ∧
      (∀ pk ∈ new, v = .queued x.accepted.length ∧ (x.accept m).Holds m.packetID x.accepted.length pk) ∧
      ∀ k, v = .queued k → ∃ pk, pk ∈ new := by
    have hout : ((x.accept m).update s).outbound = (s.client.queue.map fun q => q.packet).filter _ := rfl
    obtain ⟨rfl, hq⟩ | ⟨hp, q, hq, hholds⟩ := hqueue
    · refine ⟨[], ?_, List.nodup_nil, fun _ hpk => absurd hpk List.not_mem_nil, fun _ hk => nomatch hk⟩
      rw [hout, hq, List.append_nil]
      rfl
    · refine ⟨[q.packet], ?_, List.nodup_singleton _, fun pk hpk => ?_, fun _ _ => ⟨_, List.mem_singleton.mpr rfl⟩⟩
      · rw [hout, hq, List.map_append, List.filter_append]
        exact congrArg _ (List.filter_cons_of_pos (decide_eq_true hholds.qos))
      · rw [List.mem_singleton.mp hpk]
        exact ⟨hp, hholds⟩
  have hsame : (x.accept m).accepted <+: ((x.accept m).update s).accepted := List.prefix_refl _
  refine h.alter (List.prefix_append _ _) hget (hfits.mono hsame) (fun j k hj hk => ⟨?_, rfl, ?_⟩) (fun k hk => ?_)
    (fun k hk => ?_)
    (fun k hk => ?_) ?_ (fun pk hpk => ?_) (fun pk hpk _ => ?_) (fun k hk => ?_)
  · exact Function.update_of_ne hj _ _
  · rw [hout]
  · rw [hmessage.1] at hk
    cases hk
    rw [hmessage.2, hout]
    exact ⟨Function.update_self _ _ _, hnone⟩
  · have hlen : ((x.accept m).update s).accepted.length = x.accepted.length + 1 := List.length_append
    rw [hlen] at hk
    by_cases hlast : k = x.accepted.length
    · exact .inr (.inl (hlast ▸ hmessage.1))
    · obtain ⟨j, hj⟩ | hdone := h.finished k (by omega)
      · refine .inl ⟨j, fun heq => ?_, hj⟩
        rw [heq, hfree] at hj
        cases hj
      · rw [hout]
        exact .inr (.inr hdone)
  · have hlen : ((x.accept m).update s).accepted.length = x.accepted.length + 1 := List.length_append
    rw [hlen] at hk
    rw [hout]
    exact h.known k (by omega)
  · rw [hadd, List.map_append]
    refine List.nodup_append.mpr ⟨h.nodup, hids, fun a ha b hb heq => ?_⟩
    obtain ⟨pk, hpk, rfl⟩ := List.mem_map.mp ha
    obtain ⟨pk', hpk', rfl⟩ := List.mem_map.mp hb
    exact hnot pk hpk (heq.trans (hholds pk' hpk').2.id)
  · rw [hadd] at hpk
    rcases List.mem_append.mp hpk with hold | hnew
    · exact .inl ⟨hold, hnot pk hold⟩
    · obtain ⟨hp, hpk⟩ := hholds pk hnew
      exact .inr ⟨hpk.id, _, hp, hpk.mono hsame⟩
  · rw [hadd]
    exact List.mem_append_left _ hpk
  · obtain ⟨pk, hpk⟩ := hqueued k hk
    refine ⟨pk, ?_, (hholds pk hpk).2.id⟩
    rw [hadd]
    exact List.mem_append_right _ hpk

theorem Carries.leave (h : Carries place x) {s : Session}
    (hi : (place i).message = some n) (hbefore : (place i).transmissions = 0)
    (hlog : s.log = x.session.log ++ l) (hes : l.filterMap x.carriedBy = [n])
    (hget : ∀ j, j ≠ i → s.client.inflight.get j = x.inflight.get j)
    (hfits : (Place.sent n).Fits x i (s.client.inflight.get i))
    (hnodup : ((x.update s).outbound.map Packet.packetID).Nodup)
    (hqueue : ∀ pk, pk ∈ (x.update s).outbound ↔ pk ∈ x.outbound ∧ pk.packetID ≠ i) :
    Carries (Function.update place i (.sent n)) (x.update s) := by
  have hout : (x.update s).transmitted = x.transmitted ++ [n] := by
    rw [transmitted_update l hlog, hes]
  have hcount : ∀ k, k ≠ n → (x.update s).transmitted.count k = x.transmitted.count k := by
    intro k hk
    rw [hout, count_concat_of_ne hk]
  have hsame : x.accepted <+: (x.update s).accepted := List.prefix_refl _
  refine h.alter hsame hget (hfits.mono hsame) (fun j k hj hk => ⟨rfl, rfl, hcount k fun heq => ?_⟩) (fun k hk => ?_)
    (fun k hk => ?_) (fun k hk => ?_) hnodup (fun pk hpk => .inl ((hqueue pk).mp hpk))
    (fun pk hpk hne => (hqueue pk).mpr ⟨hpk, hne⟩) (fun k hk => nomatch hk)
  · rw [heq] at hk
    exact hj (h.unique hk hi)
  · cases hk
    refine ⟨h.owned i n hi, h.unanswered i n hi, ?_⟩
    rw [hout, List.count_append, h.once i n hi, hbefore, List.count_singleton_self]
    rfl
  · obtain ⟨j, hj⟩ | hdone := h.finished k hk
    · by_cases hji : j = i
      · rw [hji, hi] at hj
        cases hj
        exact .inr (.inl rfl)
      · exact .inl ⟨j, hji, hj⟩
    · refine .inr (.inr ⟨hdone.1, (hcount k fun heq => ?_).trans hdone.2⟩)
      rw [heq, h.unanswered i n hi] at hdone
      cases hdone.1
  · refine ⟨(h.known k hk).1, (hcount k fun heq => ?_).trans (h.known k hk).2⟩
    have hlt := h.lt_length hi
    have hle : x.accepted.length ≤ k := hk
    omega

theorem Carries.finish (h : Carries place x) {s : Session} (hi : place i = .sent n)
    (hlog : s.log = x.session.log ++ l) (hes : ∀ z : Line, l.filterMap z.carriedBy = [])
    (hget : ∀ j, s.client.inflight.get j = if j = i then none else x.inflight.get j)
    (hqueue : s.client.queue = x.session.client.queue) :
    Carries (Function.update place i .free) ((x.acknowledge i).update s) := by
  have hmessage : (place i).message = some n := congrArg Place.message hi
  have hout : ((x.acknowledge i).update s).transmitted = x.transmitted :=
    transmitted_silent (x := x.acknowledge i) hlog (hes _)
  have hack : ((x.acknowledge i).update s).acknowledged = x.acknowledged ++ [n] := by
    show x.acknowledged ++ (x.owner i).toList = _
    rw [h.owned i n hmessage]
    rfl
  have hcount : ∀ k, k ≠ n → ((x.acknowledge i).update s).acknowledged.count k = x.acknowledged.count k := by
    intro k hk
    rw [hack, count_concat_of_ne hk]
  have houtbound : ((x.acknowledge i).update s).outbound = x.outbound := by
    show (s.client.queue.map _).filter _ = _
    rw [hqueue]
    rfl
  have hnot := h.ne_outbound (i := i) (by rw [hi]; exact nofun)
  have hsame : x.accepted <+: ((x.acknowledge i).update s).accepted := List.prefix_refl _
  refine h.alter hsame (fun j hj => (hget j).trans (if_neg hj)) ((hget i).trans (if_pos rfl))
    (fun j k hj hk => ⟨rfl, hcount k fun heq => ?_, by rw [hout]⟩) (fun k hk => nomatch hk) (fun k hk => ?_)
    (fun k hk => ?_) ?_ (fun pk hpk => ?_) (fun pk hpk _ => ?_) (fun k hk => nomatch hk)
  · rw [heq] at hk
    exact hj (h.unique hk hmessage)
  · by_cases hkn : k = n
    · refine .inr (.inr ?_)
      rw [hkn, hack, hout, List.count_append, h.unanswered i n hmessage, List.count_singleton_self,
        h.once i n hmessage, hi]
      exact ⟨rfl, rfl⟩
    · obtain ⟨j, hj⟩ | hdone := h.finished k hk
      · refine .inl ⟨j, fun heq => hkn ?_, hj⟩
        rw [heq, hmessage] at hj
        exact (Option.some.inj hj).symm
      · rw [hcount k hkn, hout]
        exact .inr (.inr hdone)
  · have hlt := h.lt_length hmessage
    have hle : x.accepted.length ≤ k := hk
    rw [hcount k (by omega), hout]
    exact h.known k hk
  · rw [houtbound]
    exact h.nodup
  · rw [houtbound] at hpk
    exact .inl ⟨hpk, hnot pk hpk⟩
  · rw [houtbound]
    exact hpk

theorem Carries.still (h : Carries place x) {s : Session} (hlog : s.log = x.session.log ++ l)
    (hes : l.filterMap x.carriedBy = []) (hget : ∀ j, s.client.inflight.get j = x.inflight.get j)
    (hqueue : (x.update s).outbound = x.outbound) : Carries place (x.update s) := by
  have hout := transmitted_silent hlog hes
  have hsame : x.accepted <+: (x.update s).accepted := List.prefix_refl _
  refine ⟨fun i => ?_, h.owned, h.unanswered, ?_, ?_, ?_, ?_, ?_, ?_⟩
  · show (place i).Fits _ i (s.client.inflight.get i)
    rw [hget]
    exact (h.fits i).mono hsame
  · rw [hout]
    exact h.once
  · rw [hout]
    exact h.finished
  · rw [hout]
    exact h.known
  · rw [hqueue]
    exact h.nodup
  · rw [hqueue]
    intro pk hpk
    obtain ⟨n, hn, hholds⟩ := h.queued pk hpk
    exact ⟨n, hn, hholds.mono hsame⟩
  · rw [hqueue]
    exact h.waiting

end Line

/-! ### Sessions whose quota is exact -/

namespace Session
open Inflight
variable {env : Env} {s : Session} {pk out : Packet}

def IsLive (s : Session) : Prop := s.client.conn = true ∧ s.client.closed = false

theorem IsLive.not_down (h : s.IsLive) : ¬ ((!s.client.conn || s.client.closed) = true) := by
  rw [h.1, h.2]
  decide

theorem IsLive.writePacketOn (h : s.IsLive) (hw : ¬ Fails env s pk) (topic : Bytes) :
    s.writePacketOn env topic pk = (none, s.emit (.wrote (s.outgoing env pk) topic)) := by
  obtain ⟨-, -, hwritten⟩ | ⟨-, hconn, -⟩ | ⟨hfails, -⟩ := writePacketOn_cases env s topic pk
  · exact hwritten
  · rw [h.1] at hconn
    cases hconn
  · exact absurd hfails hw

theorem IsLive.sendDeferred (h : s.IsLive) {next : Packet} (hw : ¬ Fails env s next) :
    sendDeferred env s next = .again (s.emit (.wrote (s.outgoing env next) next.topicName)) := by
  unfold Session.sendDeferred writePacket
  rw [if_neg h.not_down, h.writePacketOn hw]

theorem Resumable.takeDeferred (h : s.Resumable env) (pk : Packet) (e : Event) :
    ((s.takeDeferred pk).emit e).Resumable env := by
  intro id p hp hdef
  have hget : ((s.takeDeferred pk).emit e).client.inflight.get id =
      if id = pk.packetID then some { pk with expiry := 0 } else s.client.inflight.get id := get_put _ _ _
  rw [hget] at hp
  split at hp
  · cases hp
    cases hdef
  · exact h id p hp hdef

theorem resumeLoop_live {Inv : Session → Prop}
    (hsent : ∀ {s pk}, Inv s → s.IsLive → 0 < s.client.inflight.sendQuota →
      s.client.inflight.get pk.packetID = some pk → pk.expiry = inflightExpiryDeferred →
      Inv ((s.takeDeferred pk).emit
        (.wrote ((s.takeDeferred pk).outgoing env { pk with expiry := 0 }) pk.topicName)))
    (hlive : s.IsLive) (hw : s.Resumable env) (h : Inv s) : Inv (resumeLoop env s).2 ∧ (resumeLoop env s).2.IsLive ∧
      ((resumeLoop env s).2.client.inflight.sendQuota ≤ 0 ∨
        ∀ id pk, (resumeLoop env s).2.client.inflight.get id = some pk → pk.expiry ≠ inflightExpiryDeferred) := by
  induction hn : s.client.inflight.sendQuota.toNat using Nat.strong_induction_on generalizing s with
  | h n ih =>
    rw [resumeLoop]
    split
    · rename_i hquota
      obtain ⟨hstop, hnone⟩ | ⟨pk, hpk, hdef, -, hturn⟩ := resumeTurn_cases env s hquota
      · split
        · rename_i heq
          rw [hstop] at heq
          cases heq
          exact ⟨h, hlive, .inr hnone⟩
        · rename_i heq
          rw [hstop] at heq
          cases heq
      · have hlive' : (s.takeDeferred pk).IsLive := hlive
        have hwritable : ¬ Fails env (s.takeDeferred pk) { pk with expiry := 0 } := hw pk.packetID pk hpk hdef
        rw [hlive'.sendDeferred hwritable] at hturn
        split
        · rename_i heq
          rw [hturn] at heq
          cases heq
        · rename_i heq
          rw [hturn] at heq
          cases heq
          refine ih _ ?_ hlive (hw.takeDeferred pk _) (hsent h hlive hquota hpk hdef) rfl
          have hlt : (s.client.inflight.sendQuota - 1).toNat < n := by omega
          exact hlt
    · rename_i hquota
      exact ⟨h, hlive, .inl (Int.not_lt.mp hquota)⟩

theorem QuotaExact.sendQos_enters (h : s.QuotaExact) (hlive : s.IsLive) {r : Packet}
    (hget : s.client.inflight.get out.packetID = some r) (hr : r.expiry = inflightExpiryReserved)
    (hqos : 0 < out.fixedHeader.qos) (hroom : s.client.queue.length < s.server.caps.maximumClientWritesPending) :
    ∃ t e expiry, s.sendQos env pk out = (none, t) ∧ e = { out with expiry := expiry } ∧ t.IsLive ∧
      t.log = s.log ++ [.qosPublish e] ∧ (∀ i, t.client.inflight.get i = (s.client.inflight.put e).get i) ∧
      t.client.inflight.maximumSendQuota = s.client.inflight.maximumSendQuota ∧
      t.client.packetID = s.client.packetID ∧
      (expiry = inflightExpiryDeferred ∧ t.client.queue = s.client.queue ∧ t.client.inflight.sendQuota ≤ 0 ∨
        expiry = out.expiry ∧ 0 < s.client.inflight.sendQuota ∧ t.client.queue = s.client.queue ++
          [⟨e, pk.topicName⟩]) := by
  have hlim := h.exact.limited
  obtain ⟨hparks, heq⟩ | ⟨hopen, quota, maximum, htaken, heq⟩ := sendQos_cases env pk hget hr
  · have hidle : ¬ s.client.inflight.HeldAt out.packetID := not_heldAt_of_reserved hget hr
    have hstored : (s.park out).QuotaExact := by
      refine h.of_inflight rfl (h.exact.put ?_ fun _ => hqos)
      rw [holdsQuota_deferred rfl]
      exact any_holdsQuota_of_not_heldAt hidle
    rw [heq, hstored.resume_eq, resumeLoop_starved (s := s.park out) hparks.2.2]
    exact ⟨_, _, _, rfl, rfl, hlive, rfl, fun _ => rfl, rfl, rfl, .inl ⟨rfl, rfl, hparks.2.2⟩⟩
  · have hpos : 0 < s.client.inflight.sendQuota := Int.not_le.mp fun hle => hopen ⟨h.version, hlim, hle⟩
    obtain ⟨rfl, rfl⟩ := htaken h.version
    rw [if_pos hlim] at heq
    have hcan : (s.storeQos out (s.client.inflight.sendQuota - 1) s.client.inflight.maximumSendQuota).CanQueue :=
      ⟨hlive.1, hlive.2, hroom⟩
    obtain ⟨-, hqueued⟩ | ⟨hfull, -⟩ := enqueue_cases
      (s.storeQos out (s.client.inflight.sendQuota - 1) s.client.inflight.maximumSendQuota) pk out
    · rw [heq, hqueued]
      exact ⟨_, out, out.expiry, rfl, rfl, hlive, rfl, fun _ => rfl, rfl, rfl, .inr ⟨rfl, hpos, rfl⟩⟩
    · exact absurd hcan hfull

end Session

namespace Line
open Session Inflight
variable {place : UInt16 → Place} {x y : Line} {env : Env} {i : UInt16} {n : Nat} {maximum : Int} {pk : Packet}

/-- Every message accepted is in one place, the quota is exact, and a message is parked only if the quota
is used up. -/
structure Sound (maximum : Int) (x : Line) : Prop where
  registered : ∀ i n, x.owner i = some n → ∃ m, x.accepted[n]? = some m ∧ m.packetID = i
  carried : ∃ place, Carries place x
  quota : x.session.QuotaExact
  limit : x.inflight.maximumSendQuota = maximum
  live : x.session.IsLive
  starved : ∀ id e, x.inflight.get id = some e → e.expiry = inflightExpiryDeferred → x.inflight.sendQuota ≤ 0

theorem Carries.free_of_get (h : Carries place x) (hi : x.inflight.get i = none) : place i = .free := by
  have hfits := h.fits i
  rw [hi] at hfits
  cases hv : place i with
  | free => rfl
  | _ k =>
    rw [hv] at hfits
    obtain ⟨m, hm, -⟩ := hfits
    cases hm

theorem Carries.parked_of_get (h : Carries place x) {e : Packet} (hi : x.inflight.get i = some e)
    (hdef : e.expiry = inflightExpiryDeferred) : ∃ n, place i = .parked n ∧ x.Holds i n e := by
  have hfits := h.fits i
  rw [hi] at hfits
  cases hv : place i with
  | free =>
    rw [hv] at hfits
    cases hfits
  | parked n =>
    rw [hv] at hfits
    obtain ⟨m, hm, hholds, -⟩ := hfits
    cases hm
    exact ⟨n, rfl, hholds⟩
  | _ n =>
    rw [hv] at hfits
    obtain ⟨m, hm, -, hplain⟩ := hfits
    cases hm
    exact absurd hdef hplain.1

theorem Sound.still (h : x.Sound maximum) {s : Session} {l : List Event} (hlog : s.log = x.session.log ++ l)
    (hes : l.filterMap x.carriedBy = []) (hinflight : s.client.inflight = x.inflight)
    (hqueue : s.client.queue = x.session.client.queue)
    (hversion : s.client.protocolVersion = x.session.client.protocolVersion) (hlive : s.IsLive) :
    (x.update s).Sound maximum := by
  obtain ⟨place, hplace⟩ := h.carried
  refine ⟨h.registered, ⟨place, hplace.still hlog hes (fun j => by rw [hinflight]) ?_⟩, ?_, ?_, hlive, ?_⟩
  · show (s.client.queue.map _).filter _ = _
    rw [hqueue]
    rfl
  · refine h.quota.of_inflight hversion ?_
    show s.client.inflight.Exact
    rw [hinflight]
    exact h.quota.exact
  · show s.client.inflight.maximumSendQuota = maximum
    rw [hinflight]
    exact h.limit
  · intro id e he hdef
    have he : s.client.inflight.get id = some e := he
    rw [hinflight] at he
    show s.client.inflight.sendQuota ≤ 0
    rw [hinflight]
    exact h.starved id e he hdef

theorem Sound.enter (h : x.Sound maximum) {t : Session} {m e : Packet} (hfree : x.inflight.get m.packetID = none)
    (hlog : t.log = x.session.log ++ [.qosPublish e])
    (hget : ∀ i, t.client.inflight.get i = if i = m.packetID then some e else x.inflight.get i)
    (hid : e.packetID = m.packetID) (hpayload : e.payload = m.payload) (htype : e.fixedHeader.type = .publish)
    (hqos : 0 < e.fixedHeader.qos) (hquota : t.QuotaExact) (hlimit : t.client.inflight.maximumSendQuota = maximum)
    (hlive : t.IsLive)
    (hwhere : e.expiry = inflightExpiryDeferred ∧ t.client.queue = x.session.client.queue ∧
        t.client.inflight.sendQuota ≤ 0 ∨
      Plain e.expiry ∧ 0 < x.inflight.sendQuota ∧ ∃ topic, t.client.queue = x.session.client.queue ++ [⟨e, topic⟩]) :
    ((x.accept m).update t).Sound maximum := by
  obtain ⟨place, hplace⟩ := h.carried
  have hplacefree := hplace.free_of_get hfree
  have hholds : (x.accept m).Holds m.packetID x.accepted.length e :=
    ⟨hid, ⟨m, List.getElem?_concat_length, rfl, hpayload⟩, htype, hqos⟩
  have hself : t.client.inflight.get m.packetID = some e := (hget _).trans (if_pos rfl)
  have hothers : ∀ i, i ≠ m.packetID → t.client.inflight.get i = x.inflight.get i :=
    fun i hi => (hget i).trans (if_neg hi)
  have hnothing : ∀ z : Line, [Event.qosPublish e].filterMap z.carriedBy = [] := fun _ => rfl
  refine ⟨fun i k hk => ?_, ?_, hquota, hlimit, hlive, fun id e' he' hdef => ?_⟩
  · by_cases hi : i = m.packetID
    · rw [hi] at hk
      have hlast : some x.accepted.length = some k := (Function.update_self m.packetID _ x.owner).symm.trans hk
      cases hlast
      exact ⟨m, List.getElem?_concat_length, hi.symm⟩
    · have hold : x.owner i = some k := (Function.update_of_ne hi _ x.owner).symm.trans hk
      obtain ⟨m', hm', hid'⟩ := h.registered i k hold
      exact ⟨m', (List.getElem?_append_left (List.getElem?_eq_some_iff.mp hm').1).trans hm', hid'⟩
  · obtain ⟨hexp, hqueue, -⟩ | ⟨hexp, -, topic, hqueue⟩ := hwhere
    · exact ⟨_, hplace.enter hplacefree (.inl rfl) hlog hnothing hothers ⟨e, hself, hholds, hexp⟩
        (.inl ⟨rfl, hqueue⟩)⟩
    · exact ⟨_, hplace.enter hplacefree (.inr rfl) hlog hnothing hothers ⟨e, hself, hholds, hexp⟩
        (.inr ⟨rfl, _, hqueue, hholds⟩)⟩
  · obtain ⟨-, -, hstarved⟩ | ⟨hexp, hpos, -⟩ := hwhere
    · exact hstarved
    · -- with quota left nothing was parked before
      have he' : t.client.inflight.get id = some e' := he'
      rw [hget] at he'
      split at he'
      · cases he'
        exact absurd hdef hexp.1
      · exact absurd (h.starved id e' he' hdef) (Int.not_le.mpr hpos)

theorem Sound.sendQos (h : x.Sound maximum) (env : Env) {out : Packet} {j : Nat} {outbound : OutboundTopicAliases}
    (hfree : x.inflight.get (UInt16.ofNat j) = none) (hid : out.packetID = UInt16.ofNat j)
    (hreserved : (x.session.reserve env outbound j).client.inflight.get out.packetID =
      some (reservation env.now (UInt16.ofNat j)))
    (hpayload : out.payload = pk.payload) (htype : out.fixedHeader.type = .publish) (hqos : 0 < out.fixedHeader.qos)
    (hplain : Plain out.expiry)
    (hroom : x.session.client.queue.length < x.session.server.caps.maximumClientWritesPending) :
    ∃ t, (x.session.reserve env outbound j).sendQos env pk out = (none, t) ∧
      ((x.accept { pk with packetID := UInt16.ofNat t.client.packetID }).update t).Sound maximum := by
  have hquota : (x.session.reserve env outbound j).QuotaExact := by
    refine h.quota.of_inflight rfl (h.quota.exact.put ?_ nofun)
    rw [show (reservation env.now (UInt16.ofNat j)).packetID = UInt16.ofNat j from rfl,
      show x.session.client.inflight.get (UInt16.ofNat j) = none from hfree]
    exact (holdsQuota_reserved rfl).symm
  have hexact : ((x.session.reserve env outbound j).sendQos env pk out).2.QuotaExact :=
    hquota.sendQos hreserved rfl hplain hqos
  obtain ⟨t, e, expiry, hsend, rfl, hlive, hlog, hget, hmax, hcursor, hwhere⟩ :=
    @QuotaExact.sendQos_enters env _ pk out hquota h.live _ hreserved rfl hqos hroom
  rw [hsend] at hexact
  refine ⟨t, hsend, ?_⟩
  rw [hcursor]
  refine h.enter (e := { out with expiry := expiry }) hfree hlog (fun i => ?_) hid hpayload htype hqos hexact
    (hmax.trans h.limit) hlive (hwhere.imp_right fun ⟨hkept, hpos, hqueue⟩ => ⟨?_, hpos, pk.topicName, hqueue⟩)
  · rw [hget, get_put]
    by_cases hi : i = UInt16.ofNat j
    · exact (if_pos (hi.trans hid.symm)).trans (if_pos hi).symm
    · refine (if_neg fun heq => hi (heq.trans hid)).trans (Eq.trans ?_ (if_neg hi).symm)
      exact (get_put _ _ _).trans (if_neg hi)
  · show Plain expiry
    rw [hkept]
    exact hplain

variable {sub : Subscription}

theorem Sound.publishToClient (h : x.Sound maximum)
    {pk : { pk : Packet // pk.fixedHeader.type = .publish }} (hreg : x.Regular (env, .publish sub pk)) :
    ∃ err s, x.session.publishToClient env sub pk.1 = (err, s) ∧
      ((err.isNone && !x.session.isLocal sub pk.1) = false ∧ (x.update s).Sound maximum ∨
        (err.isNone && !x.session.isLocal sub pk.1) = true ∧
          ((x.accept { pk.1 with packetID := UInt16.ofNat s.client.packetID }).update s).Sound maximum) := by
  obtain ⟨hplain, hqos, hroom⟩ := hreg
  have hsame : (x.update x.session).Sound maximum :=
    h.still (List.append_nil _).symm rfl rfl rfl rfl h.live
  have hcases := publishToClient_cases env x.session sub pk.1
  generalize x.session.publishToClient env sub pk.1 = result at hcases ⊢
  cases hcases with
  | own hlocal =>
    rw [hlocal]
    exact ⟨_, _, rfl, .inl ⟨rfl, hsame⟩⟩
  | unauthorized => exact ⟨_, _, rfl, .inl ⟨rfl, hsame⟩⟩
  | exhausted =>
    exact ⟨_, _, rfl, .inl ⟨rfl, h.still (l := [.packetIDExhausted pk.1]) rfl rfl rfl rfl rfl h.live⟩⟩
  | @sent outbound j out hlocal hpos _ hfree hout hid hreserved hheader hexpiry =>
    have hpayload : out.payload = pk.1.payload := by
      rw [hout]
      exact Packet.fillFrom_payload _ _ (prepare_payload x.session sub pk.1)
    have htype : out.fixedHeader.type = .publish := by
      rw [hheader]
      exact (prepare_type x.session sub pk.1).trans pk.2
    have hqos' : 0 < out.fixedHeader.qos := by
      rw [hheader]
      exact hpos
    have hplain' : Plain out.expiry := by
      rw [hexpiry]
      exact hplain
    obtain ⟨t, hsend, hsound⟩ := h.sendQos env hfree hid hreserved hpayload htype hqos' hplain' hroom
    rw [hlocal]
    exact ⟨none, t, hsend, .inr ⟨rfl, hsound⟩⟩
  | queued _ hnone =>
    rw [hqos] at hnone
    exact absurd (by decide) hnone

theorem Sound.publish (h : x.Sound maximum) {pk : { pk : Packet // pk.fixedHeader.type = .publish }}
    (hreg : x.Regular (env, .publish sub pk)) : (x.run env (.publish sub pk)).Sound maximum := by
  obtain ⟨err, s, hresult, ⟨hrefused, hsound⟩ | ⟨haccepted, hsound⟩⟩ := h.publishToClient hreg
  · dsimp only [run]
    rw [hresult]
    dsimp only
    rw [hrefused]
    exact hsound
  · dsimp only [run]
    rw [hresult]
    dsimp only
    rw [haccepted]
    exact hsound

/-! ### The write loop and acknowledgements -/

theorem Holds.outgoing {e : Packet} (h : x.Holds i n e) (env : Env) (s : Session) : x.Holds i n (s.outgoing env e) :=
  ⟨h.id, h.message, h.type, h.qos⟩

theorem outbound_cons {q : Queued} {rest : List Queued} (hqueue : x.session.client.queue = q :: rest) :
    x.outbound = if 0 < q.packet.fixedHeader.qos then
      q.packet :: (rest.map fun q => q.packet).filter fun pk => decide (0 < pk.fixedHeader.qos)
    else (rest.map fun q => q.packet).filter fun pk => decide (0 < pk.fixedHeader.qos) := by
  unfold outbound
  rw [hqueue, List.map_cons, List.filter_cons]
  simp only [decide_eq_true_eq]

theorem Sound.write (h : x.Sound maximum) (hreg : x.Regular (env, .write)) : (x.run env .write).Sound maximum := by
  obtain ⟨place, hplace⟩ := h.carried
  dsimp only [run]
  unfold writeNext
  split
  · exact h.still (List.append_nil _).symm rfl rfl rfl rfl h.live
  · rename_i q rest hqueue
    have hlive : ({ x.session with client := { x.session.client with queue := rest } } : Session).IsLive := h.live
    have hwritable : ¬ Fails env { x.session with client := { x.session.client with queue := rest } } q.packet :=
      hreg q (by rw [hqueue]; rfl)
    rw [hlive.writePacketOn hwritable]
    have hout := outbound_cons hqueue
    refine ⟨h.registered, ?_, h.quota.of_inflight rfl h.quota.exact, h.limit, h.live, h.starved⟩
    by_cases hqos : 0 < q.packet.fixedHeader.qos
    · rw [if_pos hqos] at hout
      have hmem : q.packet ∈ x.outbound := by
        rw [hout]
        exact List.mem_cons_self
      obtain ⟨n, hn, hholds⟩ := hplace.queued q.packet hmem
      have hnodup := hplace.nodup
      rw [hout, List.map_cons, List.nodup_cons] at hnodup
      have hmessage : (place q.packet.packetID).message = some n := by
        rw [hn]
        rfl
      have hfits := hplace.fits q.packet.packetID
      rw [hn] at hfits
      have hcarried := carriedBy_wrote
        (hholds.outgoing env { x.session with client := { x.session.client with queue := rest } })
        (hplace.owned _ n hmessage) q.topic
      refine ⟨_, hplace.leave (l := [_]) hmessage (by rw [hn]; rfl) rfl ?_ (fun _ _ => rfl) hfits hnodup.2 fun pk => ?_⟩
      · rw [List.filterMap_cons, hcarried]
        rfl
      · rw [hout, List.mem_cons]
        constructor
        · intro hpk
          refine ⟨.inr hpk, fun heq => hnodup.1 ?_⟩
          rw [← heq]
          exact List.mem_map_of_mem hpk
        · rintro ⟨heq | hpk, hne⟩
          · exact absurd (congrArg Packet.packetID heq) hne
          · exact hpk
    · rw [if_neg hqos] at hout
      refine ⟨place, hplace.still (l := [_]) rfl ?_ (fun _ => rfl) hout.symm⟩
      have hnone : x.carriedBy (.wrote (Session.outgoing env
          { x.session with client := { x.session.client with queue := rest } } q.packet) q.topic) = none :=
        if_neg fun hboth => hqos hboth.2
      rw [List.filterMap_cons, hnone]
      rfl

theorem Sound.of_resumeLoop (hregistered : ∀ i n, x.owner i = some n → ∃ m, x.accepted[n]? = some m ∧ m.packetID = i)
    (h : Carries place x) (hquota : x.session.QuotaExact) (hlimit : x.inflight.maximumSendQuota = maximum)
    (hlive : x.session.IsLive) (hw : x.session.Resumable env) :
    x.session.log <+: (resumeLoop env x.session).2.log ∧ (x.update (resumeLoop env x.session).2).Sound maximum := by
  have hstart : Carries place (x.update x.session) :=
    h.still (l := []) (List.append_nil _).symm rfl (fun _ => rfl) rfl
  have hloop := @resumeLoop_live env x.session (fun v => x.session.log <+: v.log ∧
    v.client.inflight.maximumSendQuota = maximum ∧ ∃ place', Carries place' (x.update v)) ?_ hlive hw
    ⟨List.prefix_refl _, hlimit, place, hstart⟩
  · obtain ⟨⟨hlog, hmax, hcarried⟩, hlive', hexhausted⟩ := hloop
    refine ⟨hlog, hregistered, hcarried, hquota.resumeLoop, hmax, hlive', fun id e he hdef => ?_⟩
    rcases hexhausted with hstarved | hnone
    · exact hstarved
    · exact absurd hdef (hnone id e he)
  rintro v pk ⟨hlog, hmax, place', hv⟩ - - hpk hdef
  have hnext : v.log <+: ((v.takeDeferred pk).emit
      (.wrote ((v.takeDeferred pk).outgoing env { pk with expiry := 0 }) pk.topicName)).log := List.prefix_append _ _
  refine ⟨hlog.trans hnext, hmax, ?_⟩
  rw [← update_update hlog hnext]
  obtain ⟨n, hat, hholds⟩ := hv.parked_of_get hpk hdef
  have hholds' : (x.update v).Holds pk.packetID n { pk with expiry := 0 } :=
    ⟨hholds.id, hholds.message, hholds.type, hholds.qos⟩
  have hmessage : (place' pk.packetID).message = some n := by
    rw [hat]
    rfl
  have hcarried := carriedBy_wrote (hholds'.outgoing env (v.takeDeferred pk)) (hv.owned _ n hmessage) pk.topicName
  have hput : ∀ j, (v.takeDeferred pk).client.inflight.get j =
      if j = pk.packetID then some { pk with expiry := 0 } else v.client.inflight.get j :=
    fun j => get_put _ _ _
  have hnot : ∀ p ∈ (x.update v).outbound, p.packetID ≠ pk.packetID := by
    intro p hp heq
    obtain ⟨k, hk, -⟩ := hv.queued p hp
    rw [heq, hat] at hk
    cases hk
  refine ⟨_, hv.leave (l := [_]) hmessage (by rw [hat]; rfl) rfl ?_ (fun j hj => (hput j).trans (if_neg hj))
    ⟨_, (hput _).trans (if_pos rfl), hholds', plain_of_nonneg (n := 0) (Int.le_refl 0)⟩ hv.nodup fun p =>
      ⟨fun hp => ⟨hp, hnot p hp⟩, And.left⟩⟩
  rw [List.filterMap_cons, hcarried]
  rfl

theorem Carries.sent_of_unanswered (h : Carries place x) (hopen : x.Unanswered n) : ∃ i, place i = .sent n := by
  unfold Unanswered at hopen
  by_cases hn : n < x.accepted.length
  · obtain ⟨i, hi⟩ | hdone := h.finished n hn
    · have hcount := h.once i n hi
      cases hv : place i with
      | sent k =>
        rw [hv] at hi
        cases hi
        exact ⟨i, hv⟩
      | _ =>
        rw [hv] at hcount
        rw [hcount] at hopen
        exact absurd hopen (Nat.not_lt_zero _)
    · rw [hdone.1, hdone.2] at hopen
      exact absurd hopen (Nat.lt_irrefl _)
  · have hnone := h.known n (Nat.le_of_not_lt hn)
    rw [hnone.1, hnone.2] at hopen
    exact absurd hopen (Nat.lt_irrefl _)

theorem Sound.sent (h : x.Sound maximum) (hplace : Carries place x) (howner : x.owner i = some n)
    (hopen : x.Unanswered n) : place i = .sent n := by
  obtain ⟨j, hj⟩ := hplace.sent_of_unanswered hopen
  have hmessage : (place j).message = some n := by
    rw [hj]
    rfl
  obtain ⟨m, hm, hid⟩ := h.registered i n howner
  obtain ⟨m', hm', hid'⟩ := h.registered j n (hplace.owned j n hmessage)
  rw [hm] at hm'
  cases hm'
  rw [← hid, hid']
  exact hj

theorem Sound.puback (h : x.Sound maximum) (hreg : x.Regular (env, .puback pk)) :
    (x.run env (.puback pk)).Sound maximum := by
  obtain ⟨hw, htype, n, howner, hopen⟩ := hreg
  obtain ⟨place, hplace⟩ := h.carried
  have hat := h.sent hplace howner hopen
  have hfits := hplace.fits pk.packetID
  rw [hat] at hfits
  obtain ⟨e, he, hholds, hplain⟩ := hfits
  have he : x.session.client.inflight.get pk.packetID = some e := he
  have hquota : (x.session.processPuback pk).2.QuotaExact := by
    refine h.quota.processPuback fun e' he' => ?_
    rw [he] at he'
    cases he'
    exact .inr (.inl (holdsQuota_of_plain hplain hholds.qos))
  have hhandle : x.session.handle env pk = (none, (x.session.processPuback pk).2) := by
    unfold Session.handle
    rw [htype]
    unfold Session.processPuback
    dsimp only
    rw [he]
    dsimp only
    split <;> rfl
  have hcall : (x.session.processPacket env pk).2 = (resumeLoop env (x.session.processPuback pk).2).2 := by
    unfold Session.processPacket
    rw [hhandle]
    dsimp only
    rw [hquota.resume_eq]
  obtain ⟨u, hu, hlive, hlog, hqueue, hmax, hsame, hget⟩ : ∃ u, (x.session.processPuback pk).2 = u ∧ u.IsLive ∧
      u.log = x.session.log ++ [.qosComplete (pk.fillFrom e)] ∧ u.client.queue = x.session.client.queue ∧
      u.client.inflight.maximumSendQuota = maximum ∧ (∀ p, Fails env u p → Fails env x.session p) ∧
      ∀ j, u.client.inflight.get j = if j = pk.packetID then none else x.inflight.get j := by
    refine ⟨_, rfl, ?_⟩
    unfold Session.processPuback
    rw [he]
    dsimp only
    rw [if_neg hplain.2]
    refine ⟨h.live, rfl, rfl, ?_, fun _ hfails => hfails, fun j => ?_⟩
    · exact (maximumSendQuota_increaseSendQuota _).trans h.limit
    · exact (get_increaseSendQuota _ _).trans (get_remove _ _ _)
  rw [hu] at hcall hquota
  have hresumable : u.Resumable env := by
    intro id p hp hdef
    rw [hget] at hp
    split at hp
    · cases hp
    · exact fun hfails => hw id p hp hdef (hsame _ hfails)
  have hfinish := hplace.finish hat hlog (fun _ => rfl) hget hqueue
  obtain ⟨hlog', hsound⟩ := Sound.of_resumeLoop (x := (x.acknowledge pk.packetID).update u) h.registered hfinish hquota
    hmax hlive hresumable
  have hprefix : (x.acknowledge pk.packetID).session.log <+: u.log := by
    rw [hlog]
    exact List.prefix_append _ _
  have hlog' : u.log <+: (resumeLoop env u).2.log := hlog'
  show ((x.acknowledge pk.packetID).update (x.session.processPacket env pk).2).Sound maximum
  rw [hcall, ← update_update hprefix hlog']
  exact hsound

theorem Sound.run (h : x.Sound maximum) {call : Call} (hreg : x.Regular (env, call)) :
    (x.run env call).Sound maximum := by
  cases call with
  | publish sub pk => exact h.publish hreg
  | write => exact h.write hreg
  | puback pk => exact h.puback hreg

/-! ### What holds in every state -/

theorem Sound.transmitted_le (h : x.Sound maximum) (n : Nat) : x.transmitted.count n ≤ 1 := by
  obtain ⟨place, hplace⟩ := h.carried
  by_cases hn : n < x.accepted.length
  · obtain ⟨i, hi⟩ | hdone := hplace.finished n hn
    · rw [hplace.once i n hi]
      cases place i with
      | sent k => exact Nat.le_refl 1
      | _ => exact Nat.zero_le 1
    · exact Nat.le_of_eq hdone.2
  · rw [(hplace.known n (Nat.le_of_not_lt hn)).2]
    exact Nat.zero_le 1

instance (x : Line) : DecidablePred x.Unanswered := fun _ => Nat.decLt _ _

def unanswered (x : Line) : Finset Nat := (Finset.range x.accepted.length).filter x.Unanswered

theorem Sound.card_unanswered_le (h : x.Sound maximum) : (x.unanswered.card : Int) ≤ maximum := by
  obtain ⟨place, hplace⟩ := h.carried
  have hid : ∀ n ∈ x.unanswered, ∃ i m, place i = .sent n ∧ x.accepted[n]? = some m ∧ m.packetID = i := by
    intro n hn
    obtain ⟨i, hi⟩ := hplace.sent_of_unanswered (Finset.mem_filter.mp hn).2
    have hmessage : (place i).message = some n := congrArg Place.message hi
    obtain ⟨_, -, hholds⟩ := hplace.holds hmessage
    obtain ⟨m, hm, hid, -⟩ := hholds.message
    exact ⟨i, m, hi, hm, hid⟩
  have hcard : (x.unanswered.image fun n => (x.accepted[n]?.map Packet.packetID).getD 0).card ≤ x.inflight.holding := by
    refine card_le_count fun j hj => ?_
    obtain ⟨n, hn, rfl⟩ := Finset.mem_image.mp hj
    obtain ⟨i, m, hi, hm, hmi⟩ := hid n hn
    have hfits := hplace.fits i
    rw [hi] at hfits
    obtain ⟨e, he, hholds, hplain⟩ := hfits
    rw [hm]
    refine ⟨e, ?_, holdsQuota_of_plain hplain hholds.qos⟩
    show x.inflight.get m.packetID = some e
    rw [hmi]
    exact he
  rw [Finset.card_image_of_injOn] at hcard
  · have hbalance := h.quota.exact.balance
    have hnonneg := h.quota.exact.nonneg
    have hlimit := h.limit
    unfold inflight at hcard hlimit
    omega
  · intro n hn k hk heq
    obtain ⟨i, m, hi, hm, hmi⟩ := hid n hn
    obtain ⟨j, m', hj, hm', hmj⟩ := hid k hk
    dsimp only at heq
    rw [hm, hm'] at heq
    have hij : i = j := hmi.symm.trans (heq.trans hmj)
    rw [hij, hj] at hi
    cases hi
    rfl

theorem Sound.empty (h : x.Sound maximum) (hall : ∀ n, n < x.accepted.length → 0 < x.acknowledged.count n) :
    (∀ id, x.inflight.get id = none) ∧ x.inflight.sendQuota = maximum := by
  obtain ⟨place, hplace⟩ := h.carried
  have hget : ∀ id, x.inflight.get id = none := by
    intro id
    have hfits := hplace.fits id
    cases hv : (place id).message with
    | none =>
      cases hp : place id with
      | free =>
        rw [hp] at hfits
        exact hfits
      | _ =>
        rw [hp] at hv
        cases hv
    | some n =>
      have hpos := hall n (hplace.lt_length hv)
      rw [hplace.unanswered id n hv] at hpos
      exact absurd hpos (Nat.lt_irrefl _)
  refine ⟨hget, ?_⟩
  have hholding : x.inflight.holding = 0 := by
    refine count_eq_zero_iff.mpr fun k v hk => ?_
    have hnone : x.inflight.internal.lookup k = none := hget k
    rw [hnone] at hk
    cases hk
  have hbalance := h.quota.exact.balance
  have hlimit := h.limit
  unfold inflight at hholding hlimit ⊢
  omega

theorem Carries.mem_unanswered (h : Carries place x) (hi : place i = .sent n) : n ∈ x.unanswered := by
  have hmessage : (place i).message = some n := congrArg Place.message hi
  refine Finset.mem_filter.mpr ⟨Finset.mem_range.mpr (h.lt_length hmessage), ?_⟩
  unfold Unanswered
  rw [h.unanswered i n hmessage, h.once i n hmessage, hi]
  exact Nat.zero_lt_one

def remaining (x : Line) : Finset Nat := (Finset.range x.accepted.length).filter fun n => x.acknowledged.count n = 0

theorem Sound.progress (h : x.Sound maximum) (hwritten : x.outbound = []) (hopen : x.remaining.Nonempty) :
    x.unanswered.Nonempty := by
  obtain ⟨place, hplace⟩ := h.carried
  have hmoving : ∀ i k, place i = .queued k ∨ place i = .sent k → x.unanswered.Nonempty := by
    intro i k hik
    rcases hik with hqueued | hsent
    · obtain ⟨pk, hpk, -⟩ := hplace.waiting i k hqueued
      rw [hwritten] at hpk
      exact absurd hpk List.not_mem_nil
    · exact ⟨k, hplace.mem_unanswered hsent⟩
  obtain ⟨n, hn⟩ := hopen
  obtain ⟨hlt, hzero⟩ := Finset.mem_filter.mp hn
  obtain ⟨i, hi⟩ | hdone := hplace.finished n (Finset.mem_range.mp hlt)
  · cases hv : place i with
    | free =>
      rw [hv] at hi
      cases hi
    | queued k => exact hmoving i k (.inl hv)
    | sent k => exact hmoving i k (.inr hv)
    | parked k =>
      -- the quota is used up, and by a message that is queued or sent
      have hfits := hplace.fits i
      rw [hv] at hfits
      obtain ⟨e, he, -, hdef⟩ := hfits
      have hstarved : x.inflight.sendQuota ≤ 0 := h.starved i e he hdef
      have hholding : ¬ x.inflight.holding = 0 := by
        have hbalance := h.quota.exact.balance
        have hpos := h.quota.exact.limited
        unfold inflight at hstarved ⊢
        omega
      obtain ⟨j, hj⟩ := not_forall.mp fun hall => hholding (count_eq_zero_iff.mpr hall)
      obtain ⟨m, hm⟩ := not_forall.mp hj
      obtain ⟨hget, hquota⟩ := Classical.not_imp.mp hm
      have hfits := hplace.fits j
      have hget : x.inflight.get j = some m := hget
      rw [hget] at hfits
      cases hw : place j with
      | free =>
        rw [hw] at hfits
        cases hfits
      | queued k => exact hmoving j k (.inl hw)
      | sent k => exact hmoving j k (.inr hw)
      | parked k =>
        rw [hw] at hfits
        obtain ⟨m', hm', -, hdef'⟩ := hfits
        cases hm'
        exact absurd (holdsQuota_deferred hdef') hquota
  · rw [hdone.1] at hzero
    cases hzero

/-- A turn of the write loop that finds a packet, or an acknowledgement. -/
def Draining (x : Line) : Env × Call → Prop
  | (_, .publish _ _) => False
  | (env, .write) => x.Regular (env, .write) ∧ x.session.client.queue ≠ []
  | (env, .puback pk) => x.Regular (env, .puback pk)

theorem Sound.finished (h : x.Sound maximum) (hnone : x.remaining = ∅) (hn : n < x.accepted.length) :
    x.transmitted.count n = 1 ∧ x.acknowledged.count n = 1 := by
  obtain ⟨place, hplace⟩ := h.carried
  obtain ⟨i, hi⟩ | hdone := hplace.finished n hn
  · have hmem : n ∈ x.remaining := Finset.mem_filter.mpr ⟨Finset.mem_range.mpr hn, hplace.unanswered i n hi⟩
    rw [hnone] at hmem
    exact absurd hmem (Finset.notMem_empty n)
  · exact ⟨hdone.2, hdone.1⟩

theorem Sound.remaining_puback (h : x.Sound maximum) (hreg : x.Regular (env, .puback pk)) :
    (x.run env (.puback pk)).remaining.card < x.remaining.card := by
  obtain ⟨-, -, n, howner, hopen⟩ := hreg
  obtain ⟨place, hplace⟩ := h.carried
  have hmessage : (place pk.packetID).message = some n := congrArg Place.message (h.sent hplace howner hopen)
  have hack : (x.run env (.puback pk)).acknowledged = x.acknowledged ++ [n] := by
    show x.acknowledged ++ (x.owner pk.packetID).toList = _
    rw [howner]
    rfl
  refine Finset.card_lt_card (Finset.ssubset_iff_of_subset ?_ |>.mpr ⟨n, ?_, ?_⟩)
  · intro k hk
    obtain ⟨hk, hzero⟩ := Finset.mem_filter.mp hk
    refine Finset.mem_filter.mpr ⟨hk, ?_⟩
    rw [hack, List.count_append] at hzero
    exact Nat.eq_zero_of_add_eq_zero_right hzero
  · exact Finset.mem_filter.mpr ⟨Finset.mem_range.mpr (hplace.lt_length hmessage),
      hplace.unanswered pk.packetID n hmessage⟩
  · intro hmem
    have hzero := (Finset.mem_filter.mp hmem).2
    rw [hack, List.count_append, List.count_singleton_self] at hzero
    cases hzero

theorem queue_write (x : Line) (env : Env) : (x.run env .write).session.client.queue = x.session.client.queue.tail := by
  show (x.session.writeNext env).client.queue = _
  unfold writeNext
  split
  · rename_i hqueue
    rw [hqueue]
    rfl
  · rename_i q rest hqueue
    rw [hqueue, writePacketOn_client]
    rfl

theorem Sound.going (h : x.Sound maximum) (hopen : x.remaining.Nonempty) :
    ∃ call y, x.Draining call ∧ Step x call y := by
  by_cases hempty : x.session.client.queue = []
  · have hwritten : x.outbound = [] := by
      unfold outbound
      rw [hempty]
      rfl
    obtain ⟨n, hn⟩ := h.progress hwritten hopen
    obtain ⟨place, hplace⟩ := h.carried
    have hopen := (Finset.mem_filter.mp hn).2
    obtain ⟨i, hi⟩ := hplace.sent_of_unanswered hopen
    exact ⟨(.accepting 0, .puback { fixedHeader := { type := .puback }, packetID := i }), _,
      ⟨fun _ _ _ _ => not_fails_accepting h.live.2 _, rfl, n, hplace.owned i n (congrArg Place.message hi), hopen⟩, rfl⟩
  · exact ⟨(.accepting 0, .write), _, ⟨fun _ _ => not_fails_accepting h.live.2 _, hempty⟩, rfl⟩

/-- Each acknowledgement leaves fewer messages, and until there is one to acknowledge the queue gets shorter. -/
theorem Sound.drains (h : x.Sound maximum) :
    Runs.Inevitable Step Draining (fun y => y.accepted = x.accepted ∧
      ∀ n, n < y.accepted.length → y.transmitted.count n = 1 ∧ y.acknowledged.count n = 1) x := by
  refine Runs.inevitable_of_measure (fun y => y.Sound maximum ∧ y.accepted = x.accepted)
    (fun y => (y.remaining.card, y.session.client.queue.length)) ?_ ?_ x ⟨h, rfl⟩
  · rintro y ⟨hy, hacc⟩ hnot
    refine hy.going (Finset.nonempty_iff_ne_empty.mpr fun hnone => hnot ⟨hacc, fun n hn => hy.finished hnone hn⟩)
  · rintro y ⟨env, call⟩ _ ⟨hy, hacc⟩ hok rfl
    cases call with
    | publish sub pk => exact absurd hok not_false
    | write =>
      refine ⟨⟨hy.run hok.1, hacc⟩, Prod.Lex.right _ ?_⟩
      rw [queue_write, List.length_tail]
      exact Nat.sub_lt (List.length_pos_iff.mpr hok.2) Nat.zero_lt_one
    | puback pk => exact ⟨⟨hy.run hok, hacc⟩, Prod.Lex.left _ _ (hy.remaining_puback hok)⟩

structure Start (maximum : Int) (s : Session) : Prop where
  live : s.IsLive
  version : s.client.protocolVersion = 5
  positive : 1 ≤ maximum
  limit : s.client.inflight.maximumSendQuota = maximum
  quota : s.client.inflight.sendQuota = maximum
  empty : ∀ id, s.client.inflight.get id = none
  queue : ∀ q ∈ s.client.queue, q.packet.fixedHeader.qos = 0

theorem Start.sound {s : Session} (h : Start maximum s) : Sound maximum { session := s } := by
  have hnone : ({ session := s } : Line).outbound = [] := by
    refine List.filter_eq_nil_iff.mpr fun pk hpk => ?_
    obtain ⟨q, hq, rfl⟩ := List.mem_map.mp hpk
    rw [h.queue q hq]
    decide
  have hholding : s.client.inflight.holding = 0 := by
    refine count_eq_zero_iff.mpr fun k v hk => ?_
    have hget : s.client.inflight.internal.lookup k = none := h.empty k
    rw [hget] at hk
    cases hk
  have hversion : 5 ≤ s.client.protocolVersion := by simp [h.version]
  have hexact : s.client.inflight.Exact := by
    have hlimit := h.limit
    have hquota := h.quota
    have hpos := h.positive
    refine ⟨by omega, by omega, by omega, fun {id pk} hget => ?_⟩
    rw [h.empty id] at hget
    cases hget
  refine ⟨nofun, ⟨fun _ => .free, ⟨h.empty, nofun, nofun, nofun, nofun, fun _ _ => ⟨rfl, rfl⟩, ?_, ?_, nofun⟩⟩,
    ⟨hversion, hexact⟩, h.limit, h.live, fun id e he => ?_⟩
  · rw [hnone]
    exact List.nodup_nil
  · rw [hnone]
    exact fun _ hpk => absurd hpk List.not_mem_nil
  · rw [show ({ session := s } : Line).inflight.get id = none from h.empty id] at he
    cases he

/-- Flow control drains: no message is transmitted twice and at most `maximum` are unacknowledged. When all are
acknowledged each was transmitted once and nothing is left. While some are not, one has been transmitted, as soon
as the write loop has taken what was queued, and the write loop and the acknowledgements come to the end. -/
theorem drains_completely {s : Session} (hs : Start maximum s) (hr : Runs.Reach Step Regular { session := s } x) :
    (∀ n, x.transmitted.count n ≤ 1) ∧
      (x.unanswered.card : Int) ≤ maximum ∧
      ((∀ n, n < x.accepted.length → 0 < x.acknowledged.count n) →
        (∀ n, n < x.accepted.length → x.transmitted.count n = 1) ∧
          (∀ id, x.inflight.get id = none) ∧ x.inflight.sendQuota = maximum) ∧
      (x.outbound = [] → x.remaining.Nonempty → x.unanswered.Nonempty) ∧
      Runs.Inevitable Step Draining (fun y => y.accepted = x.accepted ∧
        ∀ n, n < y.accepted.length → y.transmitted.count n = 1 ∧ y.acknowledged.count n = 1) x := by
  have hsound : x.Sound maximum := by
    refine @Runs.Reach.invariant _ _ _ _ _ _ (fun y => y.Sound maximum) hr hs.sound ?_
    rintro t ⟨env, call⟩ u ht hreg rfl
    exact ht.run hreg
  refine ⟨hsound.transmitted_le, hsound.card_unanswered_le, fun hall => ⟨fun n hn => ?_, hsound.empty hall⟩,
    hsound.progress, hsound.drains⟩
  refine (hsound.finished (Finset.filter_eq_empty_iff.mpr fun k hk hzero => ?_) hn).1
  have hpos := hall k (Finset.mem_range.mp hk)
  omega

def narrow : Session := { client := { protocolVersion := 5, inflight := Inflight.new.resetSendQuota 1 } }

theorem start_narrow : Start 1 narrow :=
  ⟨⟨rfl, rfl⟩, rfl, by decide, rfl, rfl, fun _ => rfl, fun _ h => absurd h List.not_mem_nil⟩

def messageOf (payload : Bytes) : Packet :=
  { fixedHeader := { type := .publish, qos := 1 }, topicName := [97], payload := payload }

def publishing (payload : Bytes) : Call := .publish { filter := [97], qos := 1 } ⟨messageOf payload, rfl⟩

/-- There is quota for one message, so the first one is queued and the second one is parked. -/
def wroteFirst : Line :=
  [publishing [1], publishing [2], .write].foldl (run (.encoding 100)) { session := narrow }

theorem reach_wroteFirst : Runs.Reach Step Regular { session := narrow } wroteFirst := by
  have hplain : Plain (messageOf [1]).expiry := plain_of_nonneg (n := 0) (Int.le_refl 0)
  refine Runs.Reach.replay run (.encoding 100) _
    ⟨⟨⟨hplain, ?_, ?_⟩, rfl⟩, ⟨⟨hplain, ?_, ?_⟩, rfl⟩, ⟨show NextWritable (.encoding 100) _ from ?_, rfl⟩, trivial⟩
  all_goals decide +kernel

theorem drains_wroteFirst : wroteFirst.unanswered.Nonempty ∧
    Runs.Inevitable Step Draining (fun y => y.accepted = wroteFirst.accepted ∧
      ∀ n, n < y.accepted.length → y.transmitted.count n = 1 ∧ y.acknowledged.count n = 1) wroteFirst := by
  obtain ⟨-, -, -, hprogress, hdrains⟩ := drains_completely start_narrow reach_wroteFirst
  exact ⟨hprogress (by decide +kernel) ⟨1, by decide +kernel⟩, hdrains⟩

end Line
end Mqtt
