import MqttBroker.Session.Steps
import Mathlib.Logic.Function.Basic

/-! Packet ids of concurrent publishers. Each id is in one stage at a time: free,
reserved by a call, stored, parked, taken by a call that resumes deferred
messages, queued, or sent. The calls, the queue and the map agree with these
stages, and a step moves one id from one stage to the next. -/

namespace Mqtt
open FiniteMap
namespace Session
open Inflight

/-! ### Stages -/

/-- The stage of a packet id, with the call whose message it is, if it is one of those observed. A
message is taken by a call or, with `none`, by the read loop. -/
inductive Slot where
  | free
  | reserved (c : Option Nat)
  | stored (c : Nat)
  | parked (c : Option Nat)
  | taken (c : Option Nat) (r : Option Nat)
  | queued (c : Nat)
  | sent (c : Option Nat)

namespace Slot

def Keeps (c : Nat) : Slot → Prop
  | .parked o => o = some c
  | .taken o _ => o = some c
  | .queued d => d = c
  | .sent o => o = some c
  | _ => False

def Fits : Slot → Option Packet → Prop
  | .free, e => e = none
  | .reserved _, e => ∃ m, e = some m ∧ m.expiry = inflightExpiryReserved
  | .parked _, e => ∃ m, e = some m ∧ m.expiry = inflightExpiryDeferred
  | _, e => ∃ m, e = some m ∧ m.expiry ≠ inflightExpiryDeferred

def Binds (d : Nat) : Slot → Prop
  | .reserved o => o = some d
  | .stored c => c = d
  | .taken _ r => r = some d
  | _ => False

def BindsReader : Slot → Prop
  | .taken _ r => r = none
  | .sent _ => True
  | _ => False

end Slot

structure Ledger where
  slot : UInt16 → Slot
  entry : UInt16 → Option Packet

namespace Ledger

def Kept (l : Ledger) (c : Nat) (out : Packet) : Prop :=
  (l.slot out.packetID).Keeps c ∧ ∃ e, l.entry out.packetID = some { out with expiry := e }

structure Alters (l l' : Ledger) (i : UInt16) : Prop where
  slot : ∀ j, j ≠ i → l'.slot j = l.slot j
  entry : ∀ j, j ≠ i → l'.entry j = l.entry j

/-- What the change of an id leaves to the call `d`: its message is still kept, or it was acknowledged. -/
def Spares (l l' : Ledger) (i : UInt16) (acked : List Nat) (d : Nat) : Prop :=
  (l.slot i).Keeps d → d ∈ acked ∨
    ((l'.slot i).Keeps d ∧ ∀ m, l.entry i = some m → ∃ e, l'.entry i = some { m with expiry := e })

variable {l l' : Ledger} {i : UInt16} {acked acked' : List Nat} {d : Nat} {out : Packet}

theorem Kept.alter (h : d ∈ acked ∨ l.Kept d out) (ha : l.Alters l' i)
    (hs : out.packetID = i → l.Spares l' i acked' d) (hacked : acked ⊆ acked') : d ∈ acked' ∨ l'.Kept d out := by
  obtain hdone | ⟨hkeeps, e, hentry⟩ := h
  · exact .inl (hacked hdone)
  · by_cases hi : out.packetID = i
    · rw [hi] at hkeeps hentry
      refine (hs hi hkeeps).imp (fun hd => hd) fun ⟨hkeeps', hentry'⟩ => ?_
      obtain ⟨e', he'⟩ := hentry' _ hentry
      unfold Kept
      rw [hi]
      exact ⟨hkeeps', e', he'⟩
    · refine .inr ⟨?_, e, ?_⟩
      · rw [ha.slot _ hi]
        exact hkeeps
      · rw [ha.entry _ hi]
        exact hentry

end Ledger

/-! ### Agreement -/

def Resuming.Agrees (l : Ledger) (r : Option Nat) : Resuming → Prop
  | .decrease next => (∃ o, l.slot next.packetID = .taken o r) ∧ l.entry next.packetID = some next
  | .write next => (∃ o, l.slot next.packetID = .taken o r) ∧ l.entry next.packetID = some next
  | .repark next _ _ => (∃ o, l.slot next.packetID = .taken o r) ∧ l.entry next.packetID = some next
  | _ => True

def Publishing.Agrees (l : Ledger) (acked : List Nat) (c : Nat) : Publishing → Prop
  | .waiting pk out => out.payload = pk.payload ∧ Plain out.expiry
  | .search pk out _ _ _ => out.payload = pk.payload ∧ Plain out.expiry
  | .reserved pk out => l.slot out.packetID = .reserved (some c) ∧ out.payload = pk.payload ∧ Plain out.expiry
  | .resetQuota pk out => l.slot out.packetID = .reserved (some c) ∧ out.payload = pk.payload ∧ Plain out.expiry
  | .store pk out _ => l.slot out.packetID = .reserved (some c) ∧ out.payload = pk.payload ∧ Plain out.expiry
  | .park pk out => l.slot out.packetID = .reserved (some c) ∧ out.payload = pk.payload ∧
      out.expiry = inflightExpiryDeferred
  | .undo _ _ => False
  | .discard _ _ => False
  | .stored pk out => l.slot out.packetID = .stored c ∧ out.payload = pk.payload ∧ l.entry out.packetID = some out
  | .check pk out => l.slot out.packetID = .stored c ∧ out.payload = pk.payload ∧ l.entry out.packetID = some out
  | .push pk out => l.slot out.packetID = .stored c ∧ out.payload = pk.payload ∧ l.entry out.packetID = some out
  | .drop pk out _ => l.slot out.packetID = .stored c ∧ out.payload = pk.payload ∧ l.entry out.packetID = some out
  | .uncount .. => True
  | .refund .. => True
  | .resume pk out r => out.payload = pk.payload ∧ (c ∈ acked ∨ l.Kept c out) ∧ r.Agrees l (some c)
  | .returned pk out none => out.payload = pk.payload ∧ (c ∈ acked ∨ l.Kept c out)
  | .returned _ _ (some _) => True

def Acking.Agrees (l : Ledger) (outstanding : List UInt16) : Acking → Prop
  | .get pk => (∃ o, l.slot pk.packetID = .sent o) ∧ pk.packetID ∉ outstanding
  | .delete pk _ => (∃ o, l.slot pk.packetID = .sent o) ∧ pk.packetID ∉ outstanding
  | .resume r => r.Agrees l none
  | _ => True

section Alter
variable {l l' : Ledger} {i : UInt16} {acked acked' : List Nat}

theorem Resuming.Agrees.alter {r : Option Nat} {p : Resuming} (h : p.Agrees l r) (ha : l.Alters l' i)
    (hi : ∀ o, l.slot i ≠ .taken o r) : p.Agrees l' r := by
  have htaken : ∀ next : Packet, (∃ o, l.slot next.packetID = .taken o r) ∧ l.entry next.packetID = some next →
      (∃ o, l'.slot next.packetID = .taken o r) ∧ l'.entry next.packetID = some next := by
    rintro next ⟨⟨o, ho⟩, hentry⟩
    have hne : next.packetID ≠ i := fun heq => hi o (heq ▸ ho)
    rw [ha.slot _ hne, ha.entry _ hne]
    exact ⟨⟨o, ho⟩, hentry⟩
  cases p with
  | decrease next | write next | repark next err increases => exact htaken next h
  | _ => trivial

theorem Publishing.Agrees.alter {d : Nat} {p : Publishing} (h : p.Agrees l acked d) (ha : l.Alters l' i)
    (hi : ¬ (l.slot i).Binds d) (hs : p.delivers i = true → l.Spares l' i acked' d) (hacked : acked ⊆ acked') :
    p.Agrees l' acked' d := by
  have hreserved : ∀ {out : Packet}, l.slot out.packetID = .reserved (some d) →
      l'.slot out.packetID = .reserved (some d) := by
    intro out hout
    rw [ha.slot _ fun heq => hi (heq ▸ hout ▸ rfl)]
    exact hout
  have hstored : ∀ {pk out : Packet},
      l.slot out.packetID = .stored d ∧ out.payload = pk.payload ∧ l.entry out.packetID = some out →
      l'.slot out.packetID = .stored d ∧ out.payload = pk.payload ∧ l'.entry out.packetID = some out := by
    rintro pk out ⟨hout, hpayload, hentry⟩
    have hne : out.packetID ≠ i := fun heq => hi (heq ▸ hout ▸ rfl)
    rw [ha.slot _ hne, ha.entry _ hne]
    exact ⟨hout, hpayload, hentry⟩
  cases p with
  | waiting | search => exact h
  | reserved | resetQuota | park | store => exact ⟨hreserved h.1, h.2⟩
  | undo | discard => exact h
  | stored | check | push | drop => exact hstored h
  | uncount | refund => trivial
  | resume pk out r =>
    refine ⟨h.1, Ledger.Kept.alter h.2.1 ha (fun heq => hs (beq_iff_eq.mpr heq)) hacked,
      h.2.2.alter ha fun o ho => hi ?_⟩
    rw [ho]
    rfl
  | returned pk out err =>
    cases err with
    | none => exact ⟨h.1, Ledger.Kept.alter h.2 ha (fun heq => hs (beq_iff_eq.mpr heq)) hacked⟩
    | some err => trivial

theorem Acking.Agrees.alter {outstanding outstanding' : List UInt16} {a : Acking} (h : a.Agrees l outstanding)
    (ha : l.Alters l' i) (hi : ¬ (l.slot i).BindsReader)
    (hout : ∀ j ∈ outstanding', j = i ∨ j ∈ outstanding) : a.Agrees l' outstanding' := by
  have hsent : ∀ id : UInt16, (∃ o, l.slot id = .sent o) ∧ id ∉ outstanding →
      (∃ o, l'.slot id = .sent o) ∧ id ∉ outstanding' := by
    rintro id ⟨⟨o, ho⟩, hid⟩
    have hne : id ≠ i := fun heq => hi (heq ▸ ho ▸ trivial)
    rw [ha.slot _ hne]
    exact ⟨⟨o, ho⟩, fun hmem => (hout id hmem).elim hne hid⟩
  cases a with
  | get | delete => exact hsent _ h
  | refund | uncount => trivial
  | resume r =>
    have hr : r.Agrees l none := h
    refine hr.alter ha fun o ho => hi ?_
    rw [ho]
    rfl
  | done => trivial

end Alter
end Session

namespace Traffic
open Session Inflight

/-! ### The invariant -/

def inflight (t : Traffic) : Inflight := t.session.client.inflight

def queue (t : Traffic) : List Queued := t.session.client.queue

def ledger (t : Traffic) (slot : UInt16 → Slot) : Ledger := ⟨slot, t.inflight.get⟩

def Capped (s : Session) : Prop :=
  0 < s.server.caps.maximumInflight.toNat ∧ s.client.inflight.len ≤ s.server.caps.maximumInflight.toNat

variable {s' : Session} {next : Packet} {r : Option Nat}

theorem Capped.of_le {s : Session} (h : Capped s) (hcaps : s'.server.caps = s.server.caps)
    (hlen : s'.client.inflight.len ≤ s.client.inflight.len) : Capped s' := by
  unfold Capped
  rw [hcaps]
  exact ⟨h.1, hlen.trans h.2⟩

/-- The map, the calls, the read loop and the queue agree with the stages, an id that the client has not
answered is sent, and the map has room. -/
structure Tracks (slot : UInt16 → Slot) (t : Traffic) : Prop where
  fits : ∀ i, (slot i).Fits (t.inflight.get i)
  calls : ∀ (c : Nat) (p : Publishing), t.calls[c]? = some p → p.Agrees (t.ledger slot) t.acked c
  reader : t.reader.Agrees (t.ledger slot) t.outstanding
  nodup : (t.queue.map fun q => q.packet.packetID).Nodup
  queued : ∀ q ∈ t.queue, ∃ c, slot q.packet.packetID = .queued c
  distinct : t.outstanding.Nodup
  sent : ∀ i ∈ t.outstanding, ∃ o, slot i = .sent o
  cap : Capped t.session

variable {slot : UInt16 → Slot} {t t' : Traffic} {env : Env}

theorem Tracks.still (h : Tracks slot t) (hget : ∀ j, t'.inflight.get j = t.inflight.get j)
    (hlen : t'.inflight.len = t.inflight.len) (hcaps : t'.session.server.caps = t.session.server.caps)
    (hqueue : t'.queue = t.queue) (hout : t'.outstanding = t.outstanding)
    (hcalls : ∀ (c : Nat) (p : Publishing), t'.calls[c]? = some p → p.Agrees (t.ledger slot) t'.acked c)
    (hreader : t'.reader.Agrees (t.ledger slot) t.outstanding) : Tracks slot t' := by
  have hledger : t'.ledger slot = t.ledger slot := by
    unfold ledger
    congr 1
    funext j
    exact hget j
  refine ⟨fun i => ?_, fun c p hp => ?_, ?_, ?_, ?_, ?_, ?_, ?_⟩
  · rw [hget]
    exact h.fits i
  · rw [hledger]
    exact hcalls c p hp
  · rw [hledger, hout]
    exact hreader
  · rw [hqueue]
    exact h.nodup
  · rw [hqueue]
    exact h.queued
  · rw [hout]
    exact h.distinct
  · rw [hout]
    exact h.sent
  · exact h.cap.of_le hcaps hlen.le

theorem Tracks.alter (h : Tracks slot t) {i : UInt16} {v : Slot} {ids : List UInt16}
    (hget : ∀ j, j ≠ i → t'.inflight.get j = t.inflight.get j) (hfits : v.Fits (t'.inflight.get i))
    (hcap : Capped t'.session)
    (hi : i ∉ t.outstanding) (hout : t'.outstanding = ids ++ t.outstanding)
    (hids : ids = [] ∨ ids = [i] ∧ ∃ o, v = .sent o)
    (hnodup : (t'.queue.map fun q => q.packet.packetID).Nodup)
    (hqueued : ∀ q ∈ t'.queue, (q ∈ t.queue ∧ q.packet.packetID ≠ i) ∨ (q.packet.packetID = i ∧ ∃ c, v = .queued c))
    (hacked : t.acked ⊆ t'.acked)
    (hspares : ∀ (d : Nat) (p : Publishing), t.calls[d]? = some p → p.delivers i = true →
      (t.ledger slot).Spares (t'.ledger (Function.update slot i v)) i t'.acked d)
    (hcalls : ∀ (d : Nat) (p : Publishing), t'.calls[d]? = some p →
      p.Agrees (t'.ledger (Function.update slot i v)) t'.acked d ∨ t.calls[d]? = some p ∧ ¬ (slot i).Binds d)
    (hreader : t'.reader.Agrees (t'.ledger (Function.update slot i v)) t'.outstanding ∨
      t'.reader = t.reader ∧ ¬ (slot i).BindsReader) :
    Tracks (Function.update slot i v) t' := by
  have halters : (t.ledger slot).Alters (t'.ledger (Function.update slot i v)) i := by
    refine ⟨fun j hj => ?_, hget⟩
    show Function.update slot i v j = slot j
    rw [Function.update_of_ne hj]
  have hmem : ∀ j ∈ t'.outstanding, j = i ∨ j ∈ t.outstanding := by
    intro j hj
    rw [hout] at hj
    rcases List.mem_append.mp hj with hj | hj
    · rcases hids with rfl | ⟨rfl, -⟩
      · exact absurd hj List.not_mem_nil
      · exact .inl (List.mem_singleton.mp hj)
    · exact .inr hj
  refine ⟨fun j => ?_, fun d p hp => ?_, ?_, hnodup, fun q hq => ?_, ?_, fun j hj => ?_, hcap⟩
  · by_cases hj : j = i
    · rw [hj, Function.update_self]
      exact hfits
    · rw [Function.update_of_ne hj, hget j hj]
      exact h.fits j
  · obtain hagrees | ⟨hsame, hbinds⟩ := hcalls d p hp
    · exact hagrees
    · exact (h.calls d p hsame).alter halters hbinds (hspares d p hsame) hacked
  · obtain hagrees | ⟨hsame, hbinds⟩ := hreader
    · exact hagrees
    · rw [hsame]
      exact h.reader.alter halters hbinds hmem
  · obtain ⟨hq, hne⟩ | ⟨heq, c, hc⟩ := hqueued q hq
    · rw [Function.update_of_ne hne]
      exact h.queued q hq
    · rw [heq, Function.update_self]
      exact ⟨c, hc⟩
  · rw [hout]
    rcases hids with rfl | ⟨rfl, -⟩
    · exact h.distinct
    · exact List.nodup_cons.mpr ⟨hi, h.distinct⟩
  · by_cases hji : j = i
    · rw [hji] at hj ⊢
      rw [hout] at hj
      rcases hids with rfl | ⟨rfl, hsent⟩
      · exact absurd hj hi
      · rw [Function.update_self]
        exact hsent
    · rw [Function.update_of_ne hji]
      exact h.sent j ((hmem j hj).resolve_left hji)

theorem Tracks.not_outstanding (h : Tracks slot t) {i : UInt16} (hi : ∀ o, slot i ≠ .sent o) : i ∉ t.outstanding := by
  intro hmem
  obtain ⟨o, ho⟩ := h.sent i hmem
  exact hi o ho

theorem Tracks.queue_spared (h : Tracks slot t) {i : UInt16} {v : Slot} (hi : ∀ c, slot i ≠ .queued c) :
    ∀ q ∈ t.queue, (q ∈ t.queue ∧ q.packet.packetID ≠ i) ∨ (q.packet.packetID = i ∧ ∃ c, v = .queued c) := by
  intro q hq
  obtain ⟨c, hc⟩ := h.queued q hq
  exact .inl ⟨hq, fun heq => hi c (heq ▸ hc)⟩

/-! ### Resuming deferred messages -/

theorem outstanding_update (es : List Event) (hlog : s'.log = t.session.log ++ es) :
    (t.update s').outstanding = writtenIDs es ++ t.outstanding := by
  unfold update
  dsimp only
  rw [hlog, List.drop_left]

theorem outstanding_update_same (hlog : s'.log = t.session.log) : (t.update s').outstanding = t.outstanding :=
  outstanding_update [] (hlog.trans (List.append_nil _).symm)

/-- A session with the entries, the queue and the capabilities of another, and nothing written. -/
structure Keeps (t : Traffic) (s' : Session) : Prop where
  get : ∀ j, s'.client.inflight.get j = t.inflight.get j
  len : s'.client.inflight.len = t.inflight.len
  caps : s'.server.caps = t.session.server.caps
  queue : s'.client.queue = t.queue
  out : (t.update s').outstanding = t.outstanding

theorem keeps_self (t : Traffic) : t.Keeps t.session :=
  ⟨fun _ => rfl, rfl, rfl, rfl, outstanding_update_same rfl⟩

theorem keeps_onInflight (t : Traffic) (f : Inflight → Inflight) (hf : (f t.inflight).internal = t.inflight.internal) :
    t.Keeps (t.session.onInflight f) := by
  refine ⟨fun j => ?_, ?_, rfl, rfl, outstanding_update_same rfl⟩
  · show (f t.inflight).internal.lookup j = t.inflight.internal.lookup j
    rw [hf]
  · show size (f t.inflight).internal = size t.inflight.internal
    rw [hf]

/-- A step of a call of `resumeDeferredPublishes`, made by `r`, that moves an id to another stage. -/
structure Resumes (slot : UInt16 → Slot) (t : Traffic) (r : Option Nat) (s' : Session) (p' : Resuming) (i : UInt16)
    (v : Slot) (ids : List UInt16) : Prop where
  get : ∀ j, j ≠ i → s'.client.inflight.get j = t.inflight.get j
  entry : ∀ m, t.inflight.get i = some m → ∃ e, s'.client.inflight.get i = some { m with expiry := e }
  fits : v.Fits (s'.client.inflight.get i)
  len : s'.client.inflight.len = t.inflight.len
  caps : s'.server.caps = t.session.server.caps
  queue : s'.client.queue = t.queue
  out : (t.update s').outstanding = ids ++ t.outstanding
  change : ∃ o, slot i = .parked o ∧ v = .taken o r ∧ ids = [] ∨
    slot i = .taken o r ∧ (v = .parked o ∧ ids = [] ∨ v = .sent o ∧ ids = [i])
  agrees : p'.Agrees ⟨Function.update slot i v, s'.client.inflight.get⟩ r

theorem Tracks.parked_of_deferred (h : Tracks slot t) {i : UInt16} {m : Packet} (hm : t.inflight.get i = some m)
    (hdef : m.expiry = inflightExpiryDeferred) : ∃ o, slot i = .parked o := by
  have hfits := h.fits i
  rw [hm] at hfits
  cases hs : slot i with
  | parked o => exact ⟨o, rfl⟩
  | free =>
    rw [hs] at hfits
    cases hfits
  | reserved o =>
    rw [hs] at hfits
    obtain ⟨m', hm', hres⟩ := hfits
    cases hm'
    rw [hdef] at hres
    cases hres
  | _ =>
    rw [hs] at hfits
    obtain ⟨m', hm', hne⟩ := hfits
    cases hm'
    exact absurd hdef hne

theorem Tracks.resume_take (h : Tracks slot t) (env : Env) (r : Option Nat) :
    t.Keeps (Resuming.step env t.session .take).2 ∧ (Resuming.step env t.session .take).1.Agrees (t.ledger slot) r ∨
      ∃ i v ids, Resumes slot t r (Resuming.step env t.session .take).2
        (Resuming.step env t.session .take).1 i v ids := by
  unfold Resuming.step
  dsimp only
  obtain ⟨htake, -⟩ | ⟨pk, hpk, hdef, -, htake⟩ := t.inflight.takeNextImmediate_cases env.order
  · rw [show t.session.client.inflight = t.inflight from rfl, htake]
    exact .inl ⟨t.keeps_self, trivial⟩
  · rw [show t.session.client.inflight = t.inflight from rfl, htake]
    obtain ⟨o, ho⟩ := h.parked_of_deferred hpk hdef
    have hget : ∀ j, (t.inflight.put { pk with expiry := 0 }).get j =
        if j = pk.packetID then some { pk with expiry := 0 } else t.inflight.get j := fun j => get_put _ _ j
    refine .inr ⟨pk.packetID, .taken o r, [], fun j hj => ?_, fun m hm => ?_, ?_, ?_, rfl, rfl,
      outstanding_update_same rfl, ⟨o, .inl ⟨ho, rfl, rfl⟩⟩, ⟨⟨o, Function.update_self _ _ _⟩, ?_⟩⟩
    · exact (hget j).trans (if_neg hj)
    · rw [hpk] at hm
      cases hm
      exact ⟨0, (hget _).trans (if_pos rfl)⟩
    · refine ⟨_, (hget _).trans (if_pos rfl), ?_⟩
      show (0 : Int) ≠ inflightExpiryDeferred
      decide
    · exact len_put_over _ hpk
    · exact (hget _).trans (if_pos rfl)

theorem Tracks.resume_write (h : Tracks slot t) (env : Env)
    (hr : (Resuming.write next).Agrees (t.ledger slot) r) :
    t.Keeps (Resuming.step env t.session (.write next)).2 ∧
        (Resuming.step env t.session (.write next)).1.Agrees (t.ledger slot) r ∨
      ∃ i v ids, Resumes slot t r (Resuming.step env t.session (.write next)).2
        (Resuming.step env t.session (.write next)).1 i v ids := by
  obtain ⟨⟨o, ho⟩, hentry⟩ := hr
  have hslot : slot next.packetID = .taken o r := ho
  have hnext : t.inflight.get next.packetID = some next := hentry
  unfold Resuming.step
  dsimp only
  split
  · exact .inl ⟨t.keeps_self, ⟨o, ho⟩, hentry⟩
  · rename_i hopen
    unfold writePacket
    obtain ⟨-, -, hw⟩ | ⟨-, hconn, -⟩ | ⟨-, out, err, hw⟩ :=
      writePacketOn_cases env t.session next.topicName next
    · rw [hw]
      have hout : (t.update (t.session.emit (.wrote (outgoing env t.session next) next.topicName))).outstanding =
          [next.packetID] ++ t.outstanding :=
        outstanding_update [.wrote (outgoing env t.session next) next.topicName] rfl
      refine .inr ⟨next.packetID, .sent o, [next.packetID], fun _ _ => rfl, fun m hm => ⟨m.expiry, hm⟩, ?_, rfl, rfl,
        rfl, hout, ⟨o, .inr ⟨hslot, .inr ⟨rfl, rfl⟩⟩⟩, trivial⟩
      have hfits := h.fits next.packetID
      rw [hslot] at hfits
      exact hfits
    · rw [hconn] at hopen
      exact absurd rfl hopen
    · rw [hw]
      exact .inl ⟨⟨fun _ => rfl, rfl, rfl, rfl, outstanding_update [.writeFailed out err] rfl⟩, ⟨o, ho⟩, hentry⟩

theorem resume_repark (env : Env) {err : Option Error}
    {increases : Bool} (hr : (Resuming.repark next err increases).Agrees (t.ledger slot) r) :
    ∃ i v ids, Resumes slot t r (Resuming.step env t.session (.repark next err increases)).2
      (Resuming.step env t.session (.repark next err increases)).1 i v ids := by
  obtain ⟨⟨o, ho⟩, hentry⟩ := hr
  have hslot : slot next.packetID = .taken o r := ho
  have hnext : t.inflight.get next.packetID = some next := hentry
  have hget : ∀ j, (t.inflight.put { next with expiry := inflightExpiryDeferred }).get j =
      if j = next.packetID then some { next with expiry := inflightExpiryDeferred } else t.inflight.get j :=
    fun j => get_put _ _ j
  refine ⟨next.packetID, .parked o, [], fun j hj => ?_, fun m hm => ?_, ?_, ?_, rfl, rfl,
    outstanding_update_same rfl, ⟨o, .inr ⟨hslot, .inl ⟨rfl, rfl⟩⟩⟩, ?_⟩
  · exact (hget j).trans (if_neg hj)
  · rw [hnext] at hm
    cases hm
    exact ⟨_, (hget _).trans (if_pos rfl)⟩
  · exact ⟨_, (hget _).trans (if_pos rfl), rfl⟩
  · exact len_put_over _ hnext
  · show (if increases then Resuming.increase err else .reset err).Agrees _ r
    cases increases <;> trivial

theorem Tracks.resume_cases (h : Tracks slot t) (env : Env) {p : Resuming}
    (hp : p.Agrees (t.ledger slot) r) :
    t.Keeps (p.step env t.session).2 ∧ (p.step env t.session).1.Agrees (t.ledger slot) r ∨
      ∃ i v ids, Resumes slot t r (p.step env t.session).2 (p.step env t.session).1 i v ids := by
  cases p with
  | recover =>
    refine .inl ⟨t.keeps_onInflight (fun f => f.recoverStarvedSendQuota.2) ?_, trivial⟩
    unfold recoverStarvedSendQuota
    split
    · rfl
    · split
      · rfl
      · split <;> rfl
  | test =>
    refine .inl ⟨t.keeps_self, ?_⟩
    show (if 0 < t.session.client.inflight.sendQuota then Resuming.take else .reset none).Agrees _ r
    split <;> trivial
  | take => exact h.resume_take env r
  | decrease next =>
    refine .inl ?_
    unfold Resuming.step Inflight.decreaseSendQuota
    dsimp only
    split
    · exact ⟨t.keeps_self, hp⟩
    · rename_i hdec
      have hquota : (if t.session.client.inflight.sendQuota ≤ 0 then (false, t.session.client.inflight)
          else (true,
            { t.session.client.inflight with sendQuota := t.session.client.inflight.sendQuota - 1 })).2.internal =
          t.inflight.internal := by
        split <;> rfl
      rw [hdec] at hquota
      exact ⟨t.keeps_onInflight (fun _ => _) hquota, hp⟩
  | write next => exact h.resume_write env hp
  | repark next err increases => exact .inr (resume_repark env hp)
  | increase err =>
    refine .inl ⟨t.keeps_onInflight (fun f => f.increaseSendQuota.2) ?_, trivial⟩
    unfold increaseSendQuota
    split <;> rfl
  | reset err =>
    refine .inl ⟨t.keeps_onInflight (fun f => f.resetSendQuotaIfEmpty.2) ?_, trivial⟩
    unfold resetSendQuotaIfEmpty
    split
    · rfl
    · split
      · rfl
      · split <;> rfl
  | done err => exact .inl ⟨t.keeps_self, trivial⟩

end Traffic
end Mqtt
