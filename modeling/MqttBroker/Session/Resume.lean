import MqttBroker.Session.Drain

/-! `resumeDeferredPublishes` on an open connection. What a run of its loop has done is
kept as the list of messages it has sent: every one was deferred, has lost its mark
and was written once, and nothing else has changed. When the loop ends the quota is
used up or nothing is deferred, and that fixes how many were sent. -/

namespace Mqtt
open FiniteMap
namespace Inflight

def isDeferred (pk : Packet) : Bool := pk.expiry == inflightExpiryDeferred

def deferred (f : Inflight) : Nat := count isDeferred f.internal

/-- The send quota that `resumeDeferredPublishes` can use: one unit is made up if every entry is deferred and
there is none. -/
def usableQuota (f : Inflight) : Int :=
  if f.len ≠ 0 ∧ f.deferred = f.len ∧ f.sendQuota = 0 then 1 else f.sendQuota

variable {f : Inflight}

theorem deferred_put_sent {pk : Packet} (hpk : f.get pk.packetID = some pk)
    (hdef : pk.expiry = inflightExpiryDeferred) :
    (f.put { pk with expiry := 0 }).deferred + 1 = f.deferred := by
  have hcount := count_insert isDeferred f.internal pk.packetID { pk with expiry := 0 }
  rw [show f.internal.lookup pk.packetID = some pk from hpk] at hcount
  have hbefore : isDeferred pk = true := beq_iff_eq.mpr hdef
  have hafter : isDeferred { pk with expiry := 0 } = false := rfl
  rw [Option.any_some, hbefore, hafter] at hcount
  exact hcount

theorem deferred_eq_zero_iff : f.deferred = 0 ↔ ∀ id pk, f.get id = some pk → pk.expiry ≠ inflightExpiryDeferred := by
  unfold deferred count
  rw [List.countP_eq_zero]
  constructor
  · intro h id pk hpk hdef
    exact h pk (mem_values_iff.mpr ⟨id, hpk⟩) (beq_iff_eq.mpr hdef)
  · intro h pk hpk hdef
    obtain ⟨id, hid⟩ := mem_values_iff.mp hpk
    exact h id pk hid (beq_iff_eq.mp hdef)

theorem deferred_eq_len_iff :
    f.deferred = f.len ↔ ∀ id pk, f.get id = some pk → pk.expiry = inflightExpiryDeferred := by
  have hlen : f.len = (values f.internal).length := (List.length_map _).symm
  unfold deferred count
  rw [hlen, List.countP_eq_length]
  constructor
  · intro h id pk hpk
    exact beq_iff_eq.mp (h pk (mem_values_iff.mpr ⟨id, hpk⟩))
  · intro h pk hpk
    obtain ⟨id, hid⟩ := mem_values_iff.mp hpk
    exact beq_iff_eq.mpr (h id pk hid)

theorem deferred_le_len : f.deferred ≤ f.len := by
  have hlen : f.len = (values f.internal).length := (List.length_map _).symm
  rw [hlen]
  exact List.countP_le_length

/-- If the quota does not do for all deferred messages, some message is not deferred: with all of them deferred there
is quota for one. -/
theorem left_ne_len {left sent : Nat} (hleft : left + sent = f.deferred)
    (hsent : (sent : Int) = min (f.deferred : Int) f.usableQuota) (hsome : left ≠ 0) : left ≠ f.len := by
  have hle : f.deferred ≤ f.len := deferred_le_len
  intro hall
  have hnone : f.usableQuota = 0 := by omega
  unfold usableQuota at hnone
  split at hnone
  · cases hnone
  · rename_i hidle
    exact hidle ⟨by omega, by omega, hnone⟩

theorem resetIfEmpty_eq (hmax : 0 < f.maximumSendQuota) :
    f.resetSendQuotaIfEmpty.2 = { f with sendQuota := if f.len = 0 then f.maximumSendQuota else f.sendQuota } := by
  unfold resetSendQuotaIfEmpty
  by_cases hlen : f.len = 0
  · rw [if_neg (not_not.mpr hlen), if_neg (Int.not_le.mpr hmax), if_pos hlen]
    split
    · rename_i heq
      exact congrArg (fun q => { f with sendQuota := q }) heq
    · rfl
  · rw [if_pos hlen, if_neg hlen]

theorem recover_eq (hmax : 0 < f.maximumSendQuota) (hquota : 0 ≤ f.sendQuota) :
    f.recoverStarvedSendQuota.2 = { f with sendQuota := f.usableQuota } := by
  unfold recoverStarvedSendQuota usableQuota
  by_cases hlen : f.len = 0
  · rw [if_pos hlen, if_neg fun h => h.1 hlen]
  · rw [if_neg hlen]
    have hany : ((values f.internal).any fun pk => pk.expiry != inflightExpiryDeferred) = true ↔
        f.deferred ≠ f.len := by
      rw [Ne, deferred_eq_len_iff, List.any_eq_true]
      constructor
      · rintro ⟨pk, hpk, hdef⟩ h
        obtain ⟨id, hid⟩ := mem_values_iff.mp hpk
        exact bne_iff_ne.mp hdef (h id pk hid)
      · intro h
        simp only [not_forall] at h
        obtain ⟨id, pk, hid, hdef⟩ := h
        exact ⟨pk, mem_values_iff.mpr ⟨id, hid⟩, bne_iff_ne.mpr hdef⟩
    by_cases hall : f.deferred = f.len
    · rw [if_neg fun h => hany.mp h hall]
      by_cases hzero : f.sendQuota = 0
      · rw [if_neg (by omega), if_pos ⟨hlen, hall, hzero⟩]
      · rw [if_pos (.inl (by omega)), if_neg fun h => hzero h.2.2]
    · rw [if_pos (hany.mpr hall), if_neg fun h => hall h.2.1]

end Inflight

namespace Session
open Inflight
variable {env : Env} {s t : Session} {sent : List Packet}

def unmarked (pk : Packet) : Packet := { pk with expiry := 0 }

def resumedEvent (env : Env) (s : Session) (pk : Packet) : Event :=
  .wrote (s.outgoing env (unmarked pk)) pk.topicName

structure Resumed (env : Env) (s : Session) (sent : List Packet) (t : Session) : Prop where
  deferred : ∀ pk ∈ sent, s.client.inflight.get pk.packetID = some pk ∧ pk.expiry = inflightExpiryDeferred
  distinct : (sent.map Packet.packetID).Nodup
  entries : ∀ id, t.client.inflight.get id =
    ((sent.find? (·.packetID == id)).map unmarked).or (s.client.inflight.get id)
  len : t.client.inflight.len = s.client.inflight.len
  left : t.client.inflight.deferred + sent.length = s.client.inflight.deferred
  quota : t.client.inflight.sendQuota + sent.length = s.client.inflight.sendQuota
  enough : 0 ≤ t.client.inflight.sendQuota
  maximum : t.client.inflight.maximumSendQuota = s.client.inflight.maximumSendQuota
  client : t.client = { s.client with inflight := t.client.inflight }
  server : t.server = s.server
  log : t.log = s.log ++ sent.map (resumedEvent env s)

namespace Resumed

theorem refl (h : 0 ≤ s.client.inflight.sendQuota) : Resumed env s [] s where
  deferred _ h := absurd h List.not_mem_nil
  distinct := List.nodup_nil
  entries _ := rfl
  len := rfl
  left := rfl
  quota := Int.add_zero _
  enough := h
  maximum := rfl
  client := rfl
  server := rfl
  log := (List.append_nil _).symm

theorem outgoing (h : Resumed env s sent t) (pk : Packet) : t.outgoing env pk = s.outgoing env pk := by
  have hprops : t.client.props = s.client.props := by rw [h.client]
  have hversion : t.client.protocolVersion = s.client.protocolVersion := by rw [h.client]
  unfold Session.outgoing
  rw [hprops, hversion, h.server]

theorem next {pk : Packet} (h : Resumed env s sent t) (hquota : 0 < t.client.inflight.sendQuota)
    (hpk : t.client.inflight.get pk.packetID = some pk) (hdef : pk.expiry = inflightExpiryDeferred) :
    Resumed env s (sent ++ [pk]) ((t.takeDeferred pk).emit (resumedEvent env t pk)) := by
  have hnot : sent.find? (·.packetID == pk.packetID) = none := by
    cases hfind : sent.find? (·.packetID == pk.packetID) with
    | none => rfl
    | some p =>
      rw [h.entries, hfind] at hpk
      obtain rfl : unmarked p = pk := Option.some.inj hpk
      cases hdef
  have hbefore : s.client.inflight.get pk.packetID = some pk := by
    rw [h.entries, hnot] at hpk
    exact hpk
  refine ⟨?_, ?_, ?_, ?_, ?_, ?_, ?_, ?_, ?_, ?_, ?_⟩
  · intro p hp
    rcases List.mem_append.mp hp with hp | hp
    · exact h.deferred p hp
    · rw [List.mem_singleton.mp hp]
      exact ⟨hbefore, hdef⟩
  · rw [List.map_append, List.map_singleton]
    refine List.Nodup.append h.distinct (List.nodup_singleton _) ?_
    rw [List.disjoint_singleton]
    intro hmem
    obtain ⟨p, hp, hid⟩ := List.mem_map.mp hmem
    exact List.find?_eq_none.mp hnot p hp (beq_iff_eq.mpr hid)
  · intro id
    have hput : ((t.takeDeferred pk).emit (resumedEvent env t pk)).client.inflight.get id =
        if id = pk.packetID then some (unmarked pk) else t.client.inflight.get id :=
      get_put t.client.inflight (unmarked pk) id
    rw [hput, h.entries, List.find?_append]
    by_cases hid : id = pk.packetID
    · rw [if_pos hid, hid, hnot]
      simp
    · rw [if_neg hid]
      have hlast : [pk].find? (·.packetID == id) = none := by
        rw [List.find?_singleton, if_neg fun heq => hid (beq_iff_eq.mp heq).symm]
      rw [hlast, Option.or_none]
  · exact (len_put_over t.client.inflight hpk).trans h.len
  · have hleft := h.left
    have hput : (t.client.inflight.put { pk with expiry := 0 }).deferred + 1 = t.client.inflight.deferred :=
      deferred_put_sent hpk hdef
    rw [List.length_append, List.length_singleton]
    have hsame : ((t.takeDeferred pk).emit (resumedEvent env t pk)).client.inflight.deferred =
        (t.client.inflight.put { pk with expiry := 0 }).deferred := rfl
    omega
  · have hq := h.quota
    have hone : ((t.takeDeferred pk).emit (resumedEvent env t pk)).client.inflight.sendQuota =
        t.client.inflight.sendQuota - 1 := rfl
    rw [List.length_append, List.length_singleton, hone]
    omega
  · have hone : ((t.takeDeferred pk).emit (resumedEvent env t pk)).client.inflight.sendQuota =
        t.client.inflight.sendQuota - 1 := rfl
    omega
  · exact h.maximum
  · have hclient := congrArg (fun c => { c with inflight := (t.takeDeferred pk).client.inflight }) h.client
    exact hclient
  · exact h.server
  · rw [emit_log, List.map_append, List.map_singleton, ← List.append_assoc]
    have hevent : resumedEvent env t pk = resumedEvent env s pk := by
      unfold resumedEvent
      rw [h.outgoing]
    rw [hevent]
    exact congrArg (· ++ _) h.log

end Resumed
theorem resumeLoop_resumed (hlive : s.IsLive) (hw : s.Resumable env) (hquota : 0 ≤ s.client.inflight.sendQuota) :
    ∃ sent, Resumed env s sent (resumeLoop env s).2 ∧
      (sent.length : Int) = min (s.client.inflight.deferred : Int) s.client.inflight.sendQuota := by
  obtain ⟨⟨sent, hsent⟩, -, hend⟩ := @resumeLoop_live env s (fun t => ∃ sent, Resumed env s sent t)
    (fun ⟨sent, h⟩ _ hquota hpk hdef => ⟨sent ++ [_], h.next hquota hpk hdef⟩) hlive hw ⟨[], .refl hquota⟩
  refine ⟨sent, hsent, ?_⟩
  have hleft := hsent.left
  have hused := hsent.quota
  have henough := hsent.enough
  rcases hend with hend | hend
  · omega
  · rw [← deferred_eq_zero_iff] at hend
    omega

/-- What a call does to the inflight messages: one of the two ends is reached, either every deferred message
is sent or the quota is used up, and then not every message is deferred. -/
theorem resume_exact {env : Env} {s : Session} (hmax : 0 < s.client.inflight.maximumSendQuota)
    (hquota : 0 ≤ s.client.inflight.sendQuota) (hlive : s.IsLive) (hw : s.Resumable env) :
    ∃ sent : List Packet,
      (sent.length : Int) = min (s.client.inflight.deferred : Int) s.client.inflight.usableQuota ∧
      (∀ pk ∈ sent, s.client.inflight.get pk.packetID = some pk ∧ pk.expiry = inflightExpiryDeferred) ∧
      (sent.map Packet.packetID).Nodup ∧
      (∀ id, (s.resumeDeferredPublishes env).2.client.inflight.get id =
        ((sent.find? (·.packetID == id)).map unmarked).or (s.client.inflight.get id)) ∧
      (s.resumeDeferredPublishes env).2.log = s.log ++ sent.map (resumedEvent env s) ∧
      (s.resumeDeferredPublishes env).2.client.inflight.sendQuota =
        (if s.client.inflight.len = 0 then s.client.inflight.maximumSendQuota
          else s.client.inflight.usableQuota - sent.length) ∧
      ((∃ id pk, (s.resumeDeferredPublishes env).2.client.inflight.get id = some pk ∧
          pk.expiry = inflightExpiryDeferred) →
        ∃ id pk, (s.resumeDeferredPublishes env).2.client.inflight.get id = some pk ∧
          pk.expiry ≠ inflightExpiryDeferred) := by
  -- the state in which the loop starts
  have hrecover := recover_eq hmax hquota
  have husable : 0 ≤ s.client.inflight.usableQuota := by
    unfold usableQuota
    split <;> omega
  have hstart : (s.onInflight fun f => f.recoverStarvedSendQuota.2) =
      s.onInflight fun f => { f with sendQuota := s.client.inflight.usableQuota } :=
    congrArg (fun f => s.onInflight fun _ => f) hrecover
  obtain ⟨sent, hsent, hlength⟩ := @resumeLoop_resumed env
    (s.onInflight fun f => { f with sendQuota := s.client.inflight.usableQuota }) hlive hw husable
  have hresult : (s.resumeDeferredPublishes env).2 =
      (resumeLoop env (s.onInflight fun f => { f with sendQuota := s.client.inflight.usableQuota })).2.onInflight
        fun f => f.resetSendQuotaIfEmpty.2 := by
    rw [← hstart]
    rfl
  rw [hresult]
  generalize (resumeLoop env
    (s.onInflight fun f => { f with sendQuota := s.client.inflight.usableQuota })).2 = t at hsent
  have hmax' : 0 < t.client.inflight.maximumSendQuota := by
    rw [hsent.maximum]
    exact hmax
  have hreset := resetIfEmpty_eq hmax'
  have hget : ∀ id, (t.onInflight fun f => f.resetSendQuotaIfEmpty.2).client.inflight.get id =
      t.client.inflight.get id := by
    intro id
    rw [onInflight_client, hreset]
    rfl
  have hlen : t.client.inflight.len = s.client.inflight.len := hsent.len
  refine ⟨sent, hlength, hsent.deferred, hsent.distinct, ?_, hsent.log, ?_, ?_⟩
  · intro id
    rw [hget]
    exact hsent.entries id
  · have hused : t.client.inflight.sendQuota + sent.length = s.client.inflight.usableQuota := hsent.quota
    rw [onInflight_client, hreset]
    dsimp only
    rw [hlen, hsent.maximum]
    split
    · rfl
    · omega
  · rintro ⟨id, pk, hpk, hdef⟩
    rw [hget] at hpk
    have hsome : t.client.inflight.deferred ≠ 0 := fun hzero => deferred_eq_zero_iff.mp hzero id pk hpk hdef
    have hnotall : t.client.inflight.deferred ≠ t.client.inflight.len := by
      rw [hlen]
      exact left_ne_len hsent.left hlength hsome
    rw [Ne, deferred_eq_len_iff] at hnotall
    simp only [not_forall] at hnotall
    obtain ⟨id', pk', hpk', hdef'⟩ := hnotall
    exact ⟨id', pk', (hget id').trans hpk', hdef'⟩

def waiting (id : UInt16) : Packet :=
  { fixedHeader := { type := .publish, qos := 1 }, topicName := [97], packetID := id, expiry := inflightExpiryDeferred }

def starved : Session :=
  { client :=
      { protocolVersion := 5
        inflight := { Inflight.new with maximumSendQuota := 1 }.put (waiting 1) |>.put (waiting 2) } }

theorem resumable_starved : starved.Resumable (.encoding 0) := by
  intro id pk hpk _
  have hget : starved.client.inflight.get id =
      if id = 2 then some (waiting 2) else Inflight.get _ id := get_put _ (waiting 2) id
  rw [hget, get_put] at hpk
  split at hpk
  · cases hpk
    decide +kernel
  split at hpk
  · cases hpk
    decide +kernel
  · cases hpk

/-- One message is sent all the same. -/
theorem starved_resumed :
    ∃ pk, starved.client.inflight.get pk.packetID = some pk ∧
      (starved.resumeDeferredPublishes (.encoding 0)).2.client.inflight.get pk.packetID = some (unmarked pk) ∧
      (starved.resumeDeferredPublishes (.encoding 0)).2.log = [resumedEvent (.encoding 0) starved pk] := by
  obtain ⟨sent, hlength, hdeferred, -, hentries, hlog, -⟩ := @resume_exact (.encoding 0) starved (by decide) (by decide)
    ⟨rfl, rfl⟩ resumable_starved
  have hone : sent.length = 1 := by
    have hmin : min (starved.client.inflight.deferred : Int) starved.client.inflight.usableQuota = 1 := by decide
    omega
  obtain ⟨pk, rfl⟩ := List.length_eq_one_iff.mp hone
  refine ⟨pk, (hdeferred pk List.mem_cons_self).1, ?_, hlog⟩
  rw [hentries, List.find?_cons, beq_self_eq_true]
  rfl

end Session
end Mqtt
