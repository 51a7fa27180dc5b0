import MqttBroker.Session.Handlers

/-! The expiry of a message that waits for send quota. The mark of a deferred message
stands in the place of its expiry time, and is cleared to zero when the message is sent:
from then on the message has no expiry time, and while it waits it is never removed. -/

namespace Mqtt
open FiniteMap
namespace Session
open Inflight

variable {env : Env} {s t : Session} {m : Packet}

/-! ### `ClearExpiredInflights` -/

def isSwept (now maximumExpiry : Int) (tk : Packet) : Bool :=
  tk.expiry != inflightExpiryDeferred && tk.expiry != inflightExpiryReserved && isExpired now maximumExpiry tk

variable {acc : List UInt16 × Session} {maximumExpiry : Int} {tk : Packet}

theorem get_clearExpired {now : Int}
    (h : acc.2.client.inflight.get tk.packetID = some tk) (id : UInt16) :
    (clearExpired now maximumExpiry acc tk).2.client.inflight.get id =
      if id = tk.packetID ∧ isSwept now maximumExpiry tk = true then none else acc.2.client.inflight.get id := by
  have hpresent : (acc.2.client.inflight.delete tk.packetID).1 = true := by
    show (acc.2.client.inflight.get tk.packetID).isSome = true
    rw [h]
    rfl
  unfold clearExpired isSwept
  rw [hpresent, Bool.and_true]
  by_cases hmarked : tk.expiry = inflightExpiryDeferred ∨ tk.expiry = inflightExpiryReserved
  · rw [if_pos hmarked, if_neg]
    rintro ⟨-, hswept⟩
    simp only [Bool.and_eq_true, bne_iff_ne] at hswept
    exact hmarked.elim hswept.1.1 hswept.1.2
  · rw [not_or] at hmarked
    rw [if_neg (not_or.mpr hmarked)]
    cases hexpired : isExpired now maximumExpiry tk with
    | false =>
      rw [if_neg (by decide), if_neg]
      rintro ⟨-, hswept⟩
      simp at hswept
    | true =>
      have hswept : (tk.expiry != inflightExpiryDeferred && tk.expiry != inflightExpiryReserved && true) = true := by
        rw [Bool.and_true, Bool.and_eq_true, bne_iff_ne, bne_iff_ne]
        exact hmarked
      rw [if_pos rfl, hswept]
      simp only [and_true]
      show (if _ then _ else _ : Inflight).get id = _
      split
      · exact (get_increaseSendQuota _ _).trans (get_remove _ _ _)
      · exact get_remove _ _ _

theorem get_foldl_clearExpired {now : Int} (id : UInt16) {tks : List Packet} (hnodup : (tks.map Packet.packetID).Nodup)
    (hstored : ∀ tk ∈ tks, acc.2.client.inflight.get tk.packetID = some tk) :
    (tks.foldl (clearExpired now maximumExpiry) acc).2.client.inflight.get id =
      if ∃ tk ∈ tks, id = tk.packetID ∧ isSwept now maximumExpiry tk = true then none
      else acc.2.client.inflight.get id := by
  induction tks generalizing acc with
  | nil => simp
  | cons tk tks ih =>
    rw [List.map_cons, List.nodup_cons] at hnodup
    have hhead := hstored tk List.mem_cons_self
    have hrest : ∀ tk' ∈ tks,
        (clearExpired now maximumExpiry acc tk).2.client.inflight.get tk'.packetID = some tk' := by
      intro tk' htk'
      rw [get_clearExpired hhead, if_neg, hstored tk' (List.mem_cons_of_mem _ htk')]
      rintro ⟨hid, -⟩
      exact hnodup.1 (hid ▸ List.mem_map_of_mem htk')
    rw [List.foldl_cons, ih hnodup.2 hrest, get_clearExpired hhead]
    by_cases hswept : ∃ tk ∈ tks, id = tk.packetID ∧ isSwept now maximumExpiry tk = true
    · rw [if_pos hswept, if_pos]
      obtain ⟨tk', htk', hid⟩ := hswept
      exact ⟨tk', List.mem_cons_of_mem _ htk', hid⟩
    · rw [if_neg hswept]
      refine if_congr ?_ rfl rfl
      simp only [List.mem_cons, exists_eq_or_imp, hswept, or_false]

theorem get_clearExpiredInflights (env : Env) (s : Session) (now maximumExpiry : Int) (id : UInt16) :
    (s.clearExpiredInflights env now maximumExpiry).2.client.inflight.get id =
      (s.client.inflight.get id).filter fun tk => !isSwept now maximumExpiry tk := by
  unfold clearExpiredInflights
  rw [get_foldl_clearExpired id (nodup_getAll _ _) fun tk htk => (mem_getAll_iff _).mp htk]
  cases hget : s.client.inflight.get id with
  | none =>
    rw [if_neg]
    · rfl
    · rintro ⟨tk, htk, rfl, -⟩
      rw [(mem_getAll_iff _).mp htk] at hget
      cases hget
  | some tk =>
    have hid : tk.packetID = id := packetID_of_get _ hget
    have hiff : (∃ tk' ∈ s.client.inflight.getAll env.order false,
        id = tk'.packetID ∧ isSwept now maximumExpiry tk' = true) ↔ isSwept now maximumExpiry tk = true := by
      constructor
      · rintro ⟨tk', htk', rfl, hswept⟩
        rw [(mem_getAll_iff _).mp htk'] at hget
        rw [← Option.some.inj hget]
        exact hswept
      · intro hswept
        refine ⟨tk, (mem_getAll_iff _).mpr ?_, hid.symm, hswept⟩
        rw [hid]
        exact hget
    rw [if_congr hiff rfl rfl, Option.filter_some]
    cases isSwept now maximumExpiry tk <;> rfl

def Sweeps (env : Env) (s : Session) (now maximumExpiry : Int) (id : UInt16) : Prop :=
  (s.clearExpiredInflights env now maximumExpiry).2.client.inflight.get id = none

theorem sweeps_iff {id : UInt16} (h : s.client.inflight.get id = some tk) (now maximumExpiry : Int) :
    Sweeps env s now maximumExpiry id ↔ isSwept now maximumExpiry tk = true := by
  unfold Sweeps
  rw [get_clearExpiredInflights, h, Option.filter_some]
  cases isSwept now maximumExpiry tk <;> simp

/-! ### A deferred message -/

def Waits (s : Session) (m : Packet) : Prop :=
  s.client.inflight.get m.packetID = some { m with expiry := inflightExpiryDeferred }

def asStored (s : Session) (m : Packet) : Session := s.onInflight fun f => f.put m

/-- `resumeDeferredPublishes` writes this packet for the message. -/
def Transmits (env : Env) (s : Session) (m out : Packet) : Prop :=
  out.packetID = m.packetID ∧ ∃ topic, .wrote out topic ∈ (s.resumeDeferredPublishes env).2.log.drop s.log.length

/-- Where the loop of `resumeDeferredPublishes` has come to with a message: it waits and was not written, or it was
written without its expiry time. -/
structure OnItsWay (env : Env) (s : Session) (m : Packet) (t : Session) : Prop where
  outgoing : ∀ pk, t.outgoing env pk = s.outgoing env pk
  log : ∃ es, t.log = s.log ++ es ∧
    (Waits t m ∧ (∀ out topic, .wrote out topic ∈ es → out.packetID ≠ m.packetID) ∨
      t.client.inflight.get m.packetID = some { m with expiry := 0 } ∧
        (∃ topic, .wrote (s.outgoing env { m with expiry := 0 }) topic ∈ es) ∧
        ∀ out topic, .wrote out topic ∈ es → out.packetID = m.packetID → out = s.outgoing env { m with expiry := 0 })

section OnItsWay
variable {pk : Packet}

theorem get_takeDeferred (s : Session) (pk : Packet) (id : UInt16) : (s.takeDeferred pk).client.inflight.get id =
    if id = pk.packetID then some { pk with expiry := 0 } else s.client.inflight.get id := get_put _ _ _

theorem get_deferAgain (s : Session) (pk : Packet) (id : UInt16) : (s.deferAgain pk).client.inflight.get id =
    if id = pk.packetID then some { pk with expiry := inflightExpiryDeferred } else s.client.inflight.get id :=
  (get_increaseSendQuota _ _).trans (get_put _ _ _)

theorem OnItsWay.of_deferred (h : OnItsWay env s m t) (hpk : t.client.inflight.get m.packetID = some pk)
    (hdef : pk.expiry = inflightExpiryDeferred) : pk = { m with expiry := inflightExpiryDeferred } ∧
      ∃ es, t.log = s.log ++ es ∧ ∀ out topic, .wrote out topic ∈ es → out.packetID ≠ m.packetID := by
  obtain ⟨es, hlog, ⟨hwaits, hunwritten⟩ | ⟨hsent, -⟩⟩ := h.log
  · rw [hwaits] at hpk
    exact ⟨(Option.some.inj hpk).symm, es, hlog, hunwritten⟩
  · rw [hsent] at hpk
    rw [← Option.some.inj hpk] at hdef
    cases hdef

theorem OnItsWay.sent (h : OnItsWay env s m t) (hpk : t.client.inflight.get pk.packetID = some pk)
    (hdef : pk.expiry = inflightExpiryDeferred) :
    OnItsWay env s m ((t.takeDeferred pk).emit (.wrote (t.outgoing env { pk with expiry := 0 }) pk.topicName)) := by
  refine ⟨h.outgoing, ?_⟩
  rw [h.outgoing]
  by_cases hid : m.packetID = pk.packetID
  · -- it is the turn of the message itself, which is then written for the first time
    obtain ⟨rfl, es, hlog, hunwritten⟩ := h.of_deferred (hid ▸ hpk) hdef
    refine ⟨es ++ [.wrote (s.outgoing env { m with expiry := 0 }) m.topicName], ?_, .inr ⟨?_, ?_, ?_⟩⟩
    · exact (congrArg (· ++ _) hlog).trans (List.append_assoc _ _ _)
    · exact (get_takeDeferred _ _ _).trans (if_pos hid)
    · exact ⟨_, List.mem_append_right _ (List.mem_singleton_self _)⟩
    · intro out topic hout hsame
      rcases List.mem_append.mp hout with hout | hout
      · exact absurd hsame (hunwritten out topic hout)
      · cases List.mem_singleton.mp hout
        rfl
  · obtain ⟨es, hlog, hcases⟩ := h.log
    have hget : ((t.takeDeferred pk).emit
        (.wrote (s.outgoing env { pk with expiry := 0 }) pk.topicName)).client.inflight.get m.packetID =
          t.client.inflight.get m.packetID := (get_takeDeferred _ _ _).trans (if_neg hid)
    have hother : ∀ out topic, .wrote out topic ∈ [Event.wrote (s.outgoing env { pk with expiry := 0 }) pk.topicName] →
        out.packetID ≠ m.packetID := by
      intro out topic hout hsame
      cases List.mem_singleton.mp hout
      exact hid hsame.symm
    refine ⟨es ++ [.wrote (s.outgoing env { pk with expiry := 0 }) pk.topicName], ?_, ?_⟩
    · exact (congrArg (· ++ _) hlog).trans (List.append_assoc _ _ _)
    · rcases hcases with ⟨hwaits, hunwritten⟩ | ⟨hsent, ⟨topic, hmem⟩, hall⟩
      · refine .inl ⟨hget.trans hwaits, fun out topic hout => ?_⟩
        exact (List.mem_append.mp hout).elim (hunwritten out topic) (hother out topic)
      · refine .inr ⟨hget.trans hsent, ⟨topic, List.mem_append_left _ hmem⟩, fun out topic hout hsame => ?_⟩
        rcases List.mem_append.mp hout with hout | hout
        · exact hall out topic hout hsame
        · exact absurd hsame (hother out topic hout)

variable {u : Session}

theorem OnItsWay.keep {es' : List Event} (h : OnItsWay env s m t) (hlog' : u.log = t.log ++ es')
    (hplain : ∀ out topic, .wrote out topic ∉ es') (houtgoing : ∀ p, u.outgoing env p = t.outgoing env p)
    (hget : ∀ id, u.client.inflight.get id = t.client.inflight.get id) : OnItsWay env s m u := by
  obtain ⟨es, hlog, hcases⟩ := h.log
  refine ⟨fun p => (houtgoing p).trans (h.outgoing p), es ++ es', ?_, ?_⟩
  · rw [hlog', hlog, List.append_assoc]
  · unfold Waits
    rw [hget]
    rcases hcases with ⟨hwaits, hunwritten⟩ | ⟨hsent, ⟨topic, hmem⟩, hall⟩
    · refine .inl ⟨hwaits, fun out topic hout => ?_⟩
      exact (List.mem_append.mp hout).elim (hunwritten out topic) fun hout => absurd hout (hplain out topic)
    · refine .inr ⟨hsent, ⟨topic, List.mem_append_left _ hmem⟩, fun out topic hout hsame => ?_⟩
      rcases List.mem_append.mp hout with hout | hout
      · exact hall out topic hout hsame
      · exact absurd hout (hplain out topic)

theorem get_parked_again (hpk : t.client.inflight.get pk.packetID = some pk) (hdef : pk.expiry = inflightExpiryDeferred)
    (hu : u.client = (t.takeDeferred pk).client) (id : UInt16) :
    (u.deferAgain { pk with expiry := 0 }).client.inflight.get id = t.client.inflight.get id := by
  -- only the mark was cleared, and it is set again
  have hsame : ({ pk with expiry := inflightExpiryDeferred } : Packet) = pk := by rw [← hdef]
  rw [get_deferAgain, hu, get_takeDeferred]
  dsimp only
  rw [hsame]
  split
  · rename_i hid
    rw [hid, hpk]
  · rfl

theorem onItsWay_resume (h : Waits s m) : OnItsWay env s m (s.resumeDeferredPublishes env).2 := by
  have hstart : OnItsWay env s m s :=
    ⟨fun _ => rfl, [], (List.append_nil _).symm, .inl ⟨h, fun _ _ hout => absurd hout List.not_mem_nil⟩⟩
  have hsame : ∀ {t u : Session}, OnItsWay env s m t → u.log = t.log → u.outgoing env = t.outgoing env →
      (∀ id, u.client.inflight.get id = t.client.inflight.get id) → OnItsWay env s m u := by
    intro t u ht hlog hout hget
    exact ht.keep (hlog.trans (List.append_nil _).symm) (fun _ _ => List.not_mem_nil) (congrFun hout) hget
  apply resume_invariant
  · intro t pk ht _ hpk hdef _ _ _
    exact ht.sent hpk hdef
  · intro t pk ht _ hpk hdef
    constructor
    · exact hsame ht rfl rfl (get_parked_again hpk hdef rfl)
    · intro out err
      have hlog : (((t.takeDeferred pk).emit (.writeFailed out err)).deferAgain { pk with expiry := 0 }).log =
          t.log ++ [.writeFailed out err] := rfl
      refine ht.keep hlog (fun out topic hout => ?_) (fun _ => rfl) (get_parked_again hpk hdef rfl)
      cases List.mem_singleton.mp hout
  · exact fun ht => hsame ht rfl rfl (get_resetSendQuotaIfEmpty _)
  · exact hsame hstart rfl rfl (get_recoverStarvedSendQuota _)

end OnItsWay

theorem Transmits.eq {out : Packet} (h : Waits s m) (hout : Transmits env s m out) :
    out = s.outgoing env { m with expiry := 0 } ∧
      (s.resumeDeferredPublishes env).2.client.inflight.get m.packetID = some { m with expiry := 0 } := by
  obtain ⟨hid, topic, hmem⟩ := hout
  obtain ⟨es, hlog, hcases⟩ := (@onItsWay_resume env s m h).log
  rw [hlog, List.drop_left] at hmem
  rcases hcases with ⟨-, hunwritten⟩ | ⟨hsent, -, hall⟩
  · exact absurd hid (hunwritten out topic hmem)
  · exact ⟨hall out topic hmem hid, hsent⟩

/-! ### What it comes to -/

/-- A message that waits, and is then sent, has the expiry of the message that is stored at once: in what is written,
and in what is removed, at one time before it is sent and at one after. -/
structure ExpiryKept (env : Env) (s : Session) (m : Packet) (before after maximumExpiry : Int) : Prop where
  written : ∀ out, Transmits env s m out →
    out.properties.messageExpiryInterval = (s.outgoing env m).properties.messageExpiryInterval
  waiting : Sweeps env s before maximumExpiry m.packetID ↔
    Sweeps env (s.asStored m) before maximumExpiry m.packetID
  sent : (∃ out, Transmits env s m out) →
    (Sweeps env (s.resumeDeferredPublishes env).2 after maximumExpiry m.packetID ↔
      Sweeps env ((s.resumeDeferredPublishes env).2.asStored m) after maximumExpiry m.packetID)

theorem get_asStored (s : Session) (m : Packet) : (s.asStored m).client.inflight.get m.packetID = some m :=
  (get_put _ _ _).trans (if_pos rfl)

theorem outgoing_interval (he : 0 < m.expiry) : (s.outgoing env m).properties.messageExpiryInterval =
    UInt32.ofNat (max 1 (m.expiry - env.now)).toNat := by
  unfold outgoing
  dsimp only
  rw [if_pos he]

theorem isSwept_of_pos (he : 0 < m.expiry) (now maximumExpiry : Int) :
    isSwept now maximumExpiry m = isExpired now maximumExpiry m := by
  have hdeferred : m.expiry ≠ inflightExpiryDeferred := by
    unfold inflightExpiryDeferred
    omega
  have hreserved : m.expiry ≠ inflightExpiryReserved := by
    unfold inflightExpiryReserved
    omega
  unfold isSwept
  rw [bne_iff_ne.mpr hdeferred, bne_iff_ne.mpr hreserved]
  rfl

def isEnforced (now maximumExpiry : Int) (m : Packet) : Bool :=
  0 < maximumExpiry && 0 < m.created && maximumExpiry < now - m.created

/-- A message that waits for send quota keeps its expiry exactly if it carries the interval that is left when it is
sent, has not expired while it waits, and afterwards does not expire before the maximum of the server. -/
theorem expiryKept_iff {env : Env} {s : Session} {m : Packet} {before after maximumExpiry : Int} (h : Waits s m)
    (he : 0 < m.expiry) :
    ExpiryKept env s m before after maximumExpiry ↔
      ((∃ out, Transmits env s m out) → m.properties.messageExpiryInterval =
          UInt32.ofNat (max 1 (m.expiry - env.now)).toNat) ∧
        isExpired before maximumExpiry m = false ∧
        ((∃ out, Transmits env s m out) → isExpired after maximumExpiry m = isEnforced after maximumExpiry m) := by
  -- a deferred entry is passed over, and one whose mark was cleared only falls under the maximum of the server
  have hmarked : isSwept before maximumExpiry { m with expiry := inflightExpiryDeferred } = false := rfl
  have hcleared : isSwept after maximumExpiry { m with expiry := 0 } = isEnforced after maximumExpiry m := by
    unfold isSwept isExpired isEnforced
    simp [inflightExpiryDeferred, inflightExpiryReserved]
  have hwaiting : (Sweeps env s before maximumExpiry m.packetID ↔
      Sweeps env (s.asStored m) before maximumExpiry m.packetID) ↔ isExpired before maximumExpiry m = false := by
    rw [sweeps_iff h, sweeps_iff (get_asStored s m), hmarked, isSwept_of_pos he]
    cases isExpired before maximumExpiry m <;> simp
  have hsent : ∀ {out}, Transmits env s m out →
      ((Sweeps env (s.resumeDeferredPublishes env).2 after maximumExpiry m.packetID ↔
          Sweeps env ((s.resumeDeferredPublishes env).2.asStored m) after maximumExpiry m.packetID) ↔
        isExpired after maximumExpiry m = isEnforced after maximumExpiry m) := by
    intro out hout
    rw [sweeps_iff (hout.eq h).2, sweeps_iff (get_asStored _ m), hcleared, isSwept_of_pos he, ← Bool.eq_iff_iff]
    exact eq_comm
  constructor
  · intro hkept
    refine ⟨?_, hwaiting.mp hkept.waiting, ?_⟩
    · rintro ⟨out, hout⟩
      have hinterval := hkept.written out hout
      rw [(hout.eq h).1, outgoing_interval he] at hinterval
      exact hinterval
    · rintro ⟨out, hout⟩
      exact (hsent hout).mp (hkept.sent ⟨out, hout⟩)
  · rintro ⟨hinterval, hexpired, hlater⟩
    refine ⟨fun out hout => ?_, hwaiting.mpr hexpired, ?_⟩
    · rw [(hout.eq h).1, outgoing_interval he]
      exact hinterval ⟨out, hout⟩
    · rintro ⟨out, hout⟩
      exact (hsent hout).mpr (hlater ⟨out, hout⟩)

def fiftySeconds : Packet :=
  { packetID := 1, protocolVersion := 5, fixedHeader := { type := .publish, qos := 1 }, created := 50, expiry := 100
    properties := { messageExpiryInterval := 50 } }

/-- A client of MQTT 5 for which it is parked, because a message with packet id 2 has the only unit of send quota;
then this message is acknowledged. -/
def expecting : Session :=
  let busy : Session := { client :=
    { protocolVersion := 5
      inflight := { Inflight.new with maximumSendQuota := 1 }.put
        { packetID := 2, fixedHeader := { type := .publish, qos := 1 } } } }
  ((busy.park fiftySeconds).processPuback { packetID := 2 }).2

theorem expecting_waits : Waits expecting fiftySeconds := rfl

theorem expecting_transmits : Transmits (.accepting 90) expecting fiftySeconds
    (expecting.outgoing (.accepting 90) { fiftySeconds with expiry := 0 }) :=
  ⟨rfl, [], by decide +kernel⟩

/-- Sent in the second in which it was created, it has its expiry. -/
theorem expiryKept_at_once : ExpiryKept (.accepting 50) expecting fiftySeconds 50 100 1000 :=
  (expiryKept_iff expecting_waits (by decide)).mpr ⟨fun _ => rfl, rfl, fun _ => rfl⟩

/-- Sent at 90 it carries 50 seconds, where 10 are left, and at 200 it has not been removed. -/
theorem waiting_changes_expiry :
    (∃ out, Transmits (.accepting 90) expecting fiftySeconds out ∧ out.properties.messageExpiryInterval = 50 ∧
        (expecting.outgoing (.accepting 90) fiftySeconds).properties.messageExpiryInterval = 10) ∧
      ¬ Sweeps (.accepting 90) expecting 200 1000 1 ∧
      Sweeps (.accepting 90) (expecting.asStored fiftySeconds) 200 1000 1 := by
  refine ⟨⟨_, expecting_transmits, rfl, rfl⟩, ?_, ?_⟩
  · exact fun h => absurd ((sweeps_iff expecting_waits 200 1000).mp h) (by decide)
  · exact (sweeps_iff (get_asStored expecting fiftySeconds) 200 1000).mpr rfl

end Session
end Mqtt
