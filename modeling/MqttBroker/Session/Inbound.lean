import MqttBroker.Session.Units

/-! The receive quota of a client over whole runs. It is not used up as long as no
entry of an unfinished exchange is lost, and the exchanges of both directions
together stay below the receive maximum. -/

namespace Mqtt
open FiniteMap

/-- A connection of a client. As history: the PUBLISH packets of the client that are outstanding, with
their QoS, whether the read loop has ended with an error, and whether a PUBLISH was disconnected for
exceeding the receive maximum. -/
structure Inbound where
  session : Session
  outstanding : List (UInt16 × UInt8) := []
  failed : Bool := false
  overrun : Bool := false

namespace Inbound
open Session Inflight

def flows (env : Env) (x : Inbound) (pk : Packet) : List (UInt16 × UInt8) :=
  match pk.fixedHeader.type with
  | .publish =>
    if pk.fixedHeader.qos = 0 ∨ x.session.answered env pk = true then x.outstanding
    else (pk.packetID, pk.fixedHeader.qos) :: x.outstanding
  | .pubrel => x.outstanding.erase (pk.packetID, 2)
  | _ => x.outstanding

def overruns (x : Inbound) (pk : Packet) : Bool :=
  pk.fixedHeader.type == .publish && decide (pk.publishValidate x.session.server.caps.topicAliasMaximum = .success) &&
    x.session.exceedsReceiveMaximum pk

/-- What happens on a connection: a packet is handled, a message is delivered, the write loop takes a
turn, or expired messages are swept. -/
inductive Call where
  | packet (pk : Packet)
  | deliver (sub : Subscription) (pk : { pk : Packet // pk.fixedHeader.type = .publish })
  | write
  | sweep (now maximumExpiry : Int)

def run (env : Env) (x : Inbound) : Call → Inbound
  | .packet pk =>
    if x.failed then x
    else
      { session := (x.session.receivePacket env pk).2
        outstanding := x.flows env pk
        failed := (x.session.receivePacket env pk).1.isSome
        overrun := x.overrun || x.overruns pk }
  | .deliver sub pk => { x with session := (x.session.publishToClient env sub pk.1).2 }
  | .write => { x with session := x.session.writeNext env }
  | .sweep now maximumExpiry => { x with session := (x.session.clearExpiredInflights env now maximumExpiry).2 }

def Step (x : Inbound) (call : Env × Call) (y : Inbound) : Prop := y = x.run call.1 call.2

theorem step_run (x : Inbound) (call : Env × Call) : Step x call (x.run call.1 call.2) := rfl

def Compliant (maximum : Nat) (x : Inbound) : Env × Call → Prop
  | (_, .packet pk) => pk.fixedHeader.type = .publish → x.outstanding.length < maximum
  | _ => True

def Lossless (x : Inbound) : Env × Call → Prop
  | (env, .packet pk) =>
    match pk.fixedHeader.type with
    | .publish => Respects env x.session pk ∧
        (pk.fixedHeader.qos = 2 → x.session.client.inflight.hasType pk.packetID .pubrel = false)
    | .puback => x.session.isUnfinished pk.packetID = false
    | .pubrec => x.session.isUnfinished pk.packetID = false
    | .pubrel => pk.endsFlow = true → x.session.isUnfinished pk.packetID = false
    | _ => True
  | (_, .sweep now maximumExpiry) => ∀ id e, x.session.client.inflight.get id = some e →
      x.session.isUnfinished id = true → isExpired now maximumExpiry e = false
  | _ => True

def Room (maximum : Nat) (x : Inbound) : Env × Call → Prop
  | (_, .packet pk) => pk.fixedHeader.type = .publish → x.outstanding.length + x.session.released < maximum
  | _ => True

/-! ### Runs -/

variable {maximum : Nat} {A : Finset UInt16} {env : Env} {x y : Inbound} {pk : Packet}

theorem outstanding_subset_flows (htype : pk.fixedHeader.type = .publish) : x.outstanding ⊆ x.flows env pk := by
  unfold flows
  rw [htype]
  dsimp only
  split
  · exact List.Subset.refl _
  · exact List.subset_cons_self _ _

theorem mem_flows_of_accepted (htype : pk.fixedHeader.type = .publish) (hinline : x.session.client.inline = false)
    (hrespects : Respects env x.session pk) {q : Packet} {t : Session}
    (hacc : x.session.receivePublish env pk = .accepted q t) (hqos : q.fixedHeader.qos = 2) :
    (pk.packetID, 2) ∈ x.flows env pk := by
  obtain ⟨err, u, hret, -⟩ | ⟨-, q', hpass, haccept⟩ := receivePublish_cases env x.session pk
  · rw [hret] at hacc
    cases hacc
  · obtain ⟨-, -, -, htwo⟩ := hrespects q' hpass
    have hresult := haccept.symm.trans hacc
    have hsame : q = q' := by
      obtain ⟨-, _, _, hret, -⟩ | ⟨-, -, -, _, _, hret, -⟩ | ⟨-, hret⟩ | ⟨-, -, _, hret, -⟩ :=
        acceptPublish_cases env (x.session.aliased env pk) q'
      all_goals
        rw [hret] at hresult
        cases hresult
      all_goals rfl
    rw [hsame] at hqos
    have hpk := htwo hqos
    have hopen := answered_of_accepted hpk hqos hinline haccept hresult
    unfold flows
    rw [htype]
    dsimp only
    rw [if_neg, hpk]
    · exact List.mem_cons_self
    · rw [hpk, hopen]
      decide

theorem flows_of_other (hpublish : pk.fixedHeader.type ≠ .publish) (hpubrel : pk.fixedHeader.type ≠ .pubrel) :
    x.flows env pk = x.outstanding := by
  unfold flows
  split
  · rename_i htype
    exact absurd htype hpublish
  · rename_i htype
    exact absurd htype hpubrel
  · rfl

theorem covers_handle (h : Covers maximum A x.session x.outstanding) (hl : x.Lossless (env, .packet pk))
    (herr : (x.session.handle env pk).1 = none) :
    ∃ B, Covers maximum B (x.session.handle env pk).2 (x.flows env pk) := by
  have hsteady : ∀ {t : Session}, Steady x.session t → ∃ B, Covers maximum B t x.outstanding :=
    fun hst => ⟨A, h.steady hst (List.Subset.refl _)⟩
  unfold Session.handle at herr ⊢
  unfold Lossless at hl
  dsimp only at hl
  by_cases hpublish : pk.fixedHeader.type = .publish
  · rw [hpublish] at herr hl ⊢
    dsimp only [validated] at herr hl ⊢
    split
    · rename_i hinvalid
      rw [if_pos hinvalid] at herr
      cases herr
    · rename_i hvalid
      rw [if_neg hvalid] at herr
      exact h.processPublish hl.1 hl.2 herr (outstanding_subset_flows hpublish)
        fun q t hacc hqos => mem_flows_of_accepted hpublish h.inline hl.1 hacc hqos
  by_cases hpubrel : pk.fixedHeader.type = .pubrel
  · rw [hpubrel] at herr hl ⊢
    have hflows : x.flows env pk = x.outstanding.erase (pk.packetID, 2) := by
      unfold flows
      rw [hpubrel]
    rw [hflows]
    exact h.processPubrel hl herr
  -- no other packet begins or ends an exchange of the client
  rw [flows_of_other hpublish hpubrel]
  cases htype : pk.fixedHeader.type with
  | publish => exact absurd htype hpublish
  | pubrel => exact absurd htype hpubrel
  | puback =>
    rw [htype] at hl
    exact ⟨A, h.processPuback hl⟩
  | pubrec =>
    rw [htype] at hl
    exact h.processPubrec hl
  | pubcomp => exact h.processPubcomp
  | connect => exact hsteady steady_sendLWT
  | disconnect => exact hsteady steady_processDisconnect
  | pingreq => exact hsteady (steady_writePacketOn _)
  | subscribe =>
    dsimp only [validated]
    split
    · exact hsteady (.refl _)
    · exact hsteady (steady_processSubscribe h.stored)
  | unsubscribe =>
    dsimp only [validated]
    split
    · exact hsteady (.refl _)
    · exact hsteady steady_processUnsubscribe
  | auth =>
    dsimp only [validated]
    split <;> exact hsteady (.refl _)
  | _ => exact hsteady (.refl _)

theorem handle_none_of_receivePacket {s : Session} (h : (s.receivePacket env pk).1 = none) :
    (s.handle env pk).1 = none := by
  unfold receivePacket processPacket at h
  cases hh : s.handle env pk with
  | mk err t =>
    cases err with
    | none => rfl
    | some err =>
      rw [hh] at h
      dsimp only at h
      split at h
      · split at h <;> cases h
      · cases h
      · rename_i heq
        cases heq

/-- No PUBLISH was disconnected for exceeding the receive maximum, and while packets are handled each
unit that is taken has its entry. -/
structure Sound (maximum : Nat) (x : Inbound) : Prop where
  covered : x.failed = false → ∃ A, Covers maximum A x.session x.outstanding
  kept : x.overrun = false

theorem Sound.step {call : Env × Call} (h : x.Sound maximum) (hl : x.Lossless call) (hroom : x.Room maximum call)
    (hstep : Step x call y) : y.Sound maximum := by
  obtain ⟨env, call⟩ := call
  unfold Step at hstep
  subst hstep
  -- what is steady keeps the ids that stand for the units
  have hsteady : ∀ {t : Session}, Steady x.session t → Sound maximum { x with session := t } := by
    intro t hst
    refine ⟨fun hf => ?_, h.kept⟩
    obtain ⟨A, hA⟩ := h.covered hf
    exact ⟨A, hA.steady hst (List.Subset.refl _)⟩
  cases call with
  | deliver sub pk => exact hsteady (steady_publishToClient pk.2)
  | write => exact hsteady steady_writeNext
  | sweep now maximumExpiry => exact hsteady (steady_clearExpiredInflights hl)
  | packet pk =>
    dsimp only [run]
    by_cases hfailed : x.failed = true
    · rw [if_pos hfailed]
      exact h
    · rw [if_neg hfailed]
      obtain ⟨A, hA⟩ := h.covered (Bool.eq_false_iff.mpr hfailed)
      refine ⟨fun hnone => ?_, ?_⟩
      · have herr : (x.session.receivePacket env pk).1 = none :=
          Option.not_isSome_iff_eq_none.mp (Bool.eq_false_iff.mp hnone)
        obtain ⟨B, hB⟩ := covers_handle hA hl (handle_none_of_receivePacket herr)
        exact ⟨B, hB.steady steady_receivePacket (List.Subset.refl _)⟩
      · show (x.overrun || x.overruns pk) = false
        rw [h.kept, Bool.false_or]
        unfold overruns
        by_cases hpublish : pk.fixedHeader.type = .publish
        · rw [hA.exceeds_eq_false (hroom hpublish), Bool.and_false]
        · rw [beq_false_of_ne hpublish, Bool.false_and, Bool.false_and]

/-- A connection of a client that has just been accepted, with `ResetReceiveQuota` done. -/
structure Start (maximum : Nat) (x : Inbound) : Prop where
  server : x.session.server.caps.receiveMaximum.toNat = maximum
  reset : x.session.receive = ((maximum : Int), (maximum : Int))
  inline : x.session.client.inline = false
  stored : x.session.RetainsPublish
  kept : x.overrun = false

theorem Start.sound (h : x.Start maximum) : x.Sound maximum := by
  refine ⟨fun _ => ⟨∅, ?_, ?_, ?_, h.inline, h.stored⟩, h.kept⟩
  · rw [h.reset]
  · rw [h.reset]
    exact Int.le_add_of_nonneg_right (Int.natCast_nonneg _)
  · exact fun p hp => absurd hp (Finset.notMem_empty p)

/-- In every run in which the client sends a PUBLISH only when the messages outstanding and those sent to
it and released are fewer than the receive maximum, and in which no entry of an unfinished exchange is
lost or overwritten, no PUBLISH is disconnected for exceeding the receive maximum. -/
theorem not_overrun_of_room (hstart : x.Start maximum)
    (hr : Runs.Reach Step (fun z call => z.Room maximum call ∧ z.Lossless call) x y) : y.overrun = false := by
  have hsound : y.Sound maximum := by
    refine hr.invariant hstart.sound ?_
    intro z call w hz hok hstep
    exact hz.step hok.2 hok.1 hstep
  exact hsound.kept

/-! ### One message in each direction -/

def fresh (maximum : UInt16) : Inbound :=
  { session :=
      { client :=
          { protocolVersion := 5
            inflight := (Inflight.new.resetReceiveQuota maximum.toNat).resetSendQuota 1 }
        server := { caps := { receiveMaximum := maximum } } } }

theorem start_fresh (n : UInt16) : (fresh n).Start n.toNat := by
  refine ⟨rfl, rfl, rfl, fun topic pk h => ?_, rfl⟩
  cases h

def deliverOne : Call := .deliver { filter := [97], qos := 2 } ⟨qos2Message, rfl⟩

def receivedOne : Packet := { fixedHeader := { type := .pubrec }, packetID := 1, protocolVersion := 5 }

def publishSeven : Packet :=
  { fixedHeader := { type := .publish, qos := 1 }, packetID := 7, topicName := [98], protocolVersion := 5 }

/-- A message of QoS 2 is sent to the client, which answers with PUBREC and then publishes a message
of QoS 1. -/
def bothWays : List (Env × Call) :=
  [deliverOne, .write, .packet receivedOne, .packet publishSeven].map (Prod.mk (.accepting 100))

def answeredBy (n : UInt16) : Inbound :=
  (((fresh n).run (.accepting 100) deliverOne).run (.accepting 100) .write).run (.accepting 100) (.packet receivedOne)

theorem respects_accepting (s : Session) (pk : Packet) (htype : pk.fixedHeader.type = .publish)
    (hqos : pk.fixedHeader.qos = 1) : Respects (.accepting 100) s pk := by
  intro q hq
  have hsubject : q = s.subject (.accepting 100) pk := hq
  obtain ⟨qos, hle, heq⟩ := subject_cases (.accepting 100) s pk
  rw [hsubject, heq]
  rw [hqos] at hle
  refine ⟨htype, rfl, UInt8.le_trans hle (by decide), fun htwo => ?_⟩
  have htwo : qos = 2 := htwo
  rw [htwo] at hle
  exact absurd hle (by decide)

theorem not_overrun_of_two : ((answeredBy 2).run (.accepting 100) (.packet publishSeven)).overrun = false := by
  refine not_overrun_of_room (start_fresh 2) (Runs.Reach.foldl step_run bothWays .refl ?_)
  refine ⟨⟨trivial, trivial⟩, ⟨trivial, trivial⟩, ⟨nofun, ?_⟩,
    ⟨fun _ => ?_, respects_accepting _ _ rfl rfl, nofun⟩, trivial⟩
  · show ((((fresh 2).run (.accepting 100) deliverOne).run (.accepting 100) .write).session).isUnfinished 1 = false
    decide +kernel
  · show (answeredBy 2).outstanding.length + (answeredBy 2).session.released < 2
    decide +kernel

/-- With a receive maximum of one a client that has nothing outstanding is disconnected. -/
theorem overrun_of_pubrec : (fresh 1).Start 1 ∧ ∃ y, Runs.Reach Step (Compliant 1) (fresh 1) y ∧ y.overrun = true := by
  refine ⟨start_fresh 1, (answeredBy 1).run (.accepting 100) (.packet publishSeven), ?_, by decide +kernel⟩
  refine Runs.Reach.foldl step_run bothWays .refl ⟨trivial, trivial, nofun, fun _ => ?_, trivial⟩
  show (answeredBy 1).outstanding.length < 1
  decide +kernel

end Inbound
end Mqtt
