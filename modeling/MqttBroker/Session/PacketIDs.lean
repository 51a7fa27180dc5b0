import MqttBroker.Session.Client

/-! The search for a packet id. The loop of `nextPacketID` goes up from the cursor,
starts again at 1 behind the last id, and ends when it meets the cursor. As the
source has it the loop has no bound of its own; it is run here turn by turn, and
from a cursor of at most `maximumPacketID` it ends with the first free id in cyclic
order, or with none after it has tried every id. -/

namespace Mqtt

structure Search where
  i : Nat
  overflowed : Bool

section Loop
variable (f : Inflight) (now : Int) (maximumPacketID started : Nat) (max : Int)

/-- One turn of the loop of `nextPacketID`: it goes on, or it returns. -/
def searchTurn (st : Search) : Search ⊕ (Option Nat × Inflight) :=
  if st.overflowed && st.i == started then .inr (none, f)
  else if maximumPacketID ≤ st.i then .inl ⟨0, true⟩
  else
    match f.tryReserve now (UInt16.ofNat (st.i + 1)) max with
    | (.ok, f') => .inr (some (st.i + 1), f')
    | (.full, _) => .inr (none, f)
    | (.idTaken, _) => .inl ⟨st.i + 1, st.overflowed⟩

def searchTurns : Nat → Search → Option (Option Nat × Inflight)
  | 0, _ => none
  | n + 1, st =>
    match searchTurn f now maximumPacketID started max st with
    | .inl st => searchTurns n st
    | .inr r => some r

variable {i : Nat} {overflowed : Bool}

theorem succ_le_started {started : Nat} (hi : overflowed = true → i ≤ started)
    (hmet : ¬(overflowed && i == started) = true) : overflowed = true → i + 1 ≤ started := by
  intro hover
  have hne : i ≠ started := by
    intro heq
    exact hmet (by simp [hover, heq])
  have hle := hi hover
  omega

theorem searchTurns_eq_loop (hstarted : started ≤ maximumPacketID) (i : Nat) (overflowed : Bool)
    (hi : overflowed = true → i ≤ started) :
    ∃ turns, searchTurns f now maximumPacketID started max turns ⟨i, overflowed⟩ =
      some (nextPacketIDLoop f now maximumPacketID started max i overflowed) := by
  fun_induction nextPacketIDLoop f now maximumPacketID started max i overflowed with
  | case1 i overflowed hmet =>
    refine ⟨1, ?_⟩
    rw [searchTurns, searchTurn, if_pos hmet]
  | case2 i hlast hmet =>
    -- here the loop would start for the third time
    have heq : i = started := Nat.le_antisymm (hi rfl) (hstarted.trans hlast)
    exact absurd (by simpa using heq) hmet
  | case3 i hlast hmet ih =>
    obtain ⟨turns, hturns⟩ := ih fun _ => Nat.zero_le _
    refine ⟨turns + 1, ?_⟩
    rw [searchTurns, searchTurn, if_neg hmet, if_pos hlast]
    exact hturns
  | case4 i overflowed hmet hlast f' hreserve | case5 i overflowed hmet hlast f' hreserve =>
    refine ⟨1, ?_⟩
    rw [searchTurns, searchTurn, if_neg hmet, if_neg hlast]
    dsimp only
    rw [hreserve]
  | case6 i overflowed hmet hlast f' hreserve ih =>
    obtain ⟨turns, hturns⟩ := ih (succ_le_started hi hmet)
    refine ⟨turns + 1, ?_⟩
    rw [searchTurns, searchTurn, if_neg hmet, if_neg hlast]
    dsimp only
    rw [hreserve]
    exact hturns

theorem nextPacketIDLoop_bounds {j : Nat}
    (h : (nextPacketIDLoop f now maximumPacketID started max i overflowed).1 = some j) :
    0 < j ∧ j ≤ maximumPacketID := by
  fun_induction nextPacketIDLoop f now maximumPacketID started max i overflowed with
  | case1 | case2 => cases h
  | case3 i hlast hmet ih => exact ih h
  | case4 i overflowed hmet hlast f' hreserve =>
    cases h
    exact ⟨Nat.succ_pos i, Nat.lt_of_not_le hlast⟩
  | case5 => cases h
  | case6 i overflowed hmet hlast f' hreserve ih => exact ih h

/-! ### The ids in cyclic order -/

def untried (i : Nat) (overflowed : Bool) : List Nat :=
  if overflowed then List.range' (i + 1) (started - i)
  else List.range' (i + 1) (maximumPacketID - i) ++ List.range' 1 started

theorem untried_cons (hlast : ¬maximumPacketID ≤ i)
    (hnext : overflowed = true → i + 1 ≤ started) :
    untried maximumPacketID started i overflowed = (i + 1) :: untried maximumPacketID started (i + 1) overflowed := by
  unfold untried
  cases overflowed with
  | true =>
    have hleft : started - i = started - (i + 1) + 1 := by
      have hle := hnext rfl
      omega
    rw [if_pos rfl, if_pos rfl, hleft, List.range'_succ]
  | false =>
    have hleft : maximumPacketID - i = maximumPacketID - (i + 1) + 1 := by omega
    rw [if_neg Bool.false_ne_true, if_neg Bool.false_ne_true, hleft, List.range'_succ, List.cons_append]

def isFree (id : Nat) : Bool := (f.get (UInt16.ofNat id)).isNone

def AtCap : Prop := 0 < max ∧ max ≤ f.len

theorem tryReserve_of_atCap {f : Inflight} {max : Int} (h : AtCap f max) (id : UInt16) :
    f.tryReserve now id max = (.full, f) := by
  unfold AtCap at h
  unfold Inflight.tryReserve
  rw [if_pos h]

theorem tryReserve_of_room {f : Inflight} {max : Int} (h : ¬AtCap f max) (id : Nat) :
    f.tryReserve now (UInt16.ofNat id) max =
      if isFree f id then (.ok, f.put (Inflight.reservation now (UInt16.ofNat id))) else (.idTaken, f) := by
  unfold AtCap at h
  unfold Inflight.tryReserve isFree
  rw [if_neg h]
  cases f.get (UInt16.ofNat id) <;> rfl

theorem nextPacketIDLoop_of_atCap (h : AtCap f max) (i : Nat) (overflowed : Bool) :
    nextPacketIDLoop f now maximumPacketID started max i overflowed = (none, f) := by
  fun_induction nextPacketIDLoop f now maximumPacketID started max i overflowed with
  | case1 | case2 => rfl
  | case3 i hlast hmet ih => exact ih
  | case4 i overflowed hmet hlast f' hreserve =>
    rw [tryReserve_of_atCap now h] at hreserve
    cases hreserve
  | case5 => rfl
  | case6 i overflowed hmet hlast f' hreserve ih => exact ih

theorem nextPacketIDLoop_eq_find (h : ¬AtCap f max) (hstarted : started ≤ maximumPacketID) (i : Nat)
    (overflowed : Bool) (hi : overflowed = true → i ≤ started) :
    nextPacketIDLoop f now maximumPacketID started max i overflowed =
      match (untried maximumPacketID started i overflowed).find? (isFree f) with
      | some id => (some id, f.put (Inflight.reservation now (UInt16.ofNat id)))
      | none => (none, f) := by
  fun_induction nextPacketIDLoop f now maximumPacketID started max i overflowed with
  | case1 i overflowed hmet =>
    simp only [Bool.and_eq_true, beq_iff_eq] at hmet
    obtain ⟨rfl, rfl⟩ := hmet
    rw [untried, if_pos rfl, Nat.sub_self, List.range'_zero, List.find?_nil]
  | case2 i hlast hmet =>
    have heq : i = started := Nat.le_antisymm (hi rfl) (hstarted.trans hlast)
    exact absurd (by simpa using heq) hmet
  | case3 i hlast hmet ih =>
    rw [ih fun _ => Nat.zero_le _, untried, untried, if_pos rfl, if_neg Bool.false_ne_true,
      Nat.sub_eq_zero_of_le hlast, List.range'_zero, List.nil_append, Nat.zero_add, Nat.sub_zero]
  | case4 i overflowed hmet hlast f' hreserve =>
    rw [tryReserve_of_room now h] at hreserve
    split at hreserve
    · rename_i hfree
      cases hreserve
      rw [untried_cons maximumPacketID started hlast (succ_le_started hi hmet), List.find?_cons, hfree]
    · cases hreserve
  | case5 i overflowed hmet hlast f' hreserve =>
    rw [tryReserve_of_room now h] at hreserve
    split at hreserve <;> cases hreserve
  | case6 i overflowed hmet hlast f' hreserve ih =>
    have hnext := succ_le_started hi hmet
    rw [tryReserve_of_room now h] at hreserve
    split at hreserve
    · cases hreserve
    · rename_i htaken
      rw [ih hnext, untried_cons maximumPacketID started hlast hnext, List.find?_cons,
        Bool.eq_false_of_not_eq_true htaken]

end Loop

def cyclicIDs (cursor maximumPacketID : Nat) : List Nat :=
  List.range' (cursor + 1) (maximumPacketID - cursor) ++ List.range' 1 cursor

theorem mem_cyclicIDs {cursor maximumPacketID id : Nat} (h : cursor ≤ maximumPacketID) :
    id ∈ cyclicIDs cursor maximumPacketID ↔ 1 ≤ id ∧ id ≤ maximumPacketID := by
  rw [cyclicIDs, List.mem_append, List.mem_range'_1, List.mem_range'_1]
  omega

namespace Session

theorem nextPacketID_pos {env : Env} {s t : Session} {max : Int} {j : Nat}
    (hlast : s.server.caps.maximumPacketID ≤ 65535) (h : s.nextPacketID env max = (some j, t)) :
    0 < UInt16.ofNat j := by
  have hloop : (nextPacketIDLoop s.client.inflight env.now s.server.caps.maximumPacketID s.client.packetID max
      s.client.packetID false).1 = some j := by
    unfold nextPacketID at h
    split at h
    · rename_i heq
      cases h
      rw [heq]
    · cases h
  obtain ⟨hpos, hle⟩ := nextPacketIDLoop_bounds _ _ _ _ _ hloop
  rw [UInt16.lt_iff_toNat_lt, UInt16.toNat_ofNat_of_lt' (Nat.lt_succ_of_le (hle.trans hlast))]
  exact hpos

/-- `nextPacketID` with its loop run for so many turns: what it has returned, if it has. Both errors are
`ErrQuotaExceeded`. -/
def nextPacketIDTurns (env : Env) (s : Session) (max : Int) (turns : Nat) : Option (Option Nat × Session) :=
  (searchTurns s.client.inflight env.now s.server.caps.maximumPacketID s.client.packetID max turns
    ⟨s.client.packetID, false⟩).map fun
    | (some i, f) => (some i, { s with client := { s.client with packetID := i, inflight := f } })
    | (none, f) => (none, { s with client := { s.client with inflight := f } })

theorem nextPacketIDTurns_eq (env : Env) (s : Session) (max : Int)
    (hcursor : s.client.packetID ≤ s.server.caps.maximumPacketID) :
    ∃ turns, s.nextPacketIDTurns env max turns = some (s.nextPacketID env max) := by
  obtain ⟨turns, hturns⟩ := searchTurns_eq_loop s.client.inflight env.now s.server.caps.maximumPacketID
    s.client.packetID max hcursor s.client.packetID false fun h => absurd h Bool.false_ne_true
  refine ⟨turns, ?_⟩
  unfold nextPacketIDTurns nextPacketID
  refine (congrArg (Option.map _) hturns).trans ?_
  rfl

def reserveID (env : Env) (s : Session) (id : Nat) : Session :=
  { s with
    client := { s.client with
      packetID := id
      inflight := s.client.inflight.put (Inflight.reservation env.now (UInt16.ofNat id)) } }

/-- The call returns. Without room under the cap or without a free id it changes nothing; otherwise the first
free id after the cursor is reserved, and the cursor moves to it. -/
theorem nextPacketID_first_free {env : Env} {s : Session} {max : Int}
    (hcursor : s.client.packetID ≤ s.server.caps.maximumPacketID) (hlast : s.server.caps.maximumPacketID ≤ 65535) :
    ∃ turns r, s.nextPacketIDTurns env max turns = some r ∧
      (AtCap s.client.inflight max ∨
        (∀ id, 1 ≤ id → id ≤ s.server.caps.maximumPacketID → s.client.inflight.get (UInt16.ofNat id) ≠ none) →
        r = (none, s)) ∧
      (¬AtCap s.client.inflight max →
        (∃ id, 1 ≤ id ∧ id ≤ s.server.caps.maximumPacketID ∧ s.client.inflight.get (UInt16.ofNat id) = none) →
        ∃ id, (cyclicIDs s.client.packetID s.server.caps.maximumPacketID).find? (isFree s.client.inflight) = some id ∧
          id ≤ s.server.caps.maximumPacketID ∧ UInt16.ofNat id ≠ 0 ∧
          s.client.inflight.get (UInt16.ofNat id) = none ∧ r = (some id, s.reserveID env id)) := by
  obtain ⟨turns, hturns⟩ := nextPacketIDTurns_eq env s max hcursor
  refine ⟨turns, s.nextPacketID env max, hturns, ?_⟩
  have hfree : ∀ id, isFree s.client.inflight id = true ↔ s.client.inflight.get (UInt16.ofNat id) = none :=
    fun id => Option.isNone_iff_eq_none
  by_cases hcap : AtCap s.client.inflight max
  · have hnone : s.nextPacketID env max = (none, s) := by
      unfold nextPacketID
      rw [nextPacketIDLoop_of_atCap _ _ _ _ _ hcap]
    exact ⟨fun _ => hnone, fun h => absurd hcap h⟩
  · have hloop := nextPacketIDLoop_eq_find s.client.inflight env.now s.server.caps.maximumPacketID s.client.packetID
      max hcap hcursor s.client.packetID false fun h => absurd h Bool.false_ne_true
    change _ = match (cyclicIDs s.client.packetID s.server.caps.maximumPacketID).find? (isFree s.client.inflight) with
      | some id => _
      | none => _ at hloop
    cases hfind : (cyclicIDs s.client.packetID s.server.caps.maximumPacketID).find? (isFree s.client.inflight) with
    | none =>
      have htaken : ∀ id, 1 ≤ id → id ≤ s.server.caps.maximumPacketID →
          s.client.inflight.get (UInt16.ofNat id) ≠ none := by
        intro id hpos hle hget
        have hnot := List.find?_eq_none.mp hfind id ((mem_cyclicIDs hcursor).mpr ⟨hpos, hle⟩)
        exact hnot ((hfree id).mpr hget)
      have hnone : s.nextPacketID env max = (none, s) := by
        unfold nextPacketID
        rw [hloop, hfind]
      refine ⟨fun _ => hnone, ?_⟩
      rintro - ⟨id, hpos, hle, hget⟩
      exact absurd hget (htaken id hpos hle)
    | some id =>
      have hid := (hfree id).mp (List.find?_some hfind)
      obtain ⟨hpos, hle⟩ := (mem_cyclicIDs hcursor).mp (List.mem_of_find?_eq_some hfind)
      have hsome : s.nextPacketID env max = (some id, s.reserveID env id) := by
        unfold nextPacketID
        rw [hloop, hfind]
        rfl
      refine ⟨?_, fun _ _ => ⟨id, rfl, hle, ?_, hid, hsome⟩⟩
      · rintro (h | h)
        · exact absurd h hcap
        · exact absurd hid (h id hpos hle)
      · exact (UInt16.pos_iff_ne_zero.mp (nextPacketID_pos hlast hsome))

def atLastID : Session := { client := { packetID := 2 }, server := { caps := { maximumPacketID := 2 } } }

/-- The search starts again at 1. -/
theorem nextPacketID_wraps :
    ∃ turns, atLastID.nextPacketIDTurns (.accepting 0) 0 turns =
      some (some 1, atLastID.reserveID (.accepting 0) 1) := by
  obtain ⟨turns, r, hturns, -, hfree⟩ := @nextPacketID_first_free (.accepting 0) atLastID 0 (by decide)
    (by decide)
  obtain ⟨id, hfind, -, -, -, hr⟩ := hfree (fun h => absurd h.1 (by decide)) ⟨1, by decide, by decide, rfl⟩
  have hone : (cyclicIDs atLastID.client.packetID atLastID.server.caps.maximumPacketID).find?
      (isFree atLastID.client.inflight) = some 1 := rfl
  obtain rfl : 1 = id := Option.some.inj (hone.symm.trans hfind)
  exact ⟨turns, hr ▸ hturns⟩

end Session
end Mqtt
