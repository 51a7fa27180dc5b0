import MqttBroker.Session.Reservations
import MqttBroker.Session.Teardown

/-! Concurrent publishers to one client do not share a packet id, do not lose a
message that was accepted and do not exceed `MaximumInflight`, as long as the
client acknowledges what is sent to it and nothing else. -/

namespace Mqtt
open FiniteMap
namespace Traffic
open Session Inflight

variable {slot : UInt16 → Slot} {t : Traffic} {env : Env} {c : Nat} {pk out : Packet}

/-! ### Steps of a call -/

section Publishing
variable (h : Tracks slot t)
include h

variable {p' : Publishing} {s' : Session} {i : UInt16} {v : Slot}

theorem Tracks.advance_still (hs : t.Keeps s')
    (hp' : p'.Agrees (t.ledger slot) t.acked c) : Tracks slot { t.update s' with calls := t.calls.set c p' } := by
  refine h.still hs.get hs.len hs.caps hs.queue hs.out (fun d p hp => ?_) h.reader
  obtain ⟨rfl, rfl⟩ | ⟨-, hsame⟩ := Runs.getElem?_set_cases hp
  · exact hp'
  · exact h.calls d p hsame

theorem Tracks.advance_alter
    {ids : List UInt16} (hget : ∀ j, j ≠ i → s'.client.inflight.get j = t.inflight.get j)
    (hfits : v.Fits (s'.client.inflight.get i)) (hcap : Capped s') (hbinds : ∀ d, (slot i).Binds d → d = c)
    (hreader : ¬ (slot i).BindsReader) (hout : (t.update s').outstanding = ids ++ t.outstanding)
    (hids : ids = [] ∨ ids = [i] ∧ ∃ o, v = .sent o) (hnodup : (s'.client.queue.map fun q => q.packet.packetID).Nodup)
    (hqueued : ∀ q ∈ s'.client.queue,
      (q ∈ t.queue ∧ q.packet.packetID ≠ i) ∨ (q.packet.packetID = i ∧ ∃ c, v = .queued c))
    (hspares : ∀ d, (t.ledger slot).Spares ⟨Function.update slot i v, s'.client.inflight.get⟩ i t.acked d)
    (hp' : p'.Agrees ⟨Function.update slot i v, s'.client.inflight.get⟩ t.acked c) :
    Tracks (Function.update slot i v) { t.update s' with calls := t.calls.set c p' } := by
  have hi : i ∉ t.outstanding := by
    refine h.not_outstanding fun o ho => hreader ?_
    rw [ho]
    trivial
  refine h.alter hget hfits hcap hi hout hids hnodup hqueued (fun _ hd => hd) (fun d _ _ _ => hspares d)
    (fun d p hp => ?_) (.inr ⟨rfl, hreader⟩)
  obtain ⟨rfl, rfl⟩ | ⟨hne, hsame⟩ := Runs.getElem?_set_cases hp
  · exact .inl hp'
  · exact .inr ⟨hsame, fun hb => hne (hbinds d hb)⟩

theorem Tracks.advance_own
    (hown : slot i = .free ∨ slot i = .reserved (some c) ∨ slot i = .stored c)
    (hget : ∀ j, j ≠ i → s'.client.inflight.get j = t.inflight.get j)
    (hfits : v.Fits (s'.client.inflight.get i)) (hcap : Capped s') (hout : (t.update s').outstanding = t.outstanding)
    (hqueue : s'.client.queue = t.queue ∨
      ∃ q, s'.client.queue = t.queue ++ [q] ∧ q.packet.packetID = i ∧ v = .queued c)
    (hp' : p'.Agrees ⟨Function.update slot i v, s'.client.inflight.get⟩ t.acked c) :
    Tracks (Function.update slot i v) { t.update s' with calls := t.calls.set c p' } := by
  have hbinds : ∀ d, (slot i).Binds d → d = c := by
    intro d hd
    rcases hown with hs | hs | hs
    · rw [hs] at hd
      exact hd.elim
    · rw [hs] at hd
      exact (Option.some.inj hd).symm
    · rw [hs] at hd
      exact (show c = d from hd).symm
  have hreader : ¬ (slot i).BindsReader := by
    intro hd
    rcases hown with hs | hs | hs
    all_goals
      rw [hs] at hd
      exact hd
  have hkeeps : ∀ d, ¬ (slot i).Keeps d := by
    intro d hd
    rcases hown with hs | hs | hs
    all_goals
      rw [hs] at hd
      exact hd
  have hqueued : ∀ a, slot i ≠ .queued a := by
    intro a ha
    exact hkeeps a (ha ▸ rfl)
  refine h.advance_alter hget hfits hcap hbinds hreader (hout.trans (List.nil_append _).symm) (.inl rfl) ?_ ?_
    (fun d hd => absurd hd (hkeeps d)) hp'
  · obtain hq | ⟨q, hq, hqi, -⟩ := hqueue
    · rw [hq]
      exact h.nodup
    · rw [hq, List.map_append, List.nodup_append_comm]
      refine List.nodup_cons.mpr ⟨fun hmem => ?_, h.nodup⟩
      obtain ⟨q', hq', heq⟩ := List.mem_map.mp hmem
      obtain ⟨a, ha⟩ := h.queued q' hq'
      rw [show q'.packet.packetID = q.packet.packetID from heq, hqi] at ha
      exact hqueued a ha
  · intro q' hq'
    obtain hq | ⟨q, hq, hqi, hv⟩ := hqueue
    · rw [hq] at hq'
      exact h.queue_spared hqueued q' hq'
    · rw [hq] at hq'
      rcases List.mem_append.mp hq' with hold | hnew
      · exact h.queue_spared hqueued q' hold
      · rw [List.mem_singleton.mp hnew]
        exact .inr ⟨hqi, c, hv⟩

theorem Tracks.free_of_get (hi : t.inflight.get i = none) : slot i = .free := by
  have hfits := h.fits i
  rw [hi] at hfits
  cases hs : slot i with
  | free => rfl
  | _ =>
    rw [hs] at hfits
    obtain ⟨m, hm, -⟩ := hfits
    cases hm

theorem Tracks.advance_search {started i : Nat} {overflowed : Bool}
    (hp : (Publishing.search pk out started i overflowed).Agrees (t.ledger slot) t.acked c) :
    ∃ slot', Tracks slot'
      { t.update (Publishing.reserve env t.session pk out started i overflowed).2 with
        calls := t.calls.set c (Publishing.reserve env t.session pk out started i overflowed).1 } := by
  have hexhausted : t.Keeps (Publishing.exhausted t.session pk out).2 :=
    ⟨fun _ => rfl, rfl, rfl, rfl, outstanding_update [.packetIDExhausted pk] rfl⟩
  unfold Publishing.reserve
  split
  · exact ⟨slot, h.advance_still hexhausted trivial⟩
  · split
    · exact ⟨slot, h.advance_still t.keeps_self hp⟩
    · rcases hreserve : t.session.client.inflight.tryReserve env.now (UInt16.ofNat (i + 1))
          t.session.server.caps.maximumInflight.toNat with ⟨_ | _ | _, f⟩
      · obtain ⟨hfree, rfl⟩ := t.inflight.tryReserve_ok hreserve
        have hroom := t.inflight.tryReserve_room hreserve (Int.natCast_pos.mpr h.cap.1)
        have hget : ∀ j, (t.inflight.put (reservation env.now (UInt16.ofNat (i + 1)))).get j =
            if j = UInt16.ofNat (i + 1) then some (reservation env.now (UInt16.ofNat (i + 1))) else t.inflight.get j :=
          fun j => get_put _ _ j
        refine ⟨_, h.advance_own (v := .reserved (some c)) (.inl (h.free_of_get hfree))
          (fun j hj => (hget j).trans (if_neg hj)) ⟨_, (hget _).trans (if_pos rfl), rfl⟩ ⟨h.cap.1, ?_⟩
          (outstanding_update_same rfl) (.inl rfl) ?_⟩
        · show (t.inflight.put _).len ≤ _
          rw [len_put_new t.inflight (m := reservation env.now (UInt16.ofNat (i + 1))) hfree]
          exact Int.ofNat_lt.mp hroom
        · refine ⟨?_, Packet.fillFrom_payload _ pk hp.1, ?_⟩
          · rw [Packet.fillFrom_packetID]
            exact Function.update_self _ _ _
          · rw [Packet.fillFrom_expiry]
            exact hp.2
      · exact ⟨slot, h.advance_still t.keeps_self hp⟩
      · exact ⟨slot, h.advance_still hexhausted trivial⟩

theorem Tracks.advance_reserved (hp : (Publishing.reserved pk out).Agrees (t.ledger slot) t.acked c) :
    Tracks slot
      { t.update (Publishing.takeQuota t.session pk out).2 with
        calls := t.calls.set c (Publishing.takeQuota t.session pk out).1 } := by
  unfold Publishing.takeQuota
  split
  · split
    · unfold Inflight.decreaseSendQuota
      split
      · rename_i heq
        exact h.advance_still t.keeps_self ⟨hp.1, hp.2.1, rfl⟩
      · rename_i f heq
        have hsame : f.internal = t.inflight.internal := by
          have hf := congrArg (fun r : Bool × Inflight => r.2.internal) heq
          dsimp only at hf
          rw [← hf]
          split <;> rfl
        exact h.advance_still (t.keeps_onInflight (fun _ => f) hsame) hp
    · exact h.advance_still t.keeps_self hp
  · split
    · exact h.advance_still t.keeps_self hp
    · exact h.advance_still t.keeps_self hp

theorem Tracks.advance_replace {kept refused : Publishing}
    (hslot : slot out.packetID = .reserved (some c)) (hfits : v.Fits (some out))
    (hkept : kept.Agrees ⟨Function.update slot out.packetID v, (t.inflight.put out).get⟩ t.acked c) :
    ∃ slot', Tracks slot'
      { t.update (Publishing.replace t.session out kept refused).2 with
        calls := t.calls.set c (Publishing.replace t.session out kept refused).1 } := by
  have hfound := h.fits out.packetID
  rw [hslot] at hfound
  obtain ⟨m, hm, hres⟩ := hfound
  have hreplace : t.session.client.inflight.replaceCounted out = (true, t.inflight.put out) := by
    unfold Inflight.replaceCounted
    rw [show t.session.client.inflight.get out.packetID = some m from hm]
    exact if_neg (not_not.mpr hres)
  unfold Publishing.replace
  rw [hreplace]
  have hget : ∀ j, (t.inflight.put out).get j = if j = out.packetID then some out else t.inflight.get j :=
    fun j => get_put _ _ j
  refine ⟨_, h.advance_own (v := v) (.inr (.inl hslot)) (fun j hj => (hget j).trans (if_neg hj)) ?_
    (h.cap.of_le rfl (len_put_over t.inflight hm).le) (outstanding_update [.qosPublish out] rfl) (.inl rfl) hkept⟩
  show v.Fits ((t.inflight.put out).get out.packetID)
  rw [hget, if_pos rfl]
  exact hfits

theorem Tracks.advance_push (hp : (Publishing.push pk out).Agrees (t.ledger slot) t.acked c) :
    ∃ slot', Tracks slot'
      { t.update (Publishing.tryPush t.session pk out).2 with
        calls := t.calls.set c (Publishing.tryPush t.session pk out).1 } := by
  obtain ⟨hslot, hpayload, hentry⟩ := hp
  have hfits := h.fits out.packetID
  rw [show slot out.packetID = .stored c from hslot] at hfits
  unfold Publishing.tryPush
  split
  · refine ⟨_, h.advance_own (v := .queued c) (.inr (.inr hslot)) (fun _ _ => rfl) hfits h.cap
      (outstanding_update_same rfl) (.inr ⟨_, rfl, rfl, rfl⟩) ⟨hpayload, .inr ⟨?_, out.expiry, hentry⟩⟩⟩
    show (Function.update slot out.packetID (.queued c) out.packetID).Keeps c
    rw [Function.update_self]
    exact rfl
  · refine ⟨slot, h.advance_still ⟨fun _ => rfl, rfl, rfl, rfl, ?_⟩ ⟨hslot, hpayload, hentry⟩⟩
    exact outstanding_update [.publishDropped pk] rfl

theorem Tracks.advance_drop {code : Code} (hp : (Publishing.drop pk out code).Agrees (t.ledger slot) t.acked c) :
    ∃ slot', Tracks slot'
      { t.update ((Publishing.drop pk out code).step env t.session).2 with
        calls := t.calls.set c ((Publishing.drop pk out code).step env t.session).1 } := by
  obtain ⟨hslot, -, hentry⟩ := hp
  have hdelete : (t.session.client.inflight.delete out.packetID).1 = true := by
    show (t.inflight.get out.packetID).isSome = true
    rw [show t.inflight.get out.packetID = some out from hentry]
    rfl
  have hget : ∀ j, (t.inflight.remove out.packetID).get j = if j = out.packetID then none else t.inflight.get j :=
    fun j => get_remove _ _ j
  unfold Publishing.step
  dsimp only
  rw [if_pos hdelete]
  exact ⟨_, h.advance_own (v := .free) (.inr (.inr hslot)) (fun j hj => (hget j).trans (if_neg hj))
    ((hget _).trans (if_pos rfl)) (h.cap.of_le rfl (len_remove_le t.inflight _)) (outstanding_update_same rfl)
    (.inl rfl) trivial⟩

end Publishing

variable {i : UInt16} {p' : Resuming} {r : Option Nat} {s' : Session} {v : Slot}

theorem Resumes.spares {ids : List UInt16}
    (hr : Resumes slot t r s' p' i v ids) (d : Nat) (acked : List Nat) :
    (t.ledger slot).Spares ⟨Function.update slot i v, s'.client.inflight.get⟩ i acked d := by
  intro hd
  have hd : (slot i).Keeps d := hd
  refine .inr ⟨?_, hr.entry⟩
  show (Function.update slot i v i).Keeps d
  rw [Function.update_self]
  obtain ⟨o, ⟨hs, rfl, -⟩ | ⟨hs, ⟨rfl, -⟩ | ⟨rfl, -⟩⟩⟩ := hr.change
  all_goals
    rw [hs] at hd
    exact hd

theorem Resumes.ids {ids : List UInt16}
    (hr : Resumes slot t r s' p' i v ids) : ids = [] ∨ ids = [i] ∧ ∃ o, v = .sent o := by
  obtain ⟨o, ⟨-, -, hids⟩ | ⟨-, ⟨-, hids⟩ | ⟨hv, hids⟩⟩⟩ := hr.change
  · exact .inl hids
  · exact .inl hids
  · exact .inr ⟨hids, o, hv⟩

theorem Resumes.not_queued {ids : List UInt16}
    (hr : Resumes slot t r s' p' i v ids) (a : Nat) : slot i ≠ .queued a := by
  intro ha
  obtain ⟨o, ⟨hs, -⟩ | ⟨hs, -⟩⟩ := hr.change
  all_goals
    rw [hs] at ha
    cases ha

theorem Tracks.advance_resume (h : Tracks slot t) {r : Resuming}
    (hp : (Publishing.resume pk out r).Agrees (t.ledger slot) t.acked c) :
    ∃ slot', Tracks slot'
      { t.update (r.step env t.session).2 with calls := t.calls.set c (.resume pk out (r.step env t.session).1) } := by
  obtain ⟨hpayload, hkept, hagrees⟩ := hp
  obtain ⟨hs, hr⟩ | ⟨i, v, ids, hr⟩ := h.resume_cases env hagrees
  · exact ⟨slot, h.advance_still hs ⟨hpayload, hkept, hr⟩⟩
  · have hbinds : ∀ d, (slot i).Binds d → d = c := by
      intro d hd
      obtain ⟨o, ⟨hs, -⟩ | ⟨hs, -⟩⟩ := hr.change
      · rw [hs] at hd
        exact hd.elim
      · rw [hs] at hd
        exact (Option.some.inj hd).symm
    have hreader : ¬ (slot i).BindsReader := by
      intro hd
      obtain ⟨o, ⟨hs, -⟩ | ⟨hs, -⟩⟩ := hr.change
      · rw [hs] at hd
        exact hd
      · rw [hs] at hd
        cases hd
    refine ⟨_, h.advance_alter hr.get hr.fits (h.cap.of_le hr.caps hr.len.le) hbinds hreader hr.out hr.ids ?_ ?_
      (fun d => hr.spares d _) ⟨hpayload, ?_, hr.agrees⟩⟩
    · rw [hr.queue]
      exact h.nodup
    · rw [hr.queue]
      exact h.queue_spared hr.not_queued
    · refine Ledger.Kept.alter hkept ⟨fun j hj => ?_, hr.get⟩ (fun _ => hr.spares c _) fun _ hd => hd
      exact Function.update_of_ne hj _ _

theorem Tracks.step (h : Tracks slot t) (env : Env) {p : Publishing} (hp : p.Agrees (t.ledger slot) t.acked c) :
    ∃ slot', Tracks slot'
      { t.update (p.step env t.session).2 with calls := t.calls.set c (p.step env t.session).1 } := by
  have hincrease : t.Keeps (t.session.onInflight fun f => f.increaseSendQuota.2) := by
    refine t.keeps_onInflight _ ?_
    unfold increaseSendQuota
    split <;> rfl
  cases p with
  | waiting pk out => exact ⟨slot, h.advance_still t.keeps_self hp⟩
  | search pk out started i overflowed => exact h.advance_search hp
  | reserved pk out => exact ⟨slot, h.advance_reserved hp⟩
  | resetQuota pk out => exact ⟨slot, h.advance_still (t.keeps_onInflight (fun f => f.resetSendQuota _) rfl) hp⟩
  | park pk out =>
    have hput := get_put t.inflight out out.packetID
    refine h.advance_replace (v := .parked (some c)) hp.1 ⟨out, rfl, hp.2.2⟩
      ⟨hp.2.1, .inr ⟨?_, out.expiry, ?_⟩, trivial⟩
    · show (Function.update slot out.packetID (.parked (some c)) out.packetID).Keeps c
      rw [Function.update_self]
      exact rfl
    · exact hput.trans (if_pos rfl)
  | store pk out took =>
    have hput := get_put t.inflight out out.packetID
    refine h.advance_replace (v := .stored c) hp.1 ⟨out, rfl, hp.2.2.1⟩ ⟨?_, hp.2.1, hput.trans (if_pos rfl)⟩
    exact Function.update_self _ _ _
  | undo | discard => exact hp.elim
  | stored pk out =>
    unfold Publishing.step
    dsimp only
    split
    · refine ⟨slot, h.advance_still (t.keeps_onInflight (fun f => f.decreaseSendQuota.2) ?_) hp⟩
      unfold decreaseSendQuota
      split <;> rfl
    · exact ⟨slot, h.advance_still t.keeps_self hp⟩
  | check pk out =>
    unfold Publishing.step
    dsimp only
    split
    · refine ⟨slot, h.advance_still t.keeps_self ?_⟩
      split
      · exact hp
      · trivial
    · exact ⟨slot, h.advance_still t.keeps_self hp⟩
  | push pk out => exact h.advance_push hp
  | drop pk out code => exact h.advance_drop hp
  | uncount pk out code =>
    exact ⟨slot, h.advance_still ⟨fun _ => rfl, rfl, rfl, rfl, outstanding_update_same rfl⟩ trivial⟩
  | refund pk out code => exact ⟨slot, h.advance_still hincrease trivial⟩
  | resume pk out r =>
    cases r with
    | done err => exact ⟨slot, h.advance_still t.keeps_self ⟨hp.1, hp.2.1⟩⟩
    | _ => exact h.advance_resume hp
  | returned pk out err => exact ⟨slot, h.advance_still t.keeps_self hp⟩

theorem Tracks.advance (h : Tracks slot t) (env : Env) (c : Nat) : ∃ slot', Tracks slot' (t.advance env c) := by
  unfold Traffic.advance
  split
  · exact ⟨slot, h⟩
  · rename_i p hp
    split
    · exact ⟨slot, h⟩
    · exact h.step env (h.calls c p hp)

/-! ### Steps of the read loop -/

theorem Tracks.read_still (h : Tracks slot t) {a' : Acking} (hs : t.Keeps s')
    (ha' : a'.Agrees (t.ledger slot) t.outstanding) : Tracks slot { t.update s' with reader := a' } :=
  h.still hs.get hs.len hs.caps hs.queue hs.out h.calls ha'

theorem Tracks.read_delete (h : Tracks slot t) {entry : Packet}
    (ha : (Acking.delete pk entry).Agrees (t.ledger slot) t.outstanding) :
    ∃ slot', Tracks slot'
      { t.update ((Acking.delete pk entry).step env t.session).2 with
        reader := ((Acking.delete pk entry).step env t.session).1
        acked := t.delivering pk.packetID ++ t.acked } := by
  obtain ⟨⟨o, hslot⟩, hnot⟩ := ha
  have hslot : slot pk.packetID = .sent o := hslot
  have hfits := h.fits pk.packetID
  rw [hslot] at hfits
  obtain ⟨m, hm, -⟩ := hfits
  have hdelete : (t.session.client.inflight.delete pk.packetID).1 = true := by
    show (t.inflight.get pk.packetID).isSome = true
    rw [hm]
    rfl
  have hget : ∀ j, (t.inflight.remove pk.packetID).get j = if j = pk.packetID then none else t.inflight.get j :=
    fun j => get_remove _ _ j
  unfold Acking.step
  dsimp only
  rw [if_pos hdelete]
  have hout : (t.update (t.session.onInflight fun f => f.remove pk.packetID)).outstanding = [] ++ t.outstanding :=
    outstanding_update_same rfl
  refine ⟨_, h.alter (v := .free) (fun j hj => (hget j).trans (if_neg hj)) ((hget _).trans (if_pos rfl))
    (h.cap.of_le rfl (len_remove_le t.inflight _)) hnot hout (.inl rfl) h.nodup
    (h.queue_spared fun a ha => ?_) (List.subset_append_right _ _) (fun d p hp hd _ => .inl ?_)
    (fun d p hp => .inr ⟨hp, ?_⟩)
    (.inl ?_)⟩
  · rw [hslot] at ha
    cases ha
  · refine List.mem_append_left _ (List.mem_filter.mpr ⟨List.mem_range.mpr (List.getElem?_eq_some_iff.mp hp).1, ?_⟩)
    rw [hp]
    exact hd
  · rw [hslot]
    exact fun hb => hb
  · dsimp only
    split <;> trivial

theorem Tracks.read_resume (h : Tracks slot t) {r : Resuming}
    (ha : (Acking.resume r).Agrees (t.ledger slot) t.outstanding) :
    ∃ slot', Tracks slot'
      { t.update (r.step env t.session).2 with reader := .resume (r.step env t.session).1 } := by
  obtain ⟨hs, hr⟩ | ⟨i, v, ids, hr⟩ := h.resume_cases env (show r.Agrees (t.ledger slot) none from ha)
  · exact ⟨slot, h.read_still hs hr⟩
  · have hbinds : ∀ d, ¬ (slot i).Binds d := by
      intro d hd
      obtain ⟨o, ⟨hs, -⟩ | ⟨hs, -⟩⟩ := hr.change
      · rw [hs] at hd
        exact hd
      · rw [hs] at hd
        cases hd
    have hi : i ∉ t.outstanding := by
      refine h.not_outstanding fun o ho => ?_
      obtain ⟨o', ⟨hs, -⟩ | ⟨hs, -⟩⟩ := hr.change
      all_goals
        rw [hs] at ho
        cases ho
    refine ⟨_, h.alter hr.get hr.fits (h.cap.of_le hr.caps hr.len.le) hi hr.out hr.ids ?_ ?_ (fun _ hd => hd)
      (fun d _ _ _ => hr.spares d _) (fun d p hp => .inr ⟨hp, hbinds d⟩) (.inl hr.agrees)⟩
    · show (List.map _ (r.step env t.session).2.client.queue).Nodup
      rw [hr.queue]
      exact h.nodup
    · show ∀ q ∈ (r.step env t.session).2.client.queue, _
      rw [hr.queue]
      exact h.queue_spared hr.not_queued

theorem Tracks.read (h : Tracks slot t) (env : Env) : ∃ slot', Tracks slot' (t.read env) := by
  have ha := h.reader
  unfold Traffic.read
  generalize t.reader = a at ha ⊢
  cases a with
  | get pk =>
    unfold Acking.step
    dsimp only
    split
    · exact ⟨slot, h.read_still t.keeps_self trivial⟩
    · exact ⟨slot, h.read_still t.keeps_self ha⟩
  | delete pk entry => exact h.read_delete ha
  | refund pk entry =>
    refine ⟨slot, h.read_still (t.keeps_onInflight (fun f => f.increaseSendQuota.2) ?_) trivial⟩
    unfold increaseSendQuota
    split <;> rfl
  | uncount pk entry =>
    refine ⟨slot, h.read_still ⟨fun _ => rfl, rfl, rfl, rfl, ?_⟩ trivial⟩
    exact outstanding_update [.qosComplete (pk.fillFrom entry)] rfl
  | resume r =>
    cases r with
    | done err => exact ⟨slot, h.read_still t.keeps_self trivial⟩
    | _ => exact h.read_resume ha
  | done => exact ⟨slot, h.read_still t.keeps_self trivial⟩

/-! ### The other moves -/

theorem Tracks.publish (h : Tracks slot t) (env : Env) (sub : Subscription) (m : Message) :
    Tracks slot (t.publish env sub m) := by
  unfold Traffic.publish
  dsimp only
  split
  · exact h
  · split
    · exact h
    · obtain ⟨outbound, hprep⟩ := prepare_client t.session sub m.packet
      have hexp := prepare_expiry t.session sub m.packet
      have hpayload := prepare_payload t.session sub m.packet
      generalize t.session.prepare sub m.packet = prepared at hprep hexp hpayload
      obtain ⟨out, s'⟩ := prepared
      dsimp only at hprep hexp hpayload ⊢
      subst hprep
      split
      · refine h.still (fun _ => rfl) rfl rfl rfl rfl (fun c p hp => ?_) h.reader
        obtain hold | ⟨-, rfl⟩ := Runs.getElem?_concat_cases hp
        · exact h.calls c p hold
        · refine ⟨hpayload, ?_⟩
          rw [hexp]
          exact m.plain
      · exact h

theorem Tracks.writeNext (h : Tracks slot t) (env : Env) :
    ∃ slot', Tracks slot' (t.update (t.session.writeNext env)) := by
  unfold Session.writeNext
  split
  · exact ⟨slot, h.still (fun _ => rfl) rfl rfl rfl (outstanding_update_same rfl) h.calls h.reader⟩
  · rename_i q rest hqueue
    have hq : t.queue = q :: rest := hqueue
    obtain ⟨c, hslot⟩ := h.queued q (hq ▸ List.mem_cons_self)
    have hfits := h.fits q.packet.packetID
    rw [hslot] at hfits
    have hnodup := h.nodup
    rw [hq, List.map_cons, List.nodup_cons] at hnodup
    have hqueued : ∀ q' ∈ rest, (q' ∈ t.queue ∧ q'.packet.packetID ≠ q.packet.packetID) ∨
        (q'.packet.packetID = q.packet.packetID ∧ ∃ a, Slot.sent (some c) = .queued a) := by
      intro q' hq'
      refine .inl ⟨hq ▸ List.mem_cons_of_mem _ hq', fun heq => hnodup.1 ?_⟩
      rw [← heq]
      exact List.mem_map_of_mem hq'
    have hspares : ∀ d, (t.ledger slot).Spares
        ⟨Function.update slot q.packet.packetID (.sent (some c)), t.inflight.get⟩ q.packet.packetID t.acked d := by
      intro d hd
      refine .inr ⟨?_, fun m hm => ⟨m.expiry, hm⟩⟩
      have hd : (slot q.packet.packetID).Keeps d := hd
      rw [hslot] at hd
      show (Function.update slot q.packet.packetID (.sent (some c)) q.packet.packetID).Keeps d
      rw [Function.update_self]
      exact congrArg some hd
    have hmove : ∀ es : List Event, (writtenIDs es = [] ∨ writtenIDs es = [q.packet.packetID]) →
        Tracks (Function.update slot q.packet.packetID (.sent (some c)))
          (t.update
            { t.session with client := { t.session.client with queue := rest }, log := t.session.log ++ es }) := by
      intro es hes
      refine h.alter (fun _ _ => rfl) hfits h.cap (h.not_outstanding fun o ho => ?_) (outstanding_update es rfl)
        (hes.imp (fun hnil => hnil) fun hone => ⟨hone, _, rfl⟩) hnodup.2 hqueued (fun _ hd => hd)
        (fun d _ _ _ => hspares d) (fun d p hp => .inr ⟨hp, ?_⟩) (.inr ⟨rfl, ?_⟩)
      · rw [hslot] at ho
        cases ho
      · rw [hslot]
        exact fun hb => hb
      · rw [hslot]
        exact fun hb => hb
    obtain ⟨-, -, hw⟩ | ⟨-, -, hw⟩ | ⟨-, out, err, hw⟩ :=
      writePacketOn_cases env { t.session with client := { t.session.client with queue := rest } } q.topic q.packet
    · rw [hw]
      exact ⟨_, hmove [.wrote _ q.topic] (.inr rfl)⟩
    · rw [hw]
      have hnone := hmove [] (.inl rfl)
      rw [List.append_nil] at hnone
      exact ⟨_, hnone⟩
    · rw [hw]
      exact ⟨_, hmove [.writeFailed out err] (.inl rfl)⟩

theorem Tracks.puback (h : Tracks slot t) (hpk : pk.packetID ∈ t.outstanding) : Tracks slot (t.puback pk) := by
  unfold Traffic.puback
  split
  · refine ⟨h.fits, h.calls, ⟨h.sent _ hpk, h.distinct.not_mem_erase⟩, h.nodup, h.queued, h.distinct.erase _,
      fun i hi => h.sent i (List.mem_of_mem_erase hi), h.cap⟩
  · exact h

theorem Tracks.stop (h : Tracks slot t) (env : Env) (err : Option Error) :
    Tracks slot (t.update (t.session.stop env err)) := by
  unfold Session.stop
  split
  · exact h.still (fun _ => rfl) rfl rfl rfl (outstanding_update_same rfl) h.calls h.reader
  · exact h.still (fun _ => rfl) rfl rfl rfl (outstanding_update_same rfl) h.calls h.reader

/-! ### Runs -/

/-- The client answers what was sent to it and not answered yet. `ClearInflights` is not called. -/
def Answers (t : Traffic) : Env × Move → Prop
  | (_, .puback pk) => pk.packetID ∈ t.outstanding
  | (_, .clear) => False
  | (_, .clearNext _) => False
  | _ => True

theorem Tracks.move {t' : Traffic} {move : Env × Move} (h : Tracks slot t) (hok : t.Answers move)
    (hstep : Move.Step t move t') : ∃ slot', Tracks slot' t' := by
  obtain ⟨env, move⟩ := move
  unfold Move.Step at hstep
  subst hstep
  cases move with
  | publish sub m => exact ⟨slot, h.publish env sub m⟩
  | advance c => exact h.advance env c
  | writeNext => exact h.writeNext env
  | puback pk => exact ⟨slot, h.puback hok⟩
  | read => exact h.read env
  | clear | clearNext => exact hok.elim
  | stop err => exact ⟨slot, h.stop env err⟩

/-- No call is in progress and nothing is queued, and what the client has not answered is in the map. -/
structure Start (t : Traffic) : Prop where
  calls : t.calls = []
  reader : t.reader = .done
  queue : t.queue = []
  cap : Capped t.session
  distinct : t.outstanding.Nodup
  sent : ∀ i ∈ t.outstanding, ∃ m, t.inflight.get i = some m ∧ Plain m.expiry

def slotOf : Option Packet → Slot
  | none => .free
  | some m =>
    if m.expiry = inflightExpiryReserved then .reserved none
    else if m.expiry = inflightExpiryDeferred then .parked none
    else .sent none

theorem fits_slotOf (e : Option Packet) : (slotOf e).Fits e := by
  cases e with
  | none => exact rfl
  | some m =>
    unfold slotOf
    dsimp only
    split
    · rename_i hres
      exact ⟨m, rfl, hres⟩
    · split
      · rename_i hdef
        exact ⟨m, rfl, hdef⟩
      · rename_i hdef
        exact ⟨m, rfl, hdef⟩

theorem Start.tracks (h : t.Start) : Tracks (fun i => slotOf (t.inflight.get i)) t := by
  refine ⟨fun i => fits_slotOf _, fun c p hp => ?_, ?_, ?_, ?_, h.distinct, fun i hi => ?_, h.cap⟩
  · rw [h.calls] at hp
    cases hp
  · rw [h.reader]
    trivial
  · rw [h.queue]
    exact List.nodup_nil
  · rw [h.queue]
    exact fun _ hq => absurd hq List.not_mem_nil
  · obtain ⟨m, hm, hdef, hres⟩ := h.sent i hi
    refine ⟨none, ?_⟩
    rw [hm]
    exact (if_neg hres).trans (if_neg hdef)

end Traffic

/-- The packet id that a call has for its message, until the message is dropped or acknowledged. -/
def Session.Publishing.holds (acked : Bool) : Session.Publishing → Option UInt16
  | .reserved _ out => some out.packetID
  | .resetQuota _ out => some out.packetID
  | .park _ out => some out.packetID
  | .store _ out _ => some out.packetID
  | .undo _ out => some out.packetID
  | .discard _ out => some out.packetID
  | .stored _ out => some out.packetID
  | .check _ out => some out.packetID
  | .push _ out => some out.packetID
  | .drop _ out _ => some out.packetID
  | .resume _ out _ => if acked then none else some out.packetID
  | .returned _ out none => if acked then none else some out.packetID
  | _ => none

def Session.Slot.owner : Session.Slot → Option Nat
  | .free => none
  | .reserved o => o
  | .stored c => some c
  | .parked o => o
  | .taken o _ => o
  | .queued c => some c
  | .sent o => o

namespace Traffic
open Session Inflight
variable {slot : UInt16 → Slot} {t t' : Traffic} {c d : Nat}

def Holds (t : Traffic) (c : Nat) (i : UInt16) : Prop :=
  ∃ p, t.calls[c]? = some p ∧ p.holds (decide (c ∈ t.acked)) = some i

theorem owner_of_keeps {v : Slot} (h : v.Keeps c) : v.owner = some c := by
  cases v with
  | free | reserved | stored => exact h.elim
  | parked | taken => exact h
  | queued a => exact congrArg some h
  | sent o => exact h

theorem owner_of_holds {l : Ledger} {acked : List Nat} {p : Publishing} {i : UInt16} (h : p.Agrees l acked c)
    (hp : p.holds (decide (c ∈ acked)) = some i) : (l.slot i).owner = some c := by
  have hkept : ∀ {out : Packet}, (c ∈ acked ∨ l.Kept c out) →
      (if decide (c ∈ acked) then none else some out.packetID) = some i → (l.slot i).owner = some c := by
    intro out hout hid
    by_cases hc : c ∈ acked
    · rw [if_pos (decide_eq_true hc)] at hid
      cases hid
    · rw [if_neg (by rwa [decide_eq_true_eq])] at hid
      obtain rfl := Option.some.inj hid
      exact owner_of_keeps (hout.resolve_left hc).1
  have hreserved : ∀ {out : Packet}, l.slot out.packetID = .reserved (some c) → some out.packetID = some i →
      (l.slot i).owner = some c := by
    intro out hout hid
    obtain rfl := Option.some.inj hid
    rw [hout]
    rfl
  have hstored : ∀ {out : Packet}, l.slot out.packetID = .stored c → some out.packetID = some i →
      (l.slot i).owner = some c := by
    intro out hout hid
    obtain rfl := Option.some.inj hid
    rw [hout]
    rfl
  cases p with
  | waiting | search => cases hp
  | reserved | resetQuota | park | store => exact hreserved h.1 hp
  | undo | discard => exact h.elim
  | stored | check | push | drop => exact hstored h.1 hp
  | uncount | refund => cases hp
  | resume pk out r => exact hkept h.2.1 hp
  | returned pk out err =>
    cases err with
    | none => exact hkept h.2 hp
    | some err => cases hp

/-- In every run in which the client answers what was sent to it, once: no two calls have the same
packet id, the message of a call that returned without an error is in the map under its id and with its
payload until it is acknowledged, and the map never has more than `MaximumInflight` entries. -/
theorem exclusive_of_answers (hstart : t.Start) (hr : Runs.Reach Move.Step Answers t t') :
    (∀ c d i, t'.Holds c i → t'.Holds d i → c = d) ∧
      (∀ c pk out, t'.calls[c]? = some (.returned pk out none) → c ∉ t'.acked →
        ∃ e, t'.inflight.get out.packetID = some e ∧ e.packetID = out.packetID ∧ e.payload = pk.payload) ∧
      t'.inflight.len ≤ t'.session.server.caps.maximumInflight.toNat := by
  obtain ⟨slot, h⟩ : ∃ slot, Tracks slot t' := by
    refine @Runs.Reach.invariant _ _ _ _ _ _ (fun u => ∃ slot, Tracks slot u) hr ⟨_, hstart.tracks⟩ ?_
    rintro u move v ⟨slot, hu⟩ hok hstep
    exact hu.move hok hstep
  refine ⟨?_, ?_, h.cap.2⟩
  · rintro c d i ⟨p, hp, hc⟩ ⟨q, hq, hd⟩
    have hone := owner_of_holds (h.calls c p hp) hc
    have htwo := owner_of_holds (h.calls d q hq) hd
    exact Option.some.inj (hone.symm.trans htwo)
  · intro c pk out hcall hacked
    obtain ⟨hpayload, hkept⟩ := h.calls c _ hcall
    obtain ⟨-, e, he⟩ := hkept.resolve_left hacked
    exact ⟨_, he, rfl, hpayload⟩

def byTurns : List (Env × Move) :=
  [publishOne, publishOne, .advance 0, .advance 0, .advance 1, .advance 1, .advance 0, .advance 1,
    .advance 0, .advance 1, .advance 0, .advance 1, .advance 0, .advance 1, .advance 0, .advance 1, .writeNext,
    .puback { packetID := 1 }, .read, .read].map (Prod.mk (.accepting 100))

theorem start_calm : calm.Start :=
  ⟨rfl, rfl, rfl, ⟨by decide, by decide⟩, List.nodup_nil, fun _ h => absurd h List.not_mem_nil⟩

theorem exclusive_of_turns :
    ∃ e, (byTurns.foldl (fun t move => move.2.run move.1 t) calm).inflight.get 2 = some e ∧ e.packetID = 2 ∧
      e.payload = [1] := by
  have hreach : Runs.Reach Move.Step Answers calm (byTurns.foldl (fun t move => move.2.run move.1 t) calm) := by
    refine Runs.Reach.foldl Move.step_run byTurns .refl ?_
    refine ⟨trivial, trivial, trivial, trivial, trivial, trivial, trivial, trivial, trivial, trivial, trivial, trivial,
      trivial, trivial, trivial, trivial, trivial, ?_, trivial, trivial, trivial⟩
    exact List.mem_singleton.mpr rfl
  exact (exclusive_of_answers start_calm hreach).2.1 1 message _ rfl (by decide)

/-- The client answers ids that were sent to it at some time. `ClearInflights` is not called. -/
def Reports (t : Traffic) : Env × Move → Prop
  | (_, .puback pk) => pk.packetID ∈ t.written
  | (_, .clear) => False
  | (_, .clearNext _) => False
  | _ => True

/-- A client that may have one message at a time. All packet ids have been used once, and the messages
were acknowledged. -/
def wrapped : Traffic :=
  { session := { client := { packetID := 65535 }, server := { caps := { maximumInflight := 1 } } }, written := [1] }

/-- The id 1 is reserved again, the client repeats its PUBACK for it, and a second call takes the place of
the reservation before the first one stores its message. -/
def repeated : List (Env × Move) :=
  [publishOne, .advance 0, .advance 0, .advance 0, .puback { packetID := 1 }, .read, .read, publishOne, .advance 1,
    .advance 1, .advance 0, .advance 0].map (Prod.mk (.accepting 100))

theorem cap_exceeded_of_repeated :
    wrapped.Start ∧ ∃ t', Runs.Reach Move.Step Reports wrapped t' ∧
      t'.session.server.caps.maximumInflight.toNat < t'.inflight.len := by
  refine ⟨⟨rfl, rfl, rfl, ⟨by decide, by decide⟩, List.nodup_nil, fun _ h => absurd h List.not_mem_nil⟩,
    repeated.foldl (fun t move => move.2.run move.1 t) wrapped, ?_, by decide⟩
  refine Runs.Reach.foldl Move.step_run repeated .refl ?_
  refine ⟨trivial, trivial, trivial, trivial, ?_, trivial, trivial, trivial, trivial, trivial, trivial,
    trivial, trivial⟩
  exact List.mem_singleton.mpr rfl

end Traffic
end Mqtt
