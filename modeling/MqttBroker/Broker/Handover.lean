import MqttBroker.Broker.Authorised

/-! A connection with a delayed will ends while another connection of the same client
takes its session over and the event loop sends the wills that are due. The takeover
itself makes the old connection schedule its will, in its own goroutine: nothing
orders that before the new connection deletes the scheduled will. -/

namespace Mqtt
open FiniteMap

inductive Party where
  | old | new
  deriving DecidableEq

inductive Ending where
  | reading
  /-- the read loop has returned -/
  | ended (err : Option Error)
  /-- the will is dealt with -/
  | settled
  | returned

inductive Arrival where
  | arriving
  | inherited (present : Bool)
  | added (present : Bool)
  | acked (present : Bool)
  /-- a scheduled will is deleted -/
  | cleared (present : Bool)
  | established
  | failed

/-- A client id with its two connections, the server, the client that the clients map holds, and the round of
`sendDelayedLWT` that is under way: its time and what it found under the id. The rest is history: the will that the
old connection scheduled, when scheduled wills were deleted, when the new connection was established, and the wills
that were sent when they fell due. -/
structure Handover where
  id : Bytes
  now : Int
  server : Shared := {}
  log : List Event := []
  old : Client
  new : Client
  connect : Packet
  holder : Option Party := some .old
  ending : Ending := .reading
  arrival : Arrival := .arriving
  round : Option (Int × Option Packet) := none
  will : Option Packet := none
  clearedAt : Option Int := none
  establishedAt : Option Int := none
  published : List Packet := []

namespace Handover
open Session

def session (x : Handover) : Party → Session
  | .old => { client := x.old, server := x.server, log := x.log }
  | .new => { client := x.new, server := x.server, log := x.log }

def on (x : Handover) (p : Party) (f : Session → Session) : Handover :=
  match p, f (x.session p) with
  | .old, s => { x with old := s.client, server := s.server, log := s.log }
  | .new, s => { x with new := s.client, server := s.server, log := s.log }

def scheduled (x : Handover) (err : Option Error) (s : Session) : Option Packet :=
  if err.isSome && x.old.will.flag && decide (0 < x.old.will.willDelayInterval) then
    s.server.willDelayed.lookup x.old.id
  else x.will

def leave (env : Env) (x : Handover) : Handover :=
  match x.ending with
  | .ended err =>
    { x.on .old (·.endRead env err) with
      will := x.scheduled err ((x.session .old).endRead env err)
      ending := .settled }
  | .settled =>
    if x.old.expires && !x.old.isTakenOver then
      { x.on .old fun s => (Broker.endSession env s).stop env none with holder := none, ending := .returned }
    else { x.on .old (·.stop env none) with ending := .returned }
  | _ => x

def arrive (env : Env) (x : Handover) : Handover :=
  match x.arrival with
  | .arriving =>
    if x.holder = some .old then
      let (present, existing, s) := (x.session .old).inheritClientSession env x.connect x.new
      { x with old := existing, new := s.client, server := s.server, log := s.log, arrival := .inherited present }
    else { x with arrival := .inherited false }
  | .inherited present => { x with holder := some .new, arrival := .added present }
  | .added present =>
    match (x.session .new).sendConnack env .success present with
    | (some _, s) => { x.on .new fun _ => s.stop env none with arrival := .failed }
    | (none, s) => { x.on .new fun _ => s with arrival := .acked present }
  | .acked present =>
    { x with
      server := { x.server with willDelayed := x.server.willDelayed.erase x.id }
      clearedAt := some x.now
      arrival := .cleared present }
  | .cleared present =>
    match if present then (x.session .new).resendInflightMessages env else (none, x.session .new) with
    | (some _, s) => { x.on .new fun _ => s.stop env none with arrival := .failed }
    | (none, s) => { x.on .new fun _ => s with establishedAt := some x.now, arrival := .established }
  | _ => x

/-- The next step of the event loop: a round begins, and the will under the id is sent if it is due. -/
def sendDue (x : Handover) : Handover :=
  match x.round with
  | none => { x with round := some (x.now, x.server.willDelayed.lookup x.id) }
  | some (dt, some pk) =>
    if pk.expiry < dt then
      let y := { x with log := x.log ++ [Event.forward pk] }
      let y :=
        match y.holder with
        | none => y
        | some p => y.on p (Broker.finishWill pk)
      { y with
        server := { y.server with willDelayed := y.server.willDelayed.erase x.id }
        published := x.published ++ [pk]
        round := none }
    else { x with round := none }
  | some (_, none) => { x with round := none }

inductive Call where
  | tick (seconds : Nat)
  /-- the read loop of the old connection returns -/
  | endRead (err : Option Error)
  | leave
  | arrive
  | sendDue
  /-- what the handlers of other clients make of the server -/
  | others (server : Shared)

def run (env : Env) (x : Handover) : Call → Handover
  | .tick seconds => { x with now := x.now + seconds }
  | .endRead err =>
    match x.ending with
    | .reading => { x with ending := .ended err }
    | _ => x
  | .leave => x.leave { env with now := x.now }
  | .arrive => x.arrive { env with now := x.now }
  | .sendDue => x.sendDue
  | .others server => { x with server := server }

def Step (x : Handover) (call : Env × Call) (y : Handover) : Prop :=
  (match call.2 with
    | .others server => server.willDelayed.lookup x.id = x.server.willDelayed.lookup x.id
    | _ => True) ∧ y = x.run call.1 call.2

/-- The old connection has no delayed will left to schedule once the new one has deleted the scheduled will. -/
def SchedulesFirst (x : Handover) (call : Env × Call) : Prop :=
  match call.2, x.ending with
  | .leave, .ended (some _) => x.clearedAt.isSome = true → x.old.will.flag = true → x.old.will.willDelayInterval = 0
  | _, _ => True

variable {env : Env} {x y : Handover} {s t : Session} {pk : Packet}

/-! ### What is left of a will -/

/-- At time `t` the scheduled will was deleted: nothing is scheduled since, and what was sent or found by the event
loop was sent or found before. -/
structure Cleared (t : Int) (x : Handover) : Prop where
  le : t ≤ x.now
  absent : x.server.willDelayed.lookup x.id = none
  published : ∀ pk ∈ x.published, pk.expiry < t
  found : ∀ dt pk, x.round = some (dt, some pk) → dt ≤ t

def Timed (x : Handover) : Prop :=
  match x.arrival with
  | .cleared _ => (∃ t, x.clearedAt = some t) ∧ x.establishedAt = none
  | .established => ∃ t t', x.clearedAt = some t ∧ x.establishedAt = some t' ∧ t ≤ t'
  | .failed => x.establishedAt = none
  | _ => x.clearedAt = none ∧ x.establishedAt = none

structure Sound (x : Handover) : Prop where
  published : ∀ pk ∈ x.published, pk.expiry < x.now
  round : ∀ dt found, x.round = some (dt, found) → dt ≤ x.now
  cleared : ∀ t, x.clearedAt = some t → Cleared t x
  timed : Timed x

structure SameHistory (x y : Handover) : Prop where
  id : y.id = x.id
  now : y.now = x.now
  round : y.round = x.round
  published : y.published = x.published
  clearedAt : y.clearedAt = x.clearedAt

theorem sameHistory_on (p : Party) (f : Session → Session) : SameHistory x (x.on p f) := by
  cases p <;> exact ⟨rfl, rfl, rfl, rfl, rfl⟩

theorem Timed.on (h : Timed x) (p : Party) (f : Session → Session) : Timed (x.on p f) := by
  cases p <;> exact h

theorem server_on (p : Party) (f : Session → Session) : (x.on p f).server = (f (x.session p)).server := by
  cases p <;> rfl

theorem server_session (p : Party) : (x.session p).server = x.server := by
  cases p <;> rfl

theorem Sound.of_history (h : Sound x) (hxy : SameHistory x y)
    (hlookup : ∀ t, x.clearedAt = some t → y.server.willDelayed.lookup x.id = x.server.willDelayed.lookup x.id)
    (htimed : Timed y) : Sound y := by
  refine ⟨?_, ?_, ?_, htimed⟩
  · rw [hxy.published, hxy.now]
    exact h.published
  · rw [hxy.round, hxy.now]
    exact h.round
  · rw [hxy.clearedAt]
    intro t ht
    have hcleared := h.cleared t ht
    refine ⟨?_, ?_, ?_, ?_⟩
    · rw [hxy.now]
      exact hcleared.le
    · rw [hxy.id, hlookup t ht]
      exact hcleared.absent
    · rw [hxy.published]
      exact hcleared.published
    · rw [hxy.round]
      exact hcleared.found

theorem Sound.on (h : Sound x) (p : Party) (f : Session → Session) (hf : Silent (x.session p) (f (x.session p))) :
    Sound (x.on p f) := by
  refine h.of_history (sameHistory_on p f) (fun t _ => ?_) (h.timed.on p f)
  rw [server_on, hf.delayed, server_session]

theorem willDelayed_sendLWT (h : s.client.will.flag = true → s.client.will.willDelayInterval = 0) :
    (s.sendLWT env).server.willDelayed = s.server.willDelayed := by
  unfold sendLWT
  dsimp only
  split
  · rfl
  · rename_i hflag
    rw [h (by simpa using hflag), if_neg (by decide)]
    have hretained : (s.retained (s.willMessage env)).server.willDelayed = s.server.willDelayed := by
      unfold Session.retained retainMessage
      split
      · split <;> rfl
      · rfl
    have hpublished := (@delivers_publishToSubscribers env (s.retained (s.willMessage env)) (s.willMessage env)).silent
    exact hpublished.delayed.trans hretained

theorem silent_endSession (env : Env) (s : Session) : Silent s ((Broker.endSession env s).stop env none) :=
  ((silent_clearInflights env s).trans silent_unsubscribeClient).trans (silent_stop env _ none)

theorem Sound.leave (h : Sound x) (hok : SchedulesFirst x (env, .leave)) : Sound (x.leave env) := by
  unfold Handover.leave
  unfold SchedulesFirst at hok
  cases hending : x.ending with
  | reading | returned => exact h
  | ended err =>
    rw [hending] at hok
    refine h.of_history ⟨rfl, rfl, rfl, rfl, rfl⟩ (fun t ht => ?_) h.timed
    have hdelayed : ((x.session .old).endRead env err).server.willDelayed = x.server.willDelayed := by
      cases err with
      | none => rfl
      | some err =>
        have hstop := silent_stop env ((x.session .old).sendLWT env) (some err)
        refine hstop.delayed.trans (willDelayed_sendLWT (s := x.session .old) (hok ?_))
        rw [ht]
        rfl
    show ((x.session .old).endRead env err).server.willDelayed.lookup x.id = _
    rw [hdelayed]
  | settled =>
    dsimp only
    split
    · have hended := h.on .old (fun s => (Broker.endSession env s).stop env none) (silent_endSession env _)
      exact hended.of_history ⟨rfl, rfl, rfl, rfl, rfl⟩ (fun _ _ => rfl) h.timed
    · have hended := h.on .old (·.stop env none) (silent_stop env _ none)
      exact hended.of_history ⟨rfl, rfl, rfl, rfl, rfl⟩ (fun _ _ => rfl) h.timed

theorem Sound.arrive (h : Sound x) : Sound (x.arrive env) := by
  have htimed := h.timed
  unfold Timed at htimed
  unfold Handover.arrive
  cases harrival : x.arrival with
  | arriving =>
    rw [harrival] at htimed
    have hnone : ∀ t, x.clearedAt ≠ some t := by simp [htimed.1]
    dsimp only
    split
    · exact h.of_history ⟨rfl, rfl, rfl, rfl, rfl⟩ (fun t ht => absurd ht (hnone t)) htimed
    · exact h.of_history ⟨rfl, rfl, rfl, rfl, rfl⟩ (fun _ _ => rfl) htimed
  | inherited present =>
    rw [harrival] at htimed
    exact h.of_history ⟨rfl, rfl, rfl, rfl, rfl⟩ (fun _ _ => rfl) htimed
  | added present =>
    rw [harrival] at htimed
    have hnone : ∀ t, x.clearedAt ≠ some t := by simp [htimed.1]
    dsimp only
    split
    · exact h.of_history ⟨rfl, rfl, rfl, rfl, rfl⟩ (fun t ht => absurd ht (hnone t)) htimed.2
    · exact h.of_history ⟨rfl, rfl, rfl, rfl, rfl⟩ (fun t ht => absurd ht (hnone t)) htimed
  | acked present =>
    rw [harrival] at htimed
    refine ⟨h.published, h.round, ?_, ⟨_, rfl⟩, htimed.2⟩
    rintro t ⟨⟩
    refine ⟨le_rfl, AList.lookup_erase _ _, h.published, fun dt pk hround => h.round dt _ hround⟩
  | cleared present =>
    rw [harrival] at htimed
    obtain ⟨⟨t, ht⟩, hnone⟩ := htimed
    have hresent : Silent (x.session .new) (if present then (x.session .new).resendInflightMessages env
        else (none, x.session .new)).2 := by
      split
      · exact delivers_resendInflightMessages.silent
      · exact .refl _
    dsimp only
    split
    · rename_i err s heq
      rw [heq] at hresent
      have hstopped := h.on .new (fun _ => s.stop env none) (hresent.trans (silent_stop env s none))
      exact hstopped.of_history ⟨rfl, rfl, rfl, rfl, rfl⟩ (fun _ _ => rfl) hnone
    · rename_i s heq
      rw [heq] at hresent
      have hdone := h.on .new (fun _ => s) hresent
      exact hdone.of_history ⟨rfl, rfl, rfl, rfl, rfl⟩ (fun _ _ => rfl) ⟨t, x.now, ht, rfl, (h.cleared t ht).le⟩
  | established | failed => exact h

theorem Sound.begin (h : Sound x) : Sound { x with round := some (x.now, x.server.willDelayed.lookup x.id) } := by
  refine ⟨h.published, ?_, fun t ht => ?_, h.timed⟩
  · rintro dt found ⟨⟩
    exact le_rfl
  · have hcleared := h.cleared t ht
    refine ⟨hcleared.le, hcleared.absent, hcleared.published, ?_⟩
    intro dt pk heq
    have hfound : x.server.willDelayed.lookup x.id = some pk := congrArg Prod.snd (Option.some.inj heq)
    rw [hcleared.absent] at hfound
    cases hfound

theorem Sound.finish (h : Sound x) : Sound { x with round := none } := by
  have hnone : ∀ round, (none : Option (Int × Option Packet)) ≠ some round := fun _ => nofun
  refine ⟨h.published, fun dt found hround => absurd hround (hnone _), fun t ht => ?_, h.timed⟩
  have hcleared := h.cleared t ht
  exact ⟨hcleared.le, hcleared.absent, hcleared.published, fun dt pk hround => absurd hround (hnone _)⟩

theorem Sound.send (h : Sound x) {dt : Int} (hround : x.round = some (dt, some pk)) (hdue : pk.expiry < dt) :
    Sound { x with published := x.published ++ [pk] } := by
  have hmem : ∀ {q}, q ∈ x.published ++ [pk] → q ∈ x.published ∨ q = pk := by simp
  refine ⟨?_, h.round, fun t ht => ?_, h.timed⟩
  · intro q hq
    rcases hmem hq with hq | rfl
    · exact h.published q hq
    · exact hdue.trans_le (h.round dt _ hround)
  · have hcleared := h.cleared t ht
    refine ⟨hcleared.le, hcleared.absent, ?_, hcleared.found⟩
    intro q hq
    rcases hmem hq with hq | rfl
    · exact hcleared.published q hq
    · exact hdue.trans_le (hcleared.found dt _ hround)

theorem Sound.sendDue (h : Sound x) : Sound x.sendDue := by
  unfold Handover.sendDue
  split
  · exact h.begin
  · rename_i dt pk hround
    dsimp only
    split
    · rename_i hdue
      have hsent := (h.send hround hdue).finish
      -- the client under the id only has its will cleared and the message retained
      refine hsent.of_history ?_ (fun t ht => ?_) ?_
      · split
        · exact ⟨rfl, rfl, rfl, rfl, rfl⟩
        · rename_i p _
          cases p <;> exact ⟨rfl, rfl, rfl, rfl, rfl⟩
      · rw [(hsent.cleared t ht).absent]
        exact AList.lookup_erase _ _
      · split
        · exact hsent.timed
        · rename_i p _
          cases p <;> exact hsent.timed
    · exact h.finish
  · exact h.finish

theorem Sound.tick (h : Sound x) (seconds : Nat) : Sound { x with now := x.now + seconds } := by
  have hle : x.now ≤ x.now + seconds := by omega
  refine ⟨fun pk hpk => (h.published pk hpk).trans_le hle, fun dt found hround => (h.round dt found hround).trans hle,
    fun t ht => ?_, h.timed⟩
  have hcleared := h.cleared t ht
  exact ⟨hcleared.le.trans hle, hcleared.absent, hcleared.published, hcleared.found⟩

theorem Sound.step {call : Env × Call} (h : Sound x) (hok : SchedulesFirst x call) (hstep : Step x call y) :
    Sound y := by
  obtain ⟨env, call⟩ := call
  obtain ⟨hothers, rfl⟩ := hstep
  unfold run
  cases call with
  | tick seconds => exact h.tick seconds
  | endRead err =>
    dsimp only
    split
    · exact h.of_history ⟨rfl, rfl, rfl, rfl, rfl⟩ (fun _ _ => rfl) h.timed
    · exact h
  | leave => exact h.leave hok
  | arrive => exact h.arrive
  | sendDue => exact h.sendDue
  | others server => exact h.of_history ⟨rfl, rfl, rfl, rfl, rfl⟩ (fun _ _ => hothers) h.timed

/-- The old connection is being read while the new one arrives. A round of the event loop may be under way. -/
structure Connected (x : Handover) : Prop where
  old : x.old.id = x.id
  new : x.new.id = x.id
  arrival : x.arrival = .arriving
  round : ∀ dt found, x.round = some (dt, found) → dt ≤ x.now
  published : x.published = []
  clearedAt : x.clearedAt = none
  establishedAt : x.establishedAt = none

theorem sound_of_connected (h : Connected x) : Sound x := by
  refine ⟨?_, h.round, ?_, ?_⟩
  · rw [h.published]
    exact fun pk hpk => absurd hpk List.not_mem_nil
  · rw [h.clearedAt]
    exact fun t => nofun
  · unfold Timed
    rw [h.arrival]
    exact ⟨h.clearedAt, h.establishedAt⟩

/-- If the old connection schedules its will before the new one deletes it, and the new connection is established
before the delay has passed, the will is not sent. -/
theorem will_cancelled (hx : Connected x) (hr : Runs.Reach Step SchedulesFirst x y) {t : Int}
    (hestablished : y.establishedAt = some t) : ∀ w, y.will = some w → t ≤ w.expiry → w ∉ y.published := by
  have hsound : Sound y := by
    apply hr.invariant (sound_of_connected hx)
    exact fun hx hok hstep => hx.step hok hstep
  intro w _ hdelay hmem
  have htimed := hsound.timed
  unfold Timed at htimed
  split at htimed
  · rw [htimed.2] at hestablished
    cases hestablished
  · obtain ⟨t', t'', hcleared, heq, hle⟩ := htimed
    cases heq.symm.trans hestablished
    have hsent := (hsound.cleared t' hcleared).published w hmem
    omega
  · rw [htimed] at hestablished
    cases hestablished
  · rw [htimed.2] at hestablished
    cases hestablished

def reconnecting : Handover where
  id := [99]
  now := 100
  old := { id := [99], protocolVersion := 5,
           will := { flag := true, topicName := [97], payload := [98, 121, 101], willDelayInterval := 10 } }
  new := { id := [99], protocolVersion := 5 }
  connect := { fixedHeader := { type := .connect } }

def after (x : Handover) (calls : List Call) : Handover := calls.foldl (run (.accepting 100)) x

def endsFirst : List Call :=
  [.endRead (some .eof), .leave, .arrive, .arrive, .arrive, .arrive, .arrive, .tick 11, .sendDue, .sendDue]

def endsLate : List Call :=
  [.arrive, .arrive, .arrive, .arrive, .arrive, .endRead (some .eof), .leave, .tick 11, .sendDue, .sendDue]

theorem connected_reconnecting : Connected reconnecting := by
  have hround : ∀ dt found, reconnecting.round = some (dt, found) → dt ≤ reconnecting.now := by
    intro dt found h
    cases h
  exact ⟨rfl, rfl, rfl, hround, rfl, rfl, rfl⟩

theorem reach_endsFirst : Runs.Reach Step SchedulesFirst reconnecting (reconnecting.after endsFirst) :=
  Runs.Reach.replay run (.accepting 100) _ ⟨⟨trivial, trivial, rfl⟩, ⟨nofun, trivial, rfl⟩,
    ⟨trivial, trivial, rfl⟩, ⟨trivial, trivial, rfl⟩, ⟨trivial, trivial, rfl⟩, ⟨trivial, trivial, rfl⟩,
    ⟨trivial, trivial, rfl⟩, ⟨trivial, trivial, rfl⟩, ⟨trivial, trivial, rfl⟩, ⟨trivial, trivial, rfl⟩, trivial⟩

theorem will_cancelled_of_endsFirst :
    ∃ w, (reconnecting.after endsFirst).will = some w ∧ w ∉ (reconnecting.after endsFirst).published := by
  have hestablished : (reconnecting.after endsFirst).establishedAt = some 100 := by decide +kernel
  have hexpiry : (reconnecting.after endsFirst).will.map Packet.expiry = some 110 := by decide +kernel
  obtain ⟨w, hwill, hw⟩ := Option.map_eq_some_iff.mp hexpiry
  exact ⟨w, hwill, will_cancelled connected_reconnecting reach_endsFirst hestablished w hwill (by omega)⟩

/-- The old connection schedules its will for time 110, after the new one was established at time 100, and at time
111 it is sent while the new connection is open. -/
theorem cancelled_will_sent :
    Connected reconnecting ∧ (reconnecting.after endsLate).establishedAt = some 100 ∧
      (reconnecting.after endsLate).new.closed = false ∧
      ∃ w, (reconnecting.after endsLate).will = some w ∧ w.expiry = 110 ∧
        w ∈ (reconnecting.after endsLate).published := by
  have hexpiry : (reconnecting.after endsLate).will.map Packet.expiry = some 110 := by decide +kernel
  have hpublished : (reconnecting.after endsLate).published = (reconnecting.after endsLate).will.toList := rfl
  obtain ⟨w, hwill, hw⟩ := Option.map_eq_some_iff.mp hexpiry
  refine ⟨connected_reconnecting, by decide +kernel, by decide +kernel, w, hwill, hw, ?_⟩
  rw [hpublished, hwill]
  exact List.mem_singleton.mpr rfl

end Handover
end Mqtt
