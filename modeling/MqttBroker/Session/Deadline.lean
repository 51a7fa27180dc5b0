import MqttBroker.Session.Client

/-! The keep alive. The read loop of a client sets the deadline of the connection before it waits for the
next packet, to one and a half times the keep alive of the CONNECT from then on. The sum is formed in
sixteen bits. -/

namespace Mqtt

/-- `time.Second`; times are in nanoseconds. -/
def oneSecond : Int := 1000000000

/-- What the read loop of a client goes by: whether `Net.Conn` is there, whether the client is closed,
`State.Keepalive`, and the deadline of the connection, if it has one. -/
structure Link where
  conn : Bool := true
  closed : Bool := false
  keepalive : UInt16 := 10
  deadline : Option Int := none

namespace Link

def new : Link := {}

/-- `ParseConnect` as far as the link goes. -/
def parseConnect (l : Link) (pk : Packet) : Link := { l with keepalive := pk.connect.keepalive }

def refreshDeadline (l : Link) (now : Int) (keepalive : UInt16) : Link :=
  let expiry := if 0 < keepalive then some (now + (keepalive + keepalive / 2).toNat * oneSecond) else none
  if l.conn then { l with deadline := expiry } else l

def passed (l : Link) (t : Int) : Bool := l.deadline.any (· < t)

/-- A packet of the client: when it is there to be read, and how long the handler then takes, what error it
returns, and whether it stops the client. -/
structure Arrival where
  time : Int
  handling : Nat := 0
  err : Option Error := none
  stops : Bool := false

inductive ReadEnd where
  | waiting
  | closed
  | timedOut
  | failed (err : Error)

def read (l : Link) (now : Int) : List Arrival → Link × ReadEnd
  | [] => if l.closed then (l, .closed) else (l.refreshDeadline now l.keepalive, .waiting)
  | p :: ps =>
    if l.closed then (l, .closed)
    else
      let l := l.refreshDeadline now l.keepalive
      let t := max now p.time
      if l.passed t then (l, .timedOut)
      else
        let l := { l with closed := p.stops }
        match p.err with
        | some err => (l, .failed err)
        | none => l.read (t + p.handling) ps

def Punctual (k : UInt16) : Int → List Arrival → Prop
  | _, [] => True
  | since, p :: ps => since ≤ p.time ∧ p.time ≤ since + k.toNat * oneSecond ∧ Punctual k p.time ps

/-! ### One turn -/

theorem refreshDeadline_conn (l : Link) (now : Int) (k : UInt16) : (l.refreshDeadline now k).conn = l.conn := by
  unfold refreshDeadline
  dsimp only
  split <;> rfl

theorem refreshDeadline_keepalive (l : Link) (now : Int) (k : UInt16) :
    (l.refreshDeadline now k).keepalive = l.keepalive := by
  unfold refreshDeadline
  dsimp only
  split <;> rfl

variable {k : UInt16} {l : Link} {since : Int}

theorem refreshDeadline_deadline (hconn : l.conn = true) (hk : 0 < k) (now : Int) :
    (l.refreshDeadline now k).deadline = some (now + (k + k / 2).toNat * oneSecond) := by
  unfold refreshDeadline
  dsimp only
  rw [if_pos hconn, if_pos hk]

theorem oneAndAHalf_toNat (k : UInt16) : (k + k / 2).toNat = (k.toNat + k.toNat / 2) % 65536 := by
  rw [UInt16.toNat_add, UInt16.toNat_div]
  rfl

theorem le_max_iff (k : UInt16) : k ≤ 43690 ↔ k.toNat + k.toNat / 2 < 65536 := by
  rw [UInt16.le_iff_toNat_le]
  show k.toNat ≤ 43690 ↔ _
  omega

theorem oneAndAHalf_of_le (h : k ≤ 43690) : (k + k / 2).toNat = k.toNat + k.toNat / 2 := by
  rw [oneAndAHalf_toNat, Nat.mod_eq_of_lt ((le_max_iff k).mp h)]

theorem oneAndAHalf_lt (h : ¬ k ≤ 43690) : (k + k / 2).toNat < k.toNat := by
  rw [le_max_iff] at h
  have hk : k.toNat < 65536 := k.toNat_lt
  rw [oneAndAHalf_toNat]
  omega

/-! ### The loop -/

theorem not_passed {now t : Int} (hconn : l.conn = true) (hk : 0 < k) (hmax : k ≤ 43690)
    (hsince : since ≤ now) (ht : t ≤ since + k.toNat * oneSecond) :
    (l.refreshDeadline now k).passed (max now t) = false := by
  have hexpiry : (k + k / 2).toNat = k.toNat + k.toNat / 2 := oneAndAHalf_of_le hmax
  unfold passed
  rw [refreshDeadline_deadline hconn hk, hexpiry]
  refine decide_eq_false ?_
  unfold oneSecond at ht ⊢
  omega

theorem read_punctual (hk : 0 < k) (hmax : k ≤ 43690) {now : Int} (ps : List Arrival)
    (hconn : l.conn = true) (hkeep : l.keepalive = k) (hsince : since ≤ now) (hps : Punctual k since ps) :
    (l.read now ps).2 ≠ .timedOut := by
  -- the packet before a turn came no later than the turn
  induction ps generalizing l since now with
  | nil =>
    rw [read]
    split <;> nofun
  | cons p ps ih =>
    obtain ⟨-, hle, hrest⟩ := hps
    rw [read]
    split
    · nofun
    · dsimp only
      rw [hkeep, not_passed hconn hk hmax hsince hle, if_neg (by decide)]
      cases p.err with
      | some err => nofun
      | none =>
        refine ih ?_ ?_ ?_ hrest
        · exact (refreshDeadline_conn l now k).trans hconn
        · exact (refreshDeadline_keepalive l now k).trans hkeep
        · omega

theorem read_late (hk : 0 < k) (hmax : ¬ k ≤ 43690) (now : Int) (hconn : l.conn = true)
    (hopen : l.closed = false) (hkeep : l.keepalive = k) :
    (l.read now [{ time := now + k.toNat * oneSecond }]).2 = .timedOut := by
  -- the sum has wrapped to less than the keep alive
  have hlt := oneAndAHalf_lt hmax
  have hpassed : (l.refreshDeadline now k).passed (max now (now + k.toNat * oneSecond)) = true := by
    unfold passed
    rw [refreshDeadline_deadline hconn hk]
    refine decide_eq_true ?_
    unfold oneSecond
    omega
  rw [read, hopen, if_neg (by decide), hkeep]
  dsimp only
  rw [hpassed, if_pos rfl]

/-- The deadline is one and a half times the keep alive, and a client that sends a packet within every keep
alive is not disconnected by it, if and only if the keep alive is at most 43690 seconds. -/
theorem deadline_iff {pk : Packet} (hk : 0 < pk.connect.keepalive) (now : Int) :
    (((new.parseConnect pk).read now []).1.deadline =
        some (now + (pk.connect.keepalive.toNat + pk.connect.keepalive.toNat / 2 : Nat) * oneSecond) ↔
      pk.connect.keepalive ≤ 43690) ∧
    ((∀ connected ps, connected ≤ now → Punctual pk.connect.keepalive connected ps →
        ((new.parseConnect pk).read now ps).2 ≠ .timedOut) ↔
      pk.connect.keepalive ≤ 43690) := by
  generalize hkeep : pk.connect.keepalive = k at hk
  have hread : ((new.parseConnect pk).read now []).1.deadline = some (now + (k + k / 2).toNat * oneSecond) := by
    show ((new.parseConnect pk).refreshDeadline now pk.connect.keepalive).deadline = _
    rw [hkeep]
    exact refreshDeadline_deadline rfl hk now
  constructor
  · rw [hread, Option.some.injEq, le_max_iff, oneAndAHalf_toNat]
    unfold oneSecond
    omega
  · constructor
    · intro hnever
      by_contra hmax
      refine hnever now [{ time := now + k.toNat * oneSecond }] (Int.le_refl _) ?_ (read_late hk hmax now rfl rfl hkeep)
      refine ⟨?_, Int.le_refl _, trivial⟩
      show now ≤ now + k.toNat * oneSecond
      unfold oneSecond
      omega
    · intro hmax connected ps hconnected hps
      exact read_punctual hk hmax ps rfl hkeep hconnected hps

/-- A keep alive of ten seconds. -/
theorem deadline_of_ten :
    ((new.parseConnect { connect := { keepalive := 10 } }).read 0 []).1.deadline = some (15 * oneSecond) ∧
      ∀ connected ps, connected ≤ 0 → Punctual 10 connected ps →
        ((new.parseConnect { connect := { keepalive := 10 } }).read 0 ps).2 ≠ .timedOut := by
  obtain ⟨hdeadline, hpunctual⟩ := @deadline_iff { connect := { keepalive := 10 } } (by decide) 0
  exact ⟨hdeadline.mpr (by decide), hpunctual.mpr (by decide)⟩

/-- With a keep alive of 43691 seconds the deadline is the time at which it is set, and with one of 65535
seconds a client that sends a packet on time is disconnected. -/
theorem deadline_wraps :
    ((new.parseConnect { connect := { keepalive := 43691 } }).read 0 []).1.deadline = some 0 ∧
      Punctual 65535 0 [{ time := 65535 * oneSecond }] ∧
      ((new.parseConnect { connect := { keepalive := 65535 } }).read 0 [{ time := 65535 * oneSecond }]).2 =
        .timedOut := by
  refine ⟨by decide, ⟨by decide, by decide, trivial⟩, rfl⟩

end Link
end Mqtt
