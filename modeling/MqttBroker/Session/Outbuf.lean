import MqttBroker.Library.Runs
import MqttBroker.Session.Deliver

/-! The output buffer of a connection. While packets wait in the outbound queue,
`WritePacket` collects what it writes in a buffer, and whoever finds the queue empty
flushes it. The bytes keep their order, but a packet that cannot be encoded returns
before it would flush: if it was the last of the queue the buffer is left behind. -/

namespace Mqtt

/-- The output of a connection: the bytes written to it, the buffer, and the packet that the write loop has taken
from the queue and is about to write. The encodings of the packets whose write returned without an error are a
history. -/
structure Outlet where
  session : Session
  conn : Bytes := []
  outbuf : Option Bytes := none
  hand : Option Queued := none
  written : List Bytes := []

namespace Outlet
open Session

/-- `buf.WriteTo(cl.Net.Conn)` -/
def send (x : Outlet) (buf : Bytes) : Outlet := { x with conn := x.conn ++ buf }

def flushOutbuf (x : Outlet) : Outlet :=
  match x.outbuf with
  | none => x
  | some b => { x.send b with outbuf := none }

section
variable (size : Int)

def fill (x : Outlet) (b buf : Bytes) : Outlet :=
  let x := { x with outbuf := some (b ++ buf) }
  if (b ++ buf).length < size then x else x.flushOutbuf

/-- What `WritePacket` does with an encoded packet, under the lock of the client. -/
def writeOut (x : Outlet) (buf : Bytes) : Outlet :=
  match x.session.client.queue, x.outbuf with
  | [], none => x.send buf
  | [], some b => { x with outbuf := some (b ++ buf) }.flushOutbuf
  | _ :: _, none => if size ≤ buf.length then x.send buf else x.fill size [] buf
  | _ :: _, some b => x.fill size b buf

variable (encode : Packet → Except Error Bytes)

def encoded (out : Packet) : Except Error Bytes :=
  match encode out with
  | .error err => .error err
  | .ok buf => if 0 < out.mods.maxSize && out.mods.maxSize < UInt32.ofNat buf.length then .error (.code .packetTooLarge)
    else .ok buf

/-- `WritePacket` of a message published on a topic, on an open connection whose own writes succeed. -/
def writePacketOn (env : Env) (x : Outlet) (topic : Bytes) (pk : Packet) : Option Error × Outlet :=
  let y := { x with session := (x.session.writePacketOn env topic pk).2 }
  match encoded encode (x.session.outgoing env pk) with
  | .error err => (some err, y)
  | .ok buf => (none, { y.writeOut size buf with written := x.written ++ [buf] })

end

/-- What happens to the output: a message is queued, the write loop takes the next one from the queue, the write loop
writes what it has taken, and a handler writes a packet itself. -/
inductive Call where
  | enqueue (q : Queued)
  | take
  | write
  | direct (pk : Packet)

section
variable (size : Int) (encode : Packet → Except Error Bytes)

def run (env : Env) (x : Outlet) : Call → Outlet
  | .enqueue q =>
    { x with session := { x.session with client := { x.session.client with queue := x.session.client.queue ++ [q] } } }
  | .take =>
    match x.hand, x.session.client.queue with
    | none, q :: rest =>
      { x with session := { x.session with client := { x.session.client with queue := rest } }, hand := some q }
    | _, _ => x
  | .write =>
    match x.hand with
    | none => x
    | some q => { (x.writePacketOn size encode env q.topic q.packet).2 with hand := none }
  | .direct pk => (x.writePacketOn size encode env pk.topicName pk).2

def Step (x : Outlet) (call : Env × Call) (y : Outlet) : Prop := y = x.run size encode call.1 call.2

end

variable {size : Int} {encode : Packet → Except Error Bytes} {env : Env} {x y : Outlet} {pk : Packet}
  {buf b topic : Bytes}

/-! ### The bytes -/

def bytes (x : Outlet) : Bytes := x.conn ++ x.outbuf.getD []

theorem bytes_flushOutbuf : x.flushOutbuf.bytes = x.bytes := by
  unfold flushOutbuf
  split
  · rfl
  · rename_i b h
    unfold bytes
    rw [h]
    exact List.append_nil _

theorem outbuf_flushOutbuf : x.flushOutbuf.outbuf = none := by
  unfold flushOutbuf
  split
  · assumption
  · rfl

theorem bytes_send (h : x.outbuf = none) : (x.send buf).bytes = x.bytes ++ buf := by
  unfold bytes
  show (x.conn ++ buf) ++ x.outbuf.getD [] = _
  rw [h]
  simp

theorem bytes_buffered (h : x.outbuf.getD [] = b) : { x with outbuf := some (b ++ buf) }.bytes = x.bytes ++ buf := by
  unfold bytes
  rw [h]
  exact (List.append_assoc _ _ _).symm

theorem bytes_fill (h : x.outbuf.getD [] = b) : (x.fill size b buf).bytes = x.bytes ++ buf := by
  unfold fill
  dsimp only
  split
  · exact bytes_buffered h
  · rw [bytes_flushOutbuf]
    exact bytes_buffered h

theorem bytes_writeOut : (x.writeOut size buf).bytes = x.bytes ++ buf := by
  unfold writeOut
  split
  · rename_i h
    exact bytes_send h
  · rename_i b _ h
    rw [bytes_flushOutbuf]
    exact bytes_buffered (by rw [h]; rfl)
  · rename_i h
    split
    · exact bytes_send h
    · exact bytes_fill (by rw [h]; rfl)
  · rename_i b _ h
    exact bytes_fill (by rw [h]; rfl)

def Pours (x y : Outlet) : Prop := ∃ conn outbuf, y = { x with conn := conn, outbuf := outbuf }

theorem pours_flushOutbuf (conn : Bytes) (outbuf : Option Bytes) :
    Pours x { x with conn := conn, outbuf := outbuf }.flushOutbuf := by
  unfold flushOutbuf
  split
  · exact ⟨_, _, rfl⟩
  · exact ⟨_, _, rfl⟩

theorem pours_fill (b : Bytes) : Pours x (x.fill size b buf) := by
  unfold fill
  dsimp only
  split
  · exact ⟨_, _, rfl⟩
  · exact pours_flushOutbuf x.conn _

theorem pours_writeOut : Pours x (x.writeOut size buf) := by
  unfold writeOut
  split
  · exact ⟨_, _, rfl⟩
  · exact pours_flushOutbuf x.conn _
  · split
    · exact ⟨_, _, rfl⟩
    · exact pours_fill []
  · exact pours_fill _

theorem outbuf_writeOut (h : x.session.client.queue = []) : (x.writeOut size buf).outbuf = none := by
  unfold writeOut
  rw [h]
  split
  · assumption
  · exact outbuf_flushOutbuf
  · rename_i heq _
    cases heq
  · rename_i heq _
    cases heq

/-- The bytes are those of the packets that were written, and what the buffer holds will be flushed: packets wait in
the queue, or the write loop is about to write one. -/
structure Flows (x : Outlet) : Prop where
  inOrder : x.bytes = x.written.flatten
  drains : x.session.client.queue = [] → x.hand = none → x.outbuf.getD [] = []

theorem writePacketOn_cases (size : Int) (encode : Packet → Except Error Bytes) (env : Env) (x : Outlet) (topic : Bytes)
    (pk : Packet) :
    (∃ err, encoded encode (x.session.outgoing env pk) = .error err ∧ x.writePacketOn size encode env topic pk =
        (some err, { x with session := (x.session.writePacketOn env topic pk).2 })) ∨
      ∃ buf, encoded encode (x.session.outgoing env pk) = .ok buf ∧ x.writePacketOn size encode env topic pk =
        (none, { { x with session := (x.session.writePacketOn env topic pk).2 }.writeOut size buf with
          written := x.written ++ [buf] }) := by
  unfold writePacketOn
  cases hencoded : encoded encode (x.session.outgoing env pk) with
  | error err => exact .inl ⟨err, rfl, rfl⟩
  | ok buf => exact .inr ⟨buf, rfl, rfl⟩

theorem inOrder_writePacketOn (h : x.bytes = x.written.flatten) :
    (x.writePacketOn size encode env topic pk).2.bytes =
      (x.writePacketOn size encode env topic pk).2.written.flatten := by
  obtain ⟨err, -, heq⟩ | ⟨buf, -, heq⟩ := writePacketOn_cases size encode env x topic pk
  · rw [heq]
    exact h
  · rw [heq]
    show ({ x with session := (x.session.writePacketOn env topic pk).2 }.writeOut size buf).bytes =
      (x.written ++ [buf]).flatten
    rw [bytes_writeOut, List.flatten_append]
    simp only [List.flatten_cons, List.flatten_nil, List.append_nil, ← h]
    rfl

theorem queue_writePacketOn :
    (x.writePacketOn size encode env topic pk).2.session.client.queue = x.session.client.queue ∧
      (x.writePacketOn size encode env topic pk).2.hand = x.hand := by
  have hqueue : (x.session.writePacketOn env topic pk).2.client.queue = x.session.client.queue := by
    rw [Session.writePacketOn_client]
  obtain ⟨err, -, heq⟩ | ⟨buf, -, heq⟩ := writePacketOn_cases size encode env x topic pk
  · rw [heq]
    exact ⟨hqueue, rfl⟩
  · obtain ⟨conn, outbuf, hpours⟩ := @pours_writeOut size
      { x with session := (x.session.writePacketOn env topic pk).2 } buf
    rw [heq, hpours]
    exact ⟨hqueue, rfl⟩

theorem outbuf_writePacketOn (h : x.session.client.queue = []) :
    (x.writePacketOn size encode env topic pk).2.outbuf =
      if (encoded encode (x.session.outgoing env pk)).isOk then none else x.outbuf := by
  have hqueue : (x.session.writePacketOn env topic pk).2.client.queue = [] := by
    rw [Session.writePacketOn_client]
    exact h
  obtain ⟨err, herr, heq⟩ | ⟨buf, hok, heq⟩ := writePacketOn_cases size encode env x topic pk
  · rw [heq, herr]
    rfl
  · rw [heq, hok]
    exact outbuf_writeOut hqueue

/-- A packet that the write loop has taken as the last of the queue can be encoded, unless the buffer is empty. -/
def LastEncodes (encode : Packet → Except Error Bytes) (x : Outlet) (call : Env × Call) : Prop :=
  match call.2, x.hand with
  | .write, some q => x.session.client.queue = [] → x.outbuf.getD [] ≠ [] →
      (encoded encode (x.session.outgoing call.1 q.packet)).isOk = true
  | _, _ => True

theorem Flows.direct (h : Flows x) : Flows (x.writePacketOn size encode env topic pk).2 := by
  refine ⟨inOrder_writePacketOn h.inOrder, ?_⟩
  rw [queue_writePacketOn.1, queue_writePacketOn.2]
  intro hqueue hhand
  rw [outbuf_writePacketOn hqueue]
  split
  · rfl
  · exact h.drains hqueue hhand

theorem Flows.write (h : Flows x) {q : Queued} (hok : x.session.client.queue = [] → x.outbuf.getD [] ≠ [] →
    (encoded encode (x.session.outgoing env q.packet)).isOk = true) :
    Flows { (x.writePacketOn size encode env q.topic q.packet).2 with hand := none } := by
  refine ⟨inOrder_writePacketOn h.inOrder, ?_⟩
  intro hqueue _
  change (x.writePacketOn size encode env q.topic q.packet).2.session.client.queue = [] at hqueue
  rw [queue_writePacketOn.1] at hqueue
  show (x.writePacketOn size encode env q.topic q.packet).2.outbuf.getD [] = []
  rw [outbuf_writePacketOn hqueue]
  split
  · rfl
  · rename_i hfails
    by_contra hbytes
    exact hfails (hok hqueue hbytes)

theorem Flows.run (h : Flows x) {call : Call} (hok : LastEncodes encode x (env, call)) :
    Flows (x.run size encode env call) := by
  unfold Outlet.run
  unfold LastEncodes at hok
  cases call with
  | enqueue q =>
    refine ⟨h.inOrder, fun hqueue => ?_⟩
    exact absurd hqueue (List.append_ne_nil_of_right_ne_nil _ (List.cons_ne_nil q []))
  | take =>
    dsimp only
    split
    · refine ⟨h.inOrder, fun _ hhand => ?_⟩
      cases hhand
    · exact h
  | write =>
    cases hhand : x.hand with
    | none => exact h
    | some q =>
      rw [hhand] at hok
      exact h.write hok
  | direct pk => exact h.direct

structure Fresh (x : Outlet) : Prop where
  conn : x.conn = []
  outbuf : x.outbuf = none
  written : x.written = []

theorem flows_of_fresh (h : Fresh x) : Flows x := by
  refine ⟨?_, fun _ _ => ?_⟩
  · unfold bytes
    rw [h.conn, h.outbuf, h.written]
    rfl
  · rw [h.outbuf]
    rfl

theorem inOrder_run (h : x.bytes = x.written.flatten) (call : Call) :
    (x.run size encode env call).bytes = (x.run size encode env call).written.flatten := by
  unfold Outlet.run
  cases call with
  | enqueue q => exact h
  | take =>
    dsimp only
    split <;> exact h
  | write =>
    dsimp only
    split
    · exact h
    · exact inOrder_writePacketOn h
  | direct pk => exact inOrder_writePacketOn h

/-- The bytes on the connection and in the buffer are at any time the encodings of the packets that were written, in
their order; and if the last packet of the queue can always be encoded, the buffer is empty whenever the queue is and
nothing is about to be written. -/
theorem buffer_flows (hx : Fresh x) :
    (∀ y, Runs.Reach (Step size encode) (fun _ _ => True) x y → y.conn ++ y.outbuf.getD [] = y.written.flatten) ∧
      ∀ y, Runs.Reach (Step size encode) (LastEncodes encode) x y →
        y.session.client.queue = [] → y.hand = none → y.outbuf.getD [] = [] := by
  constructor
  · intro y hr
    induction hr with
    | refl => exact (flows_of_fresh hx).inOrder
    | next _ _ hstep ih =>
      rw [hstep]
      exact inOrder_run ih _
  · intro y hr
    have hflows : Flows y := by
      apply hr.invariant (flows_of_fresh hx)
      rintro t ⟨env, call⟩ u ht hok rfl
      exact ht.run hok
    exact hflows.drains

def sixBytes : Outlet where
  session := { client := { protocolVersion := 5, props := { maximumPacketSize := 6 } } }

def queued (payload : Bytes) : Queued := ⟨{ fixedHeader := { type := .publish }, topicName := [97], payload }, [97]⟩

def twoMessages (second : Bytes) : List Call :=
  [.enqueue (queued []), .enqueue (queued second), .take, .write, .take, .write]

def afterTwo (second : Bytes) : Outlet := (twoMessages second).foldl (run 2048 Packet.encode (.encoding 100)) sixBytes

theorem lastEncodes_of_all (h : x.hand.all (fun q => (encoded encode (x.session.outgoing env q.packet)).isOk) = true) :
    LastEncodes encode x (env, .write) := by
  unfold LastEncodes
  cases hhand : x.hand with
  | none => trivial
  | some q =>
    rw [hhand] at h
    exact fun _ _ => h

theorem reach_afterTwo : Runs.Reach (Step 2048 Packet.encode) (LastEncodes Packet.encode) sixBytes (afterTwo []) := by
  refine Runs.Reach.replay (run 2048 Packet.encode) (.encoding 100) _ ⟨⟨trivial, rfl⟩, ⟨trivial, rfl⟩, ⟨trivial, rfl⟩,
    ⟨lastEncodes_of_all ?_, rfl⟩, ⟨trivial, rfl⟩, ⟨lastEncodes_of_all ?_, rfl⟩, trivial⟩
  all_goals decide +kernel

theorem buffer_flows_afterTwo :
    (afterTwo []).written.length = 2 ∧
      (afterTwo []).conn ++ (afterTwo []).outbuf.getD [] = (afterTwo []).written.flatten ∧
      (afterTwo []).outbuf.getD [] = [] := by
  have hflows := @buffer_flows 2048 Packet.encode sixBytes ⟨rfl, rfl, rfl⟩
  exact ⟨by decide +kernel, hflows.1 _ (reach_afterTwo.mono fun _ _ _ => trivial),
    hflows.2 _ reach_afterTwo (by decide +kernel) (by decide +kernel)⟩

/-- The second message is too large: the first one is left in the buffer. -/
theorem left_in_buffer :
    Fresh sixBytes ∧ (afterTwo [1]).session.client.queue = [] ∧ (afterTwo [1]).hand = none ∧ (afterTwo [1]).conn = [] ∧
      (afterTwo [1]).outbuf = some [0x30, 4, 0, 1, 97, 0] :=
  ⟨⟨rfl, rfl, rfl⟩, by decide +kernel⟩

end Outlet
end Mqtt
