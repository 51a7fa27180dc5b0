import MqttBroker.Session.Connect
import MqttBroker.Session.Quota

/-! One client whose messages are published by several calls at the same time.
`publishToClient`, the handling of a PUBACK and `ClearInflights` are cut where
they take and release locks, and their steps are taken one by one in any order,
together with those of the write loop. -/

namespace Mqtt
open FiniteMap
namespace Session

/-! ### `resumeDeferredPublishes` -/

/-- How far a call of `resumeDeferredPublishes` has come. -/
inductive Resuming where
  | recover
  | test
  | take
  | decrease (next : Packet)
  | write (next : Packet)
  | repark (next : Packet) (err : Option Error) (increases : Bool)
  | increase (err : Option Error)
  | reset (err : Option Error)
  | done (err : Option Error)

def Resuming.step (env : Env) (s : Session) : Resuming → Resuming × Session
  | .recover => (.test, s.onInflight fun f => f.recoverStarvedSendQuota.2)
  | .test => (if 0 < s.client.inflight.sendQuota then .take else .reset none, s)
  | .take =>
    match s.client.inflight.takeNextImmediate env.order with
    | (none, _) => (.reset none, s)
    | (some next, f) => (.decrease next, s.onInflight fun _ => f)
  | .decrease next =>
    match s.client.inflight.decreaseSendQuota with
    | (false, _) => (.repark next none false, s)
    | (true, f) => (.write next, s.onInflight fun _ => f)
  | .write next =>
    if !s.client.conn || s.client.closed then (.repark next none true, s)
    else
      match s.writePacket env next with
      | (some err, s) => (.repark next (some err) true, s)
      | (none, s) => (.test, s)
  | .repark next err increases =>
    (if increases then .increase err else .reset err,
      s.onInflight fun f => f.put { next with expiry := inflightExpiryDeferred })
  | .increase err => (.reset err, s.onInflight fun f => f.increaseSendQuota.2)
  | .reset err => (.done err, s.onInflight fun f => f.resetSendQuotaIfEmpty.2)
  | .done err => (.done err, s)

/-! ### `publishToClient` -/

/-- How far a call of `publishToClient` at QoS 1 or 2 has come, with the message and the copy that is
sent. From `reserved` on the copy has its packet id. -/
inductive Publishing where
  | waiting (pk out : Packet)
  | search (pk out : Packet) (started i : Nat) (overflowed : Bool)
  | reserved (pk out : Packet)
  | resetQuota (pk out : Packet)
  | park (pk out : Packet)
  | store (pk out : Packet) (took : Bool)
  | undo (pk out : Packet)
  | discard (pk out : Packet)
  | stored (pk out : Packet)
  | check (pk out : Packet)
  | push (pk out : Packet)
  | drop (pk out : Packet) (code : Code)
  | uncount (pk out : Packet) (code : Code)
  | refund (pk out : Packet) (code : Code)
  | resume (pk out : Packet) (r : Resuming)
  | returned (pk out : Packet) (err : Option Error)

namespace Publishing

def exhausted (s : Session) (pk out : Packet) : Publishing × Session :=
  (.returned pk out (some (.code .quotaExceeded)), (s.emit (.packetIDExhausted pk)).dropInflight)

/-- One turn of the loop of `nextPacketID`. -/
def reserve (env : Env) (s : Session) (pk out : Packet) (started i : Nat) (overflowed : Bool) : Publishing × Session :=
  if overflowed && i == started then exhausted s pk out
  else if s.server.caps.maximumPacketID ≤ i then (.search pk out started 0 true, s)
  else
    match s.client.inflight.tryReserve env.now (UInt16.ofNat (i + 1)) s.server.caps.maximumInflight.toNat with
    | (.ok, f) =>
      (.reserved pk ({ out with packetID := UInt16.ofNat (i + 1) }.fillFrom pk),
        { s with client := { s.client with packetID := i + 1, inflight := f } })
    | (.full, _) => exhausted s pk out
    | (.idTaken, _) => (.search pk out started (i + 1) overflowed, s)

def takeQuota (s : Session) (pk out : Packet) : Publishing × Session :=
  if 5 ≤ s.client.protocolVersion then
    if 0 < s.client.inflight.maximumSendQuota then
      match s.client.inflight.decreaseSendQuota with
      | (false, _) => (.park pk { out with expiry := inflightExpiryDeferred }, s)
      | (true, f) => (.store pk out true, s.onInflight fun _ => f)
    else (.store pk out false, s)
  else if s.client.inflight.sendQuota = 0 ∧ 0 < s.client.inflight.maximumSendQuota then (.resetQuota pk out, s)
  else (.store pk out false, s)

/-- `ReplaceCounted` with the hook after it. -/
def replace (s : Session) (out : Packet) (kept refused : Publishing) : Publishing × Session :=
  match s.client.inflight.replaceCounted out with
  | (true, f) => (kept, ((s.onInflight fun _ => f).countInflight 1).emit (.qosPublish out))
  | (false, _) => (refused, s)

def tryPush (s : Session) (pk out : Packet) : Publishing × Session :=
  if s.client.queue.length < s.server.caps.maximumClientWritesPending then
    (.returned pk out none, { s with client := { s.client with queue := s.client.queue ++ [⟨out, pk.topicName⟩] } })
  else
    (.drop pk out .pendingClientWritesExceeded,
      { s with
        server := { s.server with
          info := { s.server.info with messagesDropped := s.server.info.messagesDropped + 1 } } }.emit
        (.publishDropped pk))

def step (env : Env) (s : Session) : Publishing → Publishing × Session
  | .waiting pk out => (.search pk out s.client.packetID s.client.packetID false, s)
  | .search pk out started i overflowed => reserve env s pk out started i overflowed
  | .reserved pk out => takeQuota s pk out
  | .resetQuota pk out =>
    (.store pk out false, s.onInflight fun f => f.resetSendQuota s.server.caps.receiveMaximum.toNat)
  | .park pk out => replace s out (.resume pk out .recover) (.discard pk out)
  | .store pk out took => replace s out (.stored pk out) (if took then .undo pk out else .discard pk out)
  | .undo pk out => (.discard pk out, s.onInflight fun f => f.increaseSendQuota.2)
  | .discard pk out =>
    (.returned pk out (some (.code .quotaExceeded)), (s.onInflight fun f => f.remove out.packetID).dropInflight)
  | .stored pk out =>
    (.check pk out, if s.client.protocolVersion < 5 then s.onInflight fun f => f.decreaseSendQuota.2 else s)
  | .check pk out =>
    if !s.client.conn || s.client.closed then
      (if out.packetID > 0 then .drop pk out .disconnected else .returned pk out (some (.code .disconnected)), s)
    else (.push pk out, s)
  | .push pk out => tryPush s pk out
  | .drop pk out code =>
    if (s.client.inflight.delete out.packetID).1 then
      (.uncount pk out code, s.onInflight fun f => f.remove out.packetID)
    else (.returned pk out (some (.code code)), s)
  | .uncount pk out code => (.refund pk out code, s.countInflight (-1))
  | .refund pk out code => (.returned pk out (some (.code code)), s.onInflight fun f => f.increaseSendQuota.2)
  | .resume pk out (.done _) => (.returned pk out none, s)
  | .resume pk out r => (.resume pk out (r.step env s).1, (r.step env s).2)
  | .returned pk out err => (.returned pk out err, s)

def isSearching : Publishing → Bool
  | .search .. => true
  | _ => false

def isWaiting : Publishing → Bool
  | .waiting .. => true
  | _ => false

def delivers (id : UInt16) : Publishing → Bool
  | .resume _ out _ => out.packetID == id
  | .returned _ out none => out.packetID == id
  | _ => false

end Publishing

/-! ### PUBACK and `ClearInflights` -/

inductive Acking where
  | get (pk : Packet)
  | delete (pk entry : Packet)
  | refund (pk entry : Packet)
  | uncount (pk entry : Packet)
  | resume (r : Resuming)
  | done

def Acking.step (env : Env) (s : Session) : Acking → Acking × Session
  | .get pk =>
    match s.client.inflight.get pk.packetID with
    | none => (.resume .recover, s)
    | some entry => (.delete pk entry, s)
  | .delete pk entry =>
    if (s.client.inflight.delete pk.packetID).1 then
      (if entry.expiry = inflightExpiryReserved then .resume .recover else .refund pk entry,
        s.onInflight fun f => f.remove pk.packetID)
    else (.resume .recover, s)
  | .refund pk entry => (.uncount pk entry, s.onInflight fun f => f.increaseSendQuota.2)
  | .uncount pk entry => (.resume .recover, (s.countInflight (-1)).emit (.qosComplete (pk.fillFrom entry)))
  | .resume (.done _) => (.done, s)
  | .resume r => (.resume (r.step env s).1, (r.step env s).2)
  | .done => (.done, s)

/-- How far a call of `ClearInflights` has come, with the entries of its snapshot that are left. -/
inductive Clearing where
  | snapshot
  | delete (tks : List Packet)
  | uncount (tks : List Packet)

def Clearing.step (env : Env) (s : Session) : Clearing → Clearing × Session
  | .snapshot => (.delete (s.client.inflight.getAll env.order false), s)
  | .delete [] => (.delete [], s)
  | .delete (tk :: tks) =>
    if (s.client.inflight.delete tk.packetID).1 then
      (if tk.expiry ≠ inflightExpiryReserved then .uncount tks else .delete tks,
        (s.onInflight fun f => f.remove tk.packetID).emit (.qosDropped tk))
    else (.delete tks, s)
  | .uncount tks => (.delete tks, s.countInflight (-1))

end Session

/-! ### The calls together -/

structure Message where
  packet : Packet
  plain : Session.Plain packet.expiry

/-- A client with the calls that are in progress for it. As history: the ids written to the client, those
of them that the client has not answered, and the calls whose id was acknowledged. -/
structure Traffic where
  session : Session
  calls : List Session.Publishing := []
  reader : Session.Acking := .done
  clears : List Session.Clearing := []
  written : List UInt16 := []
  outstanding : List UInt16 := []
  acked : List Nat := []

def writtenIDs (es : List Event) : List UInt16 :=
  es.filterMap fun
    | .wrote pk _ => some pk.packetID
    | _ => none

namespace Traffic
open Session

def update (t : Traffic) (s : Session) : Traffic :=
  let ids := writtenIDs (s.log.drop t.session.log.length)
  { t with session := s, written := ids ++ t.written, outstanding := ids ++ t.outstanding }

/-- A new call at QoS 1 or 2, up to the choice of its packet id. Other calls leave the inflight messages
alone. -/
def publish (env : Env) (t : Traffic) (sub : Subscription) (m : Message) : Traffic :=
  let s := t.session
  if sub.noLocal && m.packet.origin == s.client.id then t
  else if !env.onACLCheck s.client.id m.packet.topicName false then t
  else
    let (out, s) := s.prepare sub m.packet
    if out.fixedHeader.qos > 0 then { t with session := s, calls := t.calls ++ [.waiting m.packet out] } else t

/-- The next step of a call. One that waits for the lock of the client goes on when no other has it. -/
def advance (env : Env) (t : Traffic) (c : Nat) : Traffic :=
  match t.calls[c]? with
  | none => t
  | some p =>
    if p.isWaiting && t.calls.any Publishing.isSearching then t
    else { t.update (p.step env t.session).2 with calls := t.calls.set c (p.step env t.session).1 }

def puback (t : Traffic) (pk : Packet) : Traffic :=
  match t.reader with
  | .done => { t with reader := .get pk, outstanding := t.outstanding.erase pk.packetID }
  | _ => t

def delivering (t : Traffic) (id : UInt16) : List Nat :=
  (List.range t.calls.length).filter fun c => t.calls[c]?.any (Publishing.delivers id)

def read (env : Env) (t : Traffic) : Traffic :=
  let acked :=
    match t.reader with
    | .delete pk _ => t.delivering pk.packetID
    | _ => []
  { t.update (t.reader.step env t.session).2 with
    reader := (t.reader.step env t.session).1, acked := acked ++ t.acked }

def clear (t : Traffic) : Traffic := { t with clears := t.clears ++ [.snapshot] }

def clearNext (env : Env) (t : Traffic) (k : Nat) : Traffic :=
  match t.clears[k]? with
  | none => t
  | some p => { t.update (p.step env t.session).2 with clears := t.clears.set k (p.step env t.session).1 }

inductive Move where
  | publish (sub : Subscription) (m : Message)
  | advance (c : Nat)
  | writeNext
  | puback (pk : Packet)
  | read
  | clear
  | clearNext (k : Nat)
  | stop (err : Option Error)

def Move.run (env : Env) (t : Traffic) : Move → Traffic
  | .publish sub m => t.publish env sub m
  | .advance c => t.advance env c
  | .writeNext => t.update (t.session.writeNext env)
  | .puback pk => t.puback pk
  | .read => t.read env
  | .clear => t.clear
  | .clearNext k => t.clearNext env k
  | .stop err => t.update (t.session.stop env err)

def Move.Step (t : Traffic) (move : Env × Move) (t' : Traffic) : Prop := t' = move.2.run move.1 t

theorem Move.step_run (t : Traffic) (move : Env × Move) : Move.Step t move (move.2.run move.1 t) := rfl

end Traffic
end Mqtt
