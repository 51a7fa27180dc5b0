import MqttBroker.Session.Terms
import MqttBroker.Wire.RoundTrip

/-! `Client.Read`, which takes the packets of a connection from its bytes. -/

namespace Mqtt
open Calls Packet

/-- The limit of the server, the chain of `OnPacketRead`, and the environment in which each packet is handled. -/
structure Inlet where
  maximumPacketSize : UInt32
  onPacketRead : Packet → Except Error Packet
  env : Nat → Env

namespace Inlet
variable (x : Inlet) (n : Nat) (s : Session)

def exceeds (remaining : Nat) : Bool :=
  0 < x.maximumPacketSize && x.maximumPacketSize < UInt32.ofNat (remaining + 1)

/-- `ReadFixedHeader` after the first byte, with the number of bytes that the length takes. -/
def readFixedHeader (hb : UInt8) (rest : Bytes) : Result (FixedHeader × Nat) := do
  let fh ← FixedHeader.decode {} hb
  let (remaining, bu) ← decodeLength rest
  if x.exceeds remaining then .err (.code .packetTooLarge) else return ({ fh with remaining }, bu)

def handle (pk : Packet) : Outcome (Error × Session) Session :=
  match x.onPacketRead pk with
  | .error err => .err (err, s)
  | .ok pk =>
    match s.receivePacket (x.env n) pk with
    | (some err, t) => .err (err, t)
    | (none, t) => .ok t

/-- `Read` from packet `n` on. It returns without an error only if the client is closed. -/
def read (n : Nat) (s : Session) (bytes : Bytes) : Outcome (Error × Session) Session :=
  if s.client.closed then .ok s
  else match bytes with
    | [] => .err (.eof, s)
    | hb :: rest => do
      let (fh, bu) ← (x.readFixedHeader hb rest).mapErr (·, s)
      if (rest.drop bu).length < fh.remaining then .err (.eof, s)
      else
        let pk ← (readPacket s.client.protocolVersion fh ((rest.drop bu).take fh.remaining)).mapErr (·, s)
        let t ← x.handle n s pk
        read (n + 1) t ((rest.drop bu).drop fh.remaining)
termination_by bytes.length

def dispatch (next : Nat → Session → Outcome (Error × Session) Session) (n : Nat) (s : Session) :
    List Packet → Outcome (Error × Session) Session
  | [] => next n s
  | pk :: pks =>
    if s.client.closed then .ok s
    else do
      let t ← x.handle n s pk
      dispatch next (n + 1) t pks

/-- A frame that is not too large, with a packet for version `v` in it. -/
inductive Holds (v : UInt8) : Packet → Bytes → Prop
  | mk {hb : UInt8} {fh : FixedHeader} {length body : Bytes} {pk : Packet} (header : FixedHeader.decode {} hb = .ok fh)
      (length_eq : ∀ rest, decodeLength (length ++ rest) = .ok (body.length, length.length))
      (size : x.exceeds body.length = false)
      (body_eq : readPacket v { fh with remaining := body.length } body = .ok pk) :
      Holds v pk (hb :: (length ++ body))

variable {x n s} {pk : Packet} {bytes : Bytes} {t : Session}

theorem holds_encode (h : pk.Encodable) (hids : ∀ id ∈ pk.properties.subscriptionIdentifier, id ≤ 268435455)
    (henc : pk.encode = .ok bytes) (hsize : x.exceeds pk.body.length = false) :
    x.Holds pk.protocolVersion (pk.received pk.body.length) bytes := by
  obtain ⟨fh, hheader⟩ := h.flags
  rw [encode_eq_frame h.type henc]
  refine .mk hheader (decodeLength_encodeLength h.body) hsize ?_
  rw [FixedHeader.decode_firstByte h.type h.qos hheader]
  exact h.readPacket_body hids

theorem Holds.read (h : x.Holds s.client.protocolVersion pk bytes) (rest : Bytes) (hopen : s.client.closed = false) :
    x.read n s (bytes ++ rest) = x.handle n s pk >>= fun t => x.read (n + 1) t rest := by
  cases h with
  | @mk hb fh length body _ header length_eq size body_eq =>
    have hread : x.readFixedHeader hb (length ++ body ++ rest) =
        .ok ({ fh with remaining := body.length }, length.length) := by
      unfold readFixedHeader
      rw [header, Outcome.ok_bind, List.append_assoc, length_eq, Outcome.ok_bind]
      dsimp only
      rw [size]
      rfl
    rw [List.cons_append, Inlet.read, hopen, if_neg (by decide)]
    dsimp only
    rw [hread, Outcome.mapErr_ok, Outcome.ok_bind]
    dsimp only
    rw [List.append_assoc, List.drop_left, if_neg (by rw [List.length_append]; omega), List.take_left, body_eq,
      Outcome.mapErr_ok, Outcome.ok_bind, List.drop_left]

theorem handle_version (h : x.handle n s pk = .ok t) : t.client.protocolVersion = s.client.protocolVersion := by
  unfold handle at h
  split at h
  · cases h
  · rename_i q _
    have hterms := congrArg Session.Terms.protocolVersion (@Session.terms_receivePacket (x.env n) s q)
    split at h
    · cases h
    · rename_i hreceive
      cases h
      rw [hreceive] at hterms
      refine hterms.trans ?_
      cases s.asks (x.env n) q <;> rfl

/-- The loop hands on the packets of the frames that a connection delivers, all of them and in their order, up to
the one at which it returns, and goes on with the bytes behind them. -/
theorem read_frames {pks : List Packet} {frames : List Bytes}
    (h : List.Forall₂ (x.Holds s.client.protocolVersion) pks frames) (rest : Bytes) :
    x.read n s (frames.flatten ++ rest) = x.dispatch (x.read · · rest) n s pks := by
  generalize hv : s.client.protocolVersion = v at h
  induction h generalizing n s with
  | nil => rfl
  | @cons pk bytes pks frames hpk hpks ih =>
    rw [List.flatten_cons, List.append_assoc, dispatch]
    cases hclosed : s.client.closed with
    | true => rw [read.eq_def, hclosed, if_pos rfl, if_pos rfl]
    | false =>
      rw [← hv] at hpk
      rw [hpk.read _ hclosed, if_neg (by decide)]
      cases hhandle : x.handle n s pk with
      | ok t => exact ih ((handle_version hhandle).trans hv)
      | err | panic => rfl

def unlimited : Inlet := ⟨0, .ok, fun _ => .accepting 0⟩

def ping : Packet := { fixedHeader := { type := .pingreq }, protocolVersion := 5 }

theorem holds_ping : unlimited.Holds 5 ping [0xC0, 0] :=
  @Holds.mk unlimited 5 0xC0 _ [0] [] ping rfl (fun _ => rfl) rfl rfl

/-- A PINGREQ and a SUBSCRIBE, and the first byte of a frame of which no more comes. -/
theorem read_ping_subscribe :
    unlimited.read 0 { client := { protocolVersion := 5 } }
        ([[0xC0, 0], numberedSubscribe.frame numberedSubscribe.body].flatten ++ [0xC0]) =
      unlimited.dispatch (unlimited.read · · [0xC0]) 0 { client := { protocolVersion := 5 } }
        [ping, numberedSubscribe.received numberedSubscribe.body.length] :=
  read_frames (.cons holds_ping (.cons (holds_encode numberedSubscribe_encodable (by decide) rfl rfl) .nil)) [0xC0]

end Inlet
end Mqtt
