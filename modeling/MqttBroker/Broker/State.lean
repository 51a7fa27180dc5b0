import MqttBroker.Library.Runs
import MqttBroker.Session.Connect

/-! The server with all its connections. What a handler does to a connection is
done on a session of the server; deliveries to other clients are steps of their
own. -/

namespace Mqtt
open FiniteMap

/-- The connections in the order in which they came, and the clients map, which gives the connection
of a client id. -/
structure Broker where
  connections : List Client := []
  clients : Map Bytes Nat := ∅
  server : Shared := {}
  log : List Event := []

inductive Admission where
  | accept
  | refuse (code : Code)
  | drop

def Client.expires (cl : Client) : Bool :=
  (cl.protocolVersion == 5 && cl.props.sessionExpiryInterval == 0) || (cl.protocolVersion < 5 && cl.clean)

namespace Broker

def session (b : Broker) (cl : Client) : Session := { client := cl, server := b.server, log := b.log }

def on (b : Broker) (c : Nat) (f : Session → Session) : Broker :=
  match b.connections[c]? with
  | none => b
  | some cl =>
    let s := f (b.session cl)
    { b with connections := b.connections.set c s.client, server := s.server, log := s.log }

variable {b : Broker} {c : Nat} {cl : Client} {id : Bytes}

def get (b : Broker) (id : Bytes) : Option (Nat × Client) :=
  (b.clients.lookup id).bind fun c => b.connections[c]?.map fun cl => (c, cl)

theorem get_eq_some_iff : b.get id = some (c, cl) ↔ b.clients.lookup id = some c ∧ b.connections[c]? = some cl := by
  unfold get
  rw [Option.bind_eq_some_iff]
  constructor
  · rintro ⟨c', hc', hcl⟩
    obtain ⟨cl', hcl', heq⟩ := Option.map_eq_some_iff.mp hcl
    cases heq
    exact ⟨hc', hcl'⟩
  · rintro ⟨hc, hcl⟩
    exact ⟨c, hc, Option.map_eq_some_iff.mpr ⟨cl, hcl, rfl⟩⟩

variable {e : Nat} {cl' : Client} {f g : Session → Session}

theorem clients_on (b : Broker) (c : Nat) (f : Session → Session) : (b.on c f).clients = b.clients := by
  unfold on
  split <;> rfl

theorem on_eq (h : b.connections[c]? = some cl) :
    b.on c f = { b with
      connections := b.connections.set c (f (b.session cl)).client
      server := (f (b.session cl)).server
      log := (f (b.session cl)).log } := by
  unfold on
  rw [h]

theorem getElem?_on_self (h : b.connections[c]? = some cl) :
    (b.on c f).connections[c]? = some (f (b.session cl)).client := by
  rw [on_eq h]
  exact List.getElem?_set_self (List.getElem?_eq_some_iff.mp h).1

theorem getElem?_on_of_ne (hne : c ≠ e) : (b.on c f).connections[e]? = b.connections[e]? := by
  unfold on
  split
  · rfl
  · exact List.getElem?_set_ne hne

theorem getElem?_on (h : (b.on c f).connections[e]? = some cl') :
    e ≠ c ∧ b.connections[e]? = some cl' ∨
      e = c ∧ ∃ cl, b.connections[e]? = some cl ∧ cl' = (f (b.session cl)).client ∧
        (b.on c f).server = (f (b.session cl)).server := by
  by_cases he : c = e
  · subst he
    cases hcl : b.connections[c]? with
    | none =>
      unfold on at h
      rw [hcl] at h
      cases hcl.symm.trans h
    | some cl =>
      rw [getElem?_on_self hcl] at h
      exact .inr ⟨rfl, cl, rfl, (Option.some.inj h).symm, by rw [on_eq hcl]⟩
  · rw [getElem?_on_of_ne he] at h
    exact .inl ⟨Ne.symm he, h⟩

theorem get_on (f : Session → Session) (h : b.get id = some (c, cl)) :
    (b.on c f).get id = some (c, (f (b.session cl)).client) := by
  obtain ⟨hlookup, hcl⟩ := get_eq_some_iff.mp h
  exact get_eq_some_iff.mpr ⟨(congrArg _ (clients_on b c f)).trans hlookup, getElem?_on_self hcl⟩

/-! ### Connecting -/

def parse (b : Broker) (assigned : Bytes) (pk : Packet) : Client :=
  (Client.new b.server.caps).parseConnect b.server.caps assigned pk

def turnAway (env : Env) (b : Broker) (s : Session) : Broker :=
  { b with connections := b.connections ++ [(s.stop env none).client], server := s.server, log := s.log }

/-- `inheritClientSession` and `Clients.Add`: whether a session was present, and the server after it. -/
def inherit (env : Env) (b : Broker) (pk : Packet) (cl : Client) : Bool × Broker :=
  match b.get cl.id with
  | none =>
    (false, { b with connections := b.connections ++ [cl], clients := b.clients.insert cl.id b.connections.length })
  | some (c, existing) =>
    let (present, existing, s) := (b.session existing).inheritClientSession env pk cl
    (present,
      { connections := b.connections.set c existing ++ [s.client]
        clients := b.clients.insert cl.id b.connections.length
        server := s.server
        log := s.log })

/-- What `attachClient` does between `Clients.Add` and its read loop. -/
def establish (env : Env) (present : Bool) (s : Session) : Session :=
  match s.establish env present with
  | (some _, s) => s.stop env none
  | (none, s) => s

/-- `attachClient` up to its read loop. -/
def attach (env : Env) (b : Broker) (assigned : Bytes) (pk : Packet) (admission : Admission) : Broker :=
  let cl := b.parse assigned pk
  let code := cl.validateConnect b.server.caps pk
  if code ≠ .success then b.turnAway env ((b.session cl).sendConnack env code false).2
  else
    match admission with
    | .refuse code => b.turnAway env ((b.session cl).sendConnack env code false).2
    | .drop => b.turnAway env (b.session cl)
    | .accept =>
      let (present, b') := b.inherit env pk cl
      b'.on b.connections.length (establish env present)

/-! ### Disconnecting -/

def endSession (env : Env) (s : Session) : Session := (s.clearInflights env).unsubscribeClient

/-- `attachClient` after its read loop. -/
def detach (env : Env) (b : Broker) (c : Nat) (err : Option Error) : Broker :=
  match b.connections[c]? with
  | none => b
  | some cl =>
    let s := (b.session cl).endRead env err
    let ends := s.client.expires && !s.client.isTakenOver
    let s := if ends then endSession env s else s
    let s := s.stop env none
    { connections := b.connections.set c s.client
      clients := if ends then b.clients.erase s.client.id else b.clients
      server := s.server
      log := s.log }

/-! ### Sweeps -/

/-- The test of `clearExpiredClients`. -/
def isExpired (b : Broker) (dt : Int) (cl : Client) : Bool :=
  let expire :=
    if cl.protocolVersion == 5 && cl.props.sessionExpiryIntervalFlag then cl.props.sessionExpiryInterval
    else b.server.caps.maximumSessionExpiryInterval
  cl.disconnected != 0 && cl.disconnected + expire.toNat < dt

def clearExpiredClient (dt : Int) (b : Broker) (id : Bytes) : Broker :=
  match b.get id with
  | none => b
  | some (_, cl) => if b.isExpired dt cl then { b with clients := b.clients.erase id } else b

def clearExpiredClients (b : Broker) (dt : Int) : Broker :=
  b.clients.keys.foldl (clearExpiredClient dt) b

theorem server_clearExpiredClient (dt : Int) (b : Broker) (a : Bytes) :
    (clearExpiredClient dt b a).server = b.server := by
  unfold clearExpiredClient
  split
  · rfl
  · split <;> rfl

theorem get_clearExpiredClient (dt : Int) (b : Broker) (a id : Bytes) :
    (clearExpiredClient dt b a).get id =
      if a = id then (b.get id).filter fun p => !b.isExpired dt p.2 else b.get id := by
  unfold clearExpiredClient
  split
  · rename_i hnone
    split
    · rename_i hid
      rw [← hid, hnone]
      rfl
    · rfl
  · rename_i c cl hget
    by_cases hid : a = id
    · subst hid
      rw [if_pos rfl, hget, Option.filter_some]
      cases hexpired : b.isExpired dt cl with
      | true =>
        show ((b.clients.erase a).lookup a).bind _ = _
        rw [lookup_erase_eq, if_pos rfl]
        rfl
      | false => exact hget
    · rw [if_neg hid]
      split
      · show ((b.clients.erase a).lookup id).bind _ = _
        rw [lookup_erase_eq, if_neg (Ne.symm hid)]
        rfl
      · rfl

theorem get_foldl_clearExpiredClient {dt : Int} (ids : List Bytes) : ∀ b : Broker,
    (ids.foldl (clearExpiredClient dt) b).get id =
      if id ∈ ids then (b.get id).filter fun p => !b.isExpired dt p.2 else b.get id := by
  induction ids with
  | nil => simp
  | cons a ids ih =>
    intro b
    have hexpired : (clearExpiredClient dt b a).isExpired dt = b.isExpired dt := by
      funext cl
      unfold isExpired
      rw [server_clearExpiredClient]
    rw [List.foldl_cons, ih, get_clearExpiredClient, hexpired]
    by_cases hid : a = id
    · simp [hid]
    · simp [hid, Ne.symm hid]

theorem get_clearExpiredClients {dt : Int} (h : b.get id = some (c, cl)) :
    (b.clearExpiredClients dt).get id = none ↔ b.isExpired dt cl = true := by
  obtain ⟨i, hi, -⟩ := Option.bind_eq_some_iff.mp h
  have hmem : id ∈ b.clients.keys := AList.mem_keys.mp (AList.lookup_isSome.mp (by rw [hi]; rfl))
  unfold clearExpiredClients
  rw [get_foldl_clearExpiredClient, if_pos hmem, h, Option.filter_some]
  simp

/-- One turn of the loop of `clearExpiredInflights`. -/
def sweepInflights (env : Env) (now : Int) (s : Session) : Session :=
  let (deleted, s) := s.clearExpiredInflights env now s.server.caps.maximumMessageExpiryInterval
  if deleted.length > 0 then
    ((deleted.foldl (fun s id => s.emit (.qosDropped { packetID := id })) s).resumeDeferredPublishes env).2
  else s

def clearExpiredInflights (env : Env) (b : Broker) (now : Int) : Broker :=
  b.clients.entries.foldl (fun b e => b.on e.2 (sweepInflights env now)) b

def finishWill (pk : Packet) (s : Session) : Session :=
  let s := if pk.fixedHeader.retain then s.retainMessage pk else s
  { s with client := { s.client with will := {} } }.emit (.willSent pk)

/-- One turn of the loop of `sendDelayedLWT`. -/
def sendDelayed (dt : Int) (b : Broker) (id : Bytes) (pk : Packet) : Broker :=
  if pk.expiry < dt then
    let b := { b with log := b.log ++ [Event.forward pk] }
    let b :=
      match b.get id with
      | none => b
      | some (c, _) => b.on c (finishWill pk)
    { b with server := { b.server with willDelayed := b.server.willDelayed.erase id } }
  else b

def sendDelayedLWT (b : Broker) (dt : Int) : Broker :=
  b.server.willDelayed.entries.foldl (fun b e => sendDelayed dt b e.1 e.2) b

/-! ### Steps -/

inductive Action where
  | attach (assigned : Bytes) (pk : Packet) (admission : Admission)
  | receive (c : Nat) (pk : Packet)
  | detach (c : Nat) (err : Option Error)
  | deliver (c : Nat) (sub : Subscription) (pk : Packet)
  | writeNext (c : Nat)
  | resume (c : Nat)
  | disconnect (c : Nat) (code : Code)
  | clearExpiredClients (dt : Int)
  | clearExpiredInflights (now : Int)
  | sendDelayedLWT (dt : Int)

def Action.run (env : Env) (b : Broker) : Action → Broker
  | .attach assigned pk admission => b.attach env assigned pk admission
  | .receive c pk => b.on c fun s => (s.receivePacket env pk).2
  | .detach c err => b.detach env c err
  | .deliver c sub pk => b.on c fun s => (s.publishToClient env sub pk).2
  | .writeNext c => b.on c (·.writeNext env)
  | .resume c => b.on c fun s => (s.resumeDeferredPublishes env).2
  | .disconnect c code => b.on c fun s => (s.disconnectClient env code).2
  | .clearExpiredClients dt => b.clearExpiredClients dt
  | .clearExpiredInflights now => b.clearExpiredInflights env now
  | .sendDelayedLWT dt => b.sendDelayedLWT dt

def Action.Step (b : Broker) (action : Env × Action) (b' : Broker) : Prop := b' = action.2.run action.1 b

end Broker
end Mqtt
