import MqttBroker.Storage.Subscriptions

/-! Clients in the store. `updateClient` copies a client into a record, and
`loadClients` makes a disconnected client of each record when the server starts.
The record has a place for every field that the server reads later, but no backend
fills the two flags. -/

namespace Mqtt
open FiniteMap
namespace Storage
open Session

structure ClientProperties where
  authenticationData : Bytes := []
  user : List UserProperty := []
  authenticationMethod : Bytes := []
  sessionExpiryInterval : UInt32 := 0
  maximumPacketSize : UInt32 := 0
  receiveMaximum : UInt16 := 0
  topicAliasMaximum : UInt16 := 0
  sessionExpiryIntervalFlag : Bool := false
  requestProblemInfo : UInt8 := 0
  requestProblemInfoFlag : Bool := false
  requestResponseInfo : UInt8 := 0

structure StoredClient where
  will : Will
  properties : ClientProperties
  username : Bytes
  id : Bytes
  t : Bytes
  remote : Bytes
  listener : Bytes
  protocolVersion : UInt8
  clean : Bool

/-- `CL`, the tag of clients. -/
def clientTag : Bytes := [67, 76]

def clientKey (backend : Backend) (id : Bytes) : Bytes :=
  match backend with
  | .redis => id
  | _ => clientTag ++ [95] ++ id

/-- The record that `updateClient` makes, which is the same in all backends. -/
def clientRecord (cl : Client) : StoredClient :=
  let props := cl.props.copy false
  { id := cl.id
    t := clientTag
    remote := cl.remote
    listener := cl.listener
    username := cl.username
    clean := cl.clean
    protocolVersion := cl.protocolVersion
    properties :=
      { sessionExpiryInterval := props.sessionExpiryInterval
        authenticationMethod := props.authenticationMethod
        authenticationData := props.authenticationData
        requestProblemInfo := props.requestProblemInfo
        requestResponseInfo := props.requestResponseInfo
        receiveMaximum := props.receiveMaximum
        topicAliasMaximum := props.topicAliasMaximum
        user := props.user
        maximumPacketSize := props.maximumPacketSize }
    will := cl.will }

def updateClient (backend : Backend) (db : Map Bytes StoredClient) (cl : Client) : Map Bytes StoredClient :=
  db.insert (clientKey backend cl.id) (clientRecord cl)

def StoredClient.toClient (caps : Capabilities) (c : StoredClient) : Client :=
  { Client.new caps with
    conn := false
    listener := c.listener
    id := c.id
    username := c.username
    clean := c.clean
    protocolVersion := c.protocolVersion
    props :=
      { sessionExpiryInterval := c.properties.sessionExpiryInterval
        sessionExpiryIntervalFlag := c.properties.sessionExpiryIntervalFlag
        authenticationMethod := c.properties.authenticationMethod
        authenticationData := c.properties.authenticationData
        requestProblemInfoFlag := c.properties.requestProblemInfoFlag
        requestProblemInfo := c.properties.requestProblemInfo
        requestResponseInfo := c.properties.requestResponseInfo
        receiveMaximum := c.properties.receiveMaximum
        topicAliasMaximum := c.properties.topicAliasMaximum
        user := c.properties.user
        maximumPacketSize := c.properties.maximumPacketSize }
    will := c.will }

def restoreClient (env : Env) (b : Broker) (c : StoredClient) : Session :=
  (b.session (c.toClient b.server.caps)).stop env (some (.code .serverShuttingDown))

/-- One turn of the loop of `loadClients`: a session that ends with its connection is not taken up again. -/
def loadClient (env : Env) (b : Broker) (c : StoredClient) : Broker :=
  let s := restoreClient env b c
  if s.client.expires then
    let s := Broker.endSession env s
    { b with server := s.server, log := s.log }
  else
    { connections := b.connections ++ [s.client]
      clients := b.clients.insert s.client.id b.connections.length
      server := s.server
      log := s.log }

def loadClients (env : Env) (b : Broker) (v : List StoredClient) : Broker := v.foldl (loadClient env) b

variable {backend : Backend} {db : Map Bytes StoredClient} {env : Env} {b : Broker} {cl : Client} {r : StoredClient}
  {v : List StoredClient} {id : Bytes}

/-! ### What is restored -/

theorem restoreClient_eq (env : Env) (b : Broker) (c : StoredClient) :
    restoreClient env b c = b.session
      { c.toClient b.server.caps with
        closed := true
        stopCause := some (.code .serverShuttingDown)
        disconnected := env.now } := rfl

theorem server_endSession (env : Env) (b : Broker) (c : StoredClient) :
    (Broker.endSession env (restoreClient env b c)).server = b.server := by
  have hnone : (restoreClient env b c).client.inflight.getAll env.order false = [] := by
    apply List.eq_nil_iff_forall_not_mem.mpr
    intro tk htk
    cases (Inflight.mem_getAll_iff _).mp htk
  have hclear : (restoreClient env b c).clearInflights env = restoreClient env b c := by
    unfold clearInflights
    rw [hnone]
    rfl
  unfold Broker.endSession
  rw [hclear]
  rfl

theorem server_loadClient (env : Env) (b : Broker) (c : StoredClient) : (loadClient env b c).server = b.server := by
  unfold loadClient
  dsimp only
  split
  · exact server_endSession env b c
  · rfl

theorem get_loadClient_self (hlasting : (restoreClient env b r).client.expires = false) :
    (loadClient env b r).get r.id = some (b.connections.length, (restoreClient env b r).client) := by
  unfold loadClient
  dsimp only
  rw [if_neg (by rw [hlasting]; decide)]
  unfold Broker.get
  show ((b.clients.insert r.id b.connections.length).lookup r.id).bind _ = _
  rw [lookup_insert_eq, if_pos rfl, Option.bind_some]
  show ((b.connections ++ [(restoreClient env b r).client])[b.connections.length]?).map _ = _
  rw [List.getElem?_concat_length]
  rfl

theorem get_loadClient_of_ne {p : Nat × Client} (hid : r.id ≠ id) (h : b.get id = some p) :
    (loadClient env b r).get id = some p := by
  obtain ⟨c, hc, hmap⟩ := Option.bind_eq_some_iff.mp h
  obtain ⟨cl, hcl, rfl⟩ := Option.map_eq_some_iff.mp hmap
  unfold loadClient
  dsimp only
  split
  · exact h
  · unfold Broker.get
    show ((b.clients.insert r.id b.connections.length).lookup id).bind _ = _
    rw [lookup_insert_eq, if_neg (Ne.symm hid), hc, Option.bind_some]
    show ((b.connections ++ [_])[c]?).map _ = _
    rw [List.getElem?_append_left (List.getElem?_eq_some_iff.mp hcl).1, hcl]
    rfl

theorem get_loadClients (hlasting : (restoreClient env b r).client.expires = false)
    (hunique : ∀ r' ∈ v, r'.id = r.id → r' = r) (hr : r ∈ v) :
    ∃ c, (loadClients env b v).get r.id = some (c, (restoreClient env b r).client) := by
  have hsame : ∀ {u u' : Broker}, u'.server = u.server → (restoreClient env u' r).client =
      (restoreClient env u r).client := by
    intro u u' h
    rw [restoreClient_eq, restoreClient_eq, h]
    rfl
  have hserver : (loadClients env b v).server = b.server :=
    List.foldlRecOn (motive := fun u : Broker => u.server = b.server) v _ rfl fun u hu r' _ =>
      (server_loadClient env u r').trans hu
  rw [← hsame hserver]
  refine foldl_of_mem (P := fun u : Broker => ∃ c, u.get r.id = some (c, (restoreClient env u r).client)) hr
    (fun u => ?_) (fun u r' hr' hu => ?_) b
  · rw [hsame (server_loadClient env u r)]
    exact ⟨_, get_loadClient_self hlasting⟩
  · rw [hsame (server_loadClient env u r')]
    by_cases hid : r'.id = r.id
    · rw [hunique r' hr' hid]
      exact ⟨_, get_loadClient_self hlasting⟩
    · obtain ⟨c, hc⟩ := hu
      exact ⟨c, get_loadClient_of_ne hid hc⟩

/-! ### Expiry -/

structure SameSession (cl cl' : Client) : Prop where
  protocolVersion : cl'.protocolVersion = cl.protocolVersion
  clean : cl'.clean = cl.clean
  username : cl'.username = cl.username
  will : cl'.will = cl.will
  sessionExpiryInterval : cl'.props.sessionExpiryInterval = cl.props.sessionExpiryInterval
  sessionExpiryIntervalFlag : cl'.props.sessionExpiryIntervalFlag = cl.props.sessionExpiryIntervalFlag
  requestProblemInfo : cl'.props.requestProblemInfo = cl.props.requestProblemInfo
  requestProblemInfoFlag : cl'.props.requestProblemInfoFlag = cl.props.requestProblemInfoFlag
  receiveMaximum : cl'.props.receiveMaximum = cl.props.receiveMaximum
  topicAliasMaximum : cl'.props.topicAliasMaximum = cl.props.topicAliasMaximum
  maximumPacketSize : cl'.props.maximumPacketSize = cl.props.maximumPacketSize

def SameExpiry (cl cl' : Client) : Prop :=
  ∀ (x y : Broker) (c d : Nat) (disconnected dt : Int), x.server.caps = y.server.caps →
    x.get cl.id = some (c, { cl with disconnected := disconnected }) →
    y.get cl.id = some (d, { cl' with disconnected := disconnected }) →
    ((y.clearExpiredClients dt).get cl.id = none ↔ (x.clearExpiredClients dt).get cl.id = none)

theorem SameSession.sameExpiry {cl' : Client} (h : SameSession cl cl') : SameExpiry cl cl' := by
  intro x y c d disconnected dt hcaps hx hy
  rw [Broker.get_clearExpiredClients hx, Broker.get_clearExpiredClients hy]
  unfold Broker.isExpired
  dsimp only
  rw [h.protocolVersion, h.sessionExpiryIntervalFlag, h.sessionExpiryInterval, hcaps]

theorem sameSession_restoreClient_iff :
    SameSession cl (restoreClient env b (clientRecord cl)).client ↔
      cl.props.sessionExpiryIntervalFlag = false ∧ cl.props.requestProblemInfoFlag = false := by
  constructor
  · intro h
    exact ⟨h.sessionExpiryIntervalFlag.symm, h.requestProblemInfoFlag.symm⟩
  · rintro ⟨hexpiry, hproblem⟩
    exact ⟨rfl, rfl, rfl, rfl, rfl, hexpiry.symm, rfl, hproblem.symm, rfl, rfl, rfl⟩

def ClientsKeyed (backend : Backend) (db : Map Bytes StoredClient) : Prop :=
  ∀ k r, db.lookup k = some r → k = clientKey backend r.id

theorem clientKey_injective (backend : Backend) : Function.Injective (clientKey backend) := by
  intro a a' h
  cases backend <;> simpa [clientKey] using h

/-- A client comes back from the store with what the server goes by, and expires when it would have, if and
only if it has set neither its session expiry nor its request for problem information. A session that ends
with its connection is not taken up again. -/
theorem client_restored_iff (hdb : ClientsKeyed backend db)
    (hv : v.Perm (values (updateClient backend db cl))) :
    (∃ r ∈ v, r.id = cl.id ∧ SameSession cl (restoreClient env b r).client ∧
        SameExpiry cl (restoreClient env b r).client ∧
        (cl.expires = false →
          ∃ c, (loadClients env b v).get cl.id = some (c, (restoreClient env b r).client))) ↔
      cl.props.sessionExpiryIntervalFlag = false ∧ cl.props.requestProblemInfoFlag = false := by
  have hstored : ∀ k, (updateClient backend db cl).lookup k =
      if k = clientKey backend cl.id then some (clientRecord cl) else db.lookup k :=
    fun k => lookup_insert_eq _ _ _ _
  have hmem : clientRecord cl ∈ v := hv.mem_iff.mpr (mem_values_iff.mpr ⟨_, (hstored _).trans (if_pos rfl)⟩)
  have hunique : ∀ r ∈ v, r.id = cl.id → r = clientRecord cl := by
    intro r hr hid
    obtain ⟨k, hk⟩ := mem_values_iff.mp (hv.mem_iff.mp hr)
    rw [hstored] at hk
    split at hk
    · exact (Option.some.inj hk).symm
    · rename_i hne
      exact absurd ((hdb k r hk).trans (congrArg _ hid)) hne
  constructor
  · rintro ⟨r, hr, hid, hsame, -⟩
    rw [hunique r hr hid] at hsame
    exact sameSession_restoreClient_iff.mp hsame
  · intro hflags
    have hsame : SameSession cl (restoreClient env b (clientRecord cl)).client :=
      sameSession_restoreClient_iff.mpr hflags
    refine ⟨clientRecord cl, hmem, rfl, hsame, hsame.sameExpiry, fun hlasting => ?_⟩
    have hexpires : (restoreClient env b (clientRecord cl)).client.expires = false := hlasting
    exact get_loadClients hexpires hunique hmem

def tenSeconds : Client :=
  { id := [99]
    protocolVersion := 5
    props := { sessionExpiryInterval := 10, sessionExpiryIntervalFlag := true }
    disconnected := 100 }

def unhurried : Client :=
  { id := [98]
    username := [117]
    protocolVersion := 4
    will := { topicName := [119], payload := [1], qos := 1, flag := true, retain := true }
    props := { receiveMaximum := 1024, maximumPacketSize := 1000 } }

/-- A client of MQTT 3.1.1 comes back beside another one. -/
theorem client_restored_beside :
    let v := (values (updateClient .pebble (updateClient .pebble ∅ tenSeconds) unhurried)).reverse
    ∃ r ∈ v, r.id = [98] ∧ SameSession unhurried (restoreClient (.accepting 100) {} r).client ∧
      SameExpiry unhurried (restoreClient (.accepting 100) {} r).client ∧
      ∃ c, (loadClients (.accepting 100) {} v).get [98] = some (c, (restoreClient (.accepting 100) {} r).client) := by
  have hkeyed : ClientsKeyed .pebble (updateClient .pebble ∅ tenSeconds) := by
    intro k r hlookup
    have hstored : (updateClient .pebble ∅ tenSeconds).lookup k =
        if k = clientKey .pebble tenSeconds.id then some (clientRecord tenSeconds) else none := lookup_insert_eq _ _ _ _
    rw [hstored] at hlookup
    split at hlookup
    · cases hlookup
      assumption
    · cases hlookup
  obtain ⟨r, hr, hid, hsame, hexpiry, hloaded⟩ :=
    (@client_restored_iff .pebble _ (.accepting 100) {} unhurried _ hkeyed (List.reverse_perm _)).mpr ⟨rfl, rfl⟩
  exact ⟨r, hr, hid, hsame, hexpiry, hloaded rfl⟩

/-- After a restart the session stays, where it would have been removed. -/
theorem session_outlives :
    (Broker.clearExpiredClients
        { connections := [tenSeconds], clients := (∅ : Map Bytes Nat).insert [99] 0 } 200).get [99] = none ∧
      (((loadClients (.accepting 100) {} (values (updateClient .pebble ∅ tenSeconds))).clearExpiredClients 200).get
        [99]).isSome = true :=
  ⟨by decide, by decide⟩

end Storage
end Mqtt
