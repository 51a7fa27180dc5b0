import MqttBroker.Storage.Subscriptions
import Mathlib.Data.Nat.Digits.Defs

/-! Messages in the store. Each backend copies a packet field by field into a
record, and `ToPacket` makes a packet of it again when the server starts. The store
is a map from keys to records, which are read back in any order. -/

namespace Mqtt
open FiniteMap
namespace Storage

structure MessageProperties where
  correlationData : Bytes := []
  subscriptionIdentifier : List Int := []
  user : List UserProperty := []
  contentType : Bytes := []
  responseTopic : Bytes := []
  messageExpiryInterval : UInt32 := 0
  topicAlias : UInt16 := 0
  payloadFormat : UInt8 := 0
  payloadFormatFlag : Bool := false

structure Message where
  properties : MessageProperties
  payload : Bytes
  t : Bytes
  id : Bytes
  client : Bytes
  origin : Bytes
  topicName : Bytes
  fixedHeader : FixedHeader
  created : Int
  sent : Int := 0
  packetID : UInt16 := 0

def Message.toPacket (d : Message) : Packet :=
  let pk : Packet :=
    { fixedHeader := d.fixedHeader
      packetID := d.packetID
      topicName := d.topicName
      payload := d.payload
      origin := d.origin
      created := d.created
      properties :=
        { payloadFormat := d.properties.payloadFormat
          payloadFormatFlag := d.properties.payloadFormatFlag
          messageExpiryInterval := d.properties.messageExpiryInterval
          contentType := d.properties.contentType
          responseTopic := d.properties.responseTopic
          correlationData := d.properties.correlationData
          subscriptionIdentifier := d.properties.subscriptionIdentifier
          topicAlias := d.properties.topicAlias
          user := d.properties.user } }
  let pk := pk.copy true
  { pk with fixedHeader := { pk.fixedHeader with dup := d.fixedHeader.dup } }

/-- The properties that the hooks store; none of them stores whether there is a payload format. -/
def messageProperties (p : Properties) : MessageProperties :=
  let props := p.copy false
  { payloadFormat := props.payloadFormat
    messageExpiryInterval := props.messageExpiryInterval
    contentType := props.contentType
    responseTopic := props.responseTopic
    correlationData := props.correlationData
    subscriptionIdentifier := props.subscriptionIdentifier
    topicAlias := props.topicAlias
    user := props.user }

/-! ### Inflight messages -/

/-- `IFM`, the tag of inflight messages. -/
def inflightTag : Bytes := [73, 70, 77]

def formatID (id : UInt16) : Bytes :=
  if id = 0 then [48] else (Nat.digits 10 id.toNat).reverse.map fun d => UInt8.ofNat (48 + d)

def decimalValue (s : Bytes) : Nat := Nat.ofDigits 10 (s.map fun c => c.toNat - 48).reverse

theorem decimalValue_formatID (id : UInt16) : decimalValue (formatID id) = id.toNat := by
  unfold formatID
  split
  · rename_i h
    rw [h]
    decide
  · have hdigits : ((Nat.digits 10 id.toNat).reverse.map fun d => UInt8.ofNat (48 + d)).map (fun c => c.toNat - 48) =
        (Nat.digits 10 id.toNat).reverse := by
      rw [List.map_map]
      conv_rhs => rw [← List.map_id (Nat.digits 10 id.toNat).reverse]
      refine List.map_congr_left fun d hd => ?_
      have hlt : d < 10 := Nat.digits_lt_base (by decide) (List.mem_reverse.mp hd)
      show (UInt8.ofNat (48 + d)).toNat - 48 = d
      rw [UInt8.toNat_ofNat']
      omega
    unfold decimalValue
    rw [hdigits, List.reverse_reverse, Nat.ofDigits_digits]

def inflightKey (backend : Backend) (client : Bytes) (id : UInt16) : Bytes :=
  match backend with
  | .redis => client ++ 58 :: formatID id
  | _ => inflightTag ++ 95 :: (client ++ 58 :: formatID id)

theorem inflightKey_id {backend : Backend} {client : Bytes} {i j : UInt16}
    (h : inflightKey backend client i = inflightKey backend client j) : i = j := by
  have hcolon : client ++ 58 :: formatID i = client ++ 58 :: formatID j := by
    cases backend with
    | redis => exact h
    | _ => exact List.cons.inj (List.append_cancel_left h) |>.2
  have hformat : formatID i = formatID j := List.cons.inj (List.append_cancel_left hcolon) |>.2
  have hvalue := congrArg decimalValue hformat
  rw [decimalValue_formatID, decimalValue_formatID] at hvalue
  exact UInt16.toNat_inj.mp hvalue

/-- The packet id that `OnQosPublish` stores: bolt and redis do not store it. -/
def storedID (backend : Backend) (pk : Packet) : UInt16 :=
  match backend with
  | .badger => pk.packetID
  | .pebble => pk.packetID
  | .bolt => 0
  | .redis => 0

theorem storedID_eq_iff (backend : Backend) (pk : Packet) :
    storedID backend pk = pk.packetID ↔ backend = .badger ∨ backend = .pebble ∨ pk.packetID = 0 := by
  cases backend <;> simp [storedID, eq_comm]

theorem storedID_eq_zero {backend : Backend} {pk : Packet} (h : storedID backend pk ≠ pk.packetID) (pk' : Packet) :
    storedID backend pk' = 0 := by
  cases backend with
  | badger | pebble => exact absurd rfl h
  | bolt | redis => rfl

def qosMessage (backend : Backend) (client : Bytes) (pk : Packet) (sent : Int) : Message :=
  { id := inflightKey backend client pk.packetID
    t := inflightTag
    client := client
    origin := pk.origin
    packetID := storedID backend pk
    fixedHeader := pk.fixedHeader
    topicName := pk.topicName
    payload := pk.payload
    sent := sent
    created := pk.created
    properties := messageProperties pk.properties }

def onQosPublish (backend : Backend) (client : Bytes) (db : Map Bytes Message) (pk : Packet) (sent : Int) :
    Map Bytes Message :=
  db.insert (inflightKey backend client pk.packetID) (qosMessage backend client pk sent)

def persistInflight (backend : Backend) (client : Bytes) (pks : List Packet) : Map Bytes Message :=
  pks.foldl (fun db pk => onQosPublish backend client db pk pk.created) ∅

/-- One turn of the loop of `loadInflight`. -/
def loadMessage (b : Broker) (msg : Message) : Broker :=
  match b.get msg.client with
  | none => b
  | some (c, _) => b.on c fun s => s.onInflight fun f => f.put msg.toPacket

def loadInflight (b : Broker) (v : List Message) : Broker := v.foldl loadMessage b

variable {backend : Backend} {client : Bytes} {pks : List Packet} {b : Broker} {c : Nat} {cl : Client}
  {v : List Message} {f : Inflight}

theorem lookup_persistInflight (hids : (pks.map Packet.packetID).Nodup) (k : Bytes) (r : Message) :
    (persistInflight backend client pks).lookup k = some r ↔
      ∃ pk ∈ pks, k = inflightKey backend client pk.packetID ∧ r = qosMessage backend client pk pk.created := by
  have hlookup := lookup_foldl_insert (fun pk : Packet => inflightKey backend client pk.packetID)
    (fun pk => qosMessage backend client pk pk.created) pks ∅ k
  change (∃ pk ∈ pks, _ ∧ (persistInflight backend client pks).lookup k = _) ∨
    _ ∧ (persistInflight backend client pks).lookup k = _ at hlookup
  obtain ⟨pk, hpk, rfl, hsome⟩ | ⟨hnone, hempty⟩ := hlookup
  · rw [hsome]
    constructor
    · rintro ⟨⟩
      exact ⟨pk, hpk, rfl, rfl⟩
    · rintro ⟨pk', hpk', hkey, rfl⟩
      rw [List.inj_on_of_nodup_map hids hpk hpk' (inflightKey_id hkey)]
  · rw [hempty]
    refine iff_of_false nofun ?_
    rintro ⟨pk, hpk, rfl, -⟩
    exact hnone pk hpk rfl

theorem mem_stored (hids : (pks.map Packet.packetID).Nodup)
    (hv : v.Perm (values (persistInflight backend client pks))) (r : Message) :
    r ∈ v ↔ ∃ pk ∈ pks, r = qosMessage backend client pk pk.created := by
  rw [hv.mem_iff, mem_values_iff]
  constructor
  · rintro ⟨k, hk⟩
    obtain ⟨pk, hpk, -, hr⟩ := (lookup_persistInflight hids k r).mp hk
    exact ⟨pk, hpk, hr⟩
  · rintro ⟨pk, hpk, hr⟩
    exact ⟨_, (lookup_persistInflight hids _ r).mpr ⟨pk, hpk, rfl, hr⟩⟩

theorem get_loadInflight (hv : ∀ r ∈ v, r.client = client) (hget : b.get client = some (c, cl)) :
    (loadInflight b v).get client =
      some (c, { cl with inflight := v.foldl (fun f r => f.put r.toPacket) cl.inflight }) := by
  induction v generalizing b cl with
  | nil => exact hget
  | cons r v ih =>
    have hload : (loadMessage b r).get client = some (c, { cl with inflight := cl.inflight.put r.toPacket }) := by
      unfold loadMessage
      rw [hv r List.mem_cons_self, hget]
      exact Broker.get_on _ hget
    exact ih (fun r' hr' => hv r' (List.mem_cons_of_mem _ hr')) hload

theorem get_foldl_put (v : List Message) (f : Inflight) (id : UInt16) :
    (∃ r ∈ v, r.packetID = id ∧ (v.foldl (fun f r => f.put r.toPacket) f).get id = some r.toPacket) ∨
      (∀ r ∈ v, r.packetID ≠ id) ∧ (v.foldl (fun f r => f.put r.toPacket) f).get id = f.get id := by
  have hinternal : (v.foldl (fun f r => f.put r.toPacket) f).internal =
      v.foldl (fun m r => m.insert r.packetID r.toPacket) f.internal :=
    (List.foldl_hom Inflight.internal fun _ _ => rfl).symm
  unfold Inflight.get
  rw [hinternal]
  exact lookup_foldl_insert _ _ v f.internal id

def publishProperties (p : Properties) : Properties :=
  { payloadFormat := p.payloadFormat
    payloadFormatFlag := p.payloadFormatFlag
    messageExpiryInterval := p.messageExpiryInterval
    contentType := p.contentType
    responseTopic := p.responseTopic
    correlationData := p.correlationData
    subscriptionIdentifier := p.subscriptionIdentifier
    topicAlias := p.topicAlias
    topicAliasFlag := p.topicAliasFlag
    user := p.user }

structure Restores (pk e : Packet) : Prop where
  topicName : e.topicName = pk.topicName
  payload : e.payload = pk.payload
  origin : e.origin = pk.origin
  fixedHeader : e.fixedHeader = pk.fixedHeader
  created : e.created = pk.created
  properties : publishProperties e.properties = publishProperties pk.properties

theorem restores_iff (pk : Packet) (sent : Int) :
    Restores pk (qosMessage backend client pk sent).toPacket ↔
      pk.properties.payloadFormatFlag = false ∧ pk.properties.topicAlias = 0 ∧
      pk.properties.topicAliasFlag = false := by
  constructor
  · intro h
    have hformat := congrArg Properties.payloadFormatFlag h.properties
    have halias := congrArg Properties.topicAlias h.properties
    have hflag := congrArg Properties.topicAliasFlag h.properties
    exact ⟨hformat.symm, halias.symm, hflag.symm⟩
  · rintro ⟨hformat, halias, hflag⟩
    refine ⟨rfl, rfl, rfl, rfl, rfl, ?_⟩
    unfold publishProperties
    rw [hformat, halias, hflag]
    rfl

structure RestoresAll (pks : List Packet) (f : Inflight) : Prop where
  ids : ∀ id, (f.get id).isSome = true ↔ ∃ pk ∈ pks, pk.packetID = id
  messages : ∀ pk ∈ pks, ∃ e, f.get pk.packetID = some e ∧ Restores pk e

/-- Inflight messages survive a restart under their own ids if and only if the backend stores the ids, and
no message has a payload format or a topic alias. -/
theorem inflight_restored_iff (hids : (pks.map Packet.packetID).Nodup)
    (hv : v.Perm (values (persistInflight backend client pks))) (hget : b.get client = some (c, cl))
    (hempty : ∀ id, cl.inflight.get id = none) :
    (∃ cl', (loadInflight b v).get client = some (c, cl') ∧ RestoresAll pks cl'.inflight) ↔
      (backend = .badger ∨ backend = .pebble ∨ ∀ pk ∈ pks, pk.packetID = 0) ∧
        ∀ pk ∈ pks, pk.properties.payloadFormatFlag = false ∧ pk.properties.topicAlias = 0 ∧
          pk.properties.topicAliasFlag = false := by
  have hmem := mem_stored hids hv
  have hclient : ∀ r ∈ v, r.client = client := by
    intro r hr
    obtain ⟨pk, -, rfl⟩ := (hmem r).mp hr
    rfl
  rw [get_loadInflight hclient hget]
  generalize hg : v.foldl (fun f r => f.put r.toPacket) cl.inflight = g
  have hentries : ∀ id, (∃ pk ∈ pks, storedID backend pk = id ∧
      g.get id = some (qosMessage backend client pk pk.created).toPacket) ∨
        (∀ pk ∈ pks, storedID backend pk ≠ id) ∧ g.get id = none := by
    intro id
    rw [← hg, ← hempty id]
    obtain ⟨r, hr, hid, hgetr⟩ | ⟨hnone, hgetr⟩ := get_foldl_put v cl.inflight id
    · obtain ⟨pk, hpk, rfl⟩ := (hmem r).mp hr
      exact .inl ⟨pk, hpk, hid, hgetr⟩
    · exact .inr ⟨fun pk hpk => hnone _ ((hmem _).mpr ⟨pk, hpk, rfl⟩), hgetr⟩
  -- with their own ids the messages are apart, so that each id has its own message
  have hown : (∀ pk ∈ pks, storedID backend pk = pk.packetID) → ∀ pk ∈ pks,
      g.get pk.packetID = some (qosMessage backend client pk pk.created).toPacket := by
    intro hkept pk hpk
    obtain ⟨pk', hpk', hid, hgetg⟩ | ⟨hnone, -⟩ := hentries pk.packetID
    · have heq : pk' = pk := List.inj_on_of_nodup_map hids hpk' hpk ((hkept pk' hpk').symm.trans hid)
      rw [hgetg, heq]
    · exact absurd (hkept pk hpk) (hnone pk hpk)
  constructor
  · rintro ⟨cl', hcl', hrestores⟩
    cases hcl'
    dsimp only at hrestores
    have hkept : ∀ pk ∈ pks, storedID backend pk = pk.packetID := by
      intro pk hpk
      by_contra hlost
      have hsome := (hrestores.ids pk.packetID).mpr ⟨pk, hpk, rfl⟩
      obtain ⟨pk', -, hid, -⟩ | ⟨-, hnone⟩ := hentries pk.packetID
      · rw [storedID_eq_zero hlost pk'] at hid
        exact hlost ((storedID_eq_zero hlost pk).trans hid)
      · rw [hnone] at hsome
        cases hsome
    refine ⟨?_, fun pk hpk => ?_⟩
    · by_cases hall : ∀ pk ∈ pks, pk.packetID = 0
      · exact .inr (.inr hall)
      · obtain ⟨pk, hpk⟩ := not_forall.mp hall
        obtain ⟨hpk, hid⟩ := Classical.not_imp.mp hpk
        rcases (storedID_eq_iff backend pk).mp (hkept pk hpk) with h | h | h
        · exact .inl h
        · exact .inr (.inl h)
        · exact absurd h hid
    · obtain ⟨e, he, hrestored⟩ := hrestores.messages pk hpk
      rw [hown hkept pk hpk] at he
      cases he
      exact (restores_iff pk _).mp hrestored
  · rintro ⟨hkeeps, hplain⟩
    have hkept : ∀ pk ∈ pks, storedID backend pk = pk.packetID :=
      fun pk hpk => (storedID_eq_iff backend pk).mpr (hkeeps.imp_right fun h => h.imp_right fun h => h pk hpk)
    refine ⟨_, rfl, fun id => ?_, fun pk hpk => ⟨_, hown hkept pk hpk, (restores_iff pk _).mpr (hplain pk hpk)⟩⟩
    obtain ⟨pk, hpk, hid, hgetg⟩ | ⟨hnone, hgetg⟩ := hentries id
    · rw [hgetg]
      exact iff_of_true rfl ⟨pk, hpk, (hkept pk hpk).symm.trans hid⟩
    · rw [hgetg]
      refine iff_of_false Bool.false_ne_true ?_
      rintro ⟨pk, hpk, hid⟩
      exact hnone pk hpk ((hkept pk hpk).trans hid)

def twoMessages : List Packet :=
  [{ fixedHeader := { type := .publish, qos := 1 }, packetID := 1, topicName := [97], payload := [1] },
    { fixedHeader := { type := .publish, qos := 1 }, packetID := 2, topicName := [97], payload := [2] }]

def holding : Broker := { connections := [{}], clients := (∅ : Map Bytes Nat).insert [] 0 }

theorem two_restored_of_badger :
    ∃ cl', (loadInflight holding (values (persistInflight .badger [] twoMessages))).get [] = some (0, cl') ∧
      RestoresAll twoMessages cl'.inflight := by
  have hget : holding.get [] = some (0, {}) := rfl
  refine (inflight_restored_iff (by decide) (List.Perm.refl _) hget fun _ => rfl).mpr ⟨.inl rfl, ?_⟩
  intro pk hpk
  simp only [twoMessages, List.mem_cons, List.not_mem_nil, or_false] at hpk
  rcases hpk with rfl | rfl <;> exact ⟨rfl, rfl, rfl⟩

theorem not_restoresAll_of_lost {backend : Backend}
    (hlost : ((loadInflight holding (values (persistInflight backend [] twoMessages))).get []).map
      (fun p => (p.2.inflight.get 2).isSome) = some false) :
    ¬ ∃ cl', (loadInflight holding (values (persistInflight backend [] twoMessages))).get [] = some (0, cl') ∧
      RestoresAll twoMessages cl'.inflight := by
  rintro ⟨cl', hcl', hrestores⟩
  have hsome := (hrestores.ids 2).mpr ⟨_, List.mem_cons_of_mem _ List.mem_cons_self, rfl⟩
  rw [hcl', Option.map_some, hsome] at hlost
  cases hlost

/-- With bolt and with redis both of them come back under the id 0, as one message. -/
theorem two_collapse :
    (¬ ∃ cl', (loadInflight holding (values (persistInflight .bolt [] twoMessages))).get [] = some (0, cl') ∧
      RestoresAll twoMessages cl'.inflight) ∧
    ¬ ∃ cl', (loadInflight holding (values (persistInflight .redis [] twoMessages))).get [] = some (0, cl') ∧
      RestoresAll twoMessages cl'.inflight :=
  ⟨not_restoresAll_of_lost (by decide), not_restoresAll_of_lost (by decide)⟩

/-! ### Retained messages -/

/-- `RET`, the tag of retained messages. -/
def retainedTag : Bytes := [82, 69, 84]

def retainedKey (backend : Backend) (topic : Bytes) : Bytes :=
  match backend with
  | .redis => topic
  | _ => retainedTag ++ 95 :: topic

theorem retainedKey_topic {topic topic' : Bytes} (h : retainedKey backend topic = retainedKey backend topic') :
    topic = topic' := by
  cases backend with
  | redis => exact h
  | _ => exact List.cons.inj (List.append_cancel_left h) |>.2

def retainedMessage (backend : Backend) (client : Bytes) (pk : Packet) : Message :=
  { id := retainedKey backend pk.topicName
    t := retainedTag
    fixedHeader := pk.fixedHeader
    topicName := pk.topicName
    payload := pk.payload
    created := pk.created
    client := client
    origin := pk.origin
    properties := messageProperties pk.properties }

/-- `OnRetainMessage`, where `r` is what `RetainMessage` returned. -/
def onRetainMessage (backend : Backend) (client : Bytes) (db : Map Bytes Message) (pk : Packet) (r : Int) :
    Map Bytes Message :=
  if r = -1 then db.erase (retainedKey backend pk.topicName)
  else db.insert (retainedKey backend pk.topicName) (retainedMessage backend client pk)

def loadRetained (x : TopicsIndex) (v : List Message) : TopicsIndex :=
  v.foldl (fun x msg => (x.retainMessage msg.toPacket).2) x

def isRetainedExpired (caps : Capabilities) (now : Int) (pk : Packet) : Bool :=
  (pk.protocolVersion == 5 && 0 < pk.expiry && pk.expiry < now) ||
    (0 < caps.maximumMessageExpiryInterval && caps.maximumMessageExpiryInterval < now - pk.created)

def clearExpiredRetained (caps : Capabilities) (now : Int) (x : TopicsIndex) (e : Σ _ : Bytes, Packet) : TopicsIndex :=
  if isRetainedExpired caps now e.2 then { x with retained := x.retained.erase e.1 } else x

def clearExpiredRetainedMessages (caps : Capabilities) (now : Int) (x : TopicsIndex) : TopicsIndex :=
  x.retained.entries.foldl (clearExpiredRetained caps now) x

variable {x y : TopicsIndex} {db : Map Bytes Message} {pk : Packet} {caps : Capabilities} {now : Int} {topic : Bytes}

theorem lookup_loadRetained {r : Message} (hr : r ∈ v) (hpayload : r.payload.length > 0)
    (hone : ∀ r' ∈ v, r'.topicName = r.topicName → r' = r) (x : TopicsIndex) :
    (loadRetained x v).retained.lookup r.topicName = some r.toPacket := by
  refine foldl_of_mem (P := fun x : TopicsIndex => x.retained.lookup r.topicName = some r.toPacket) hr (fun x => ?_)
    (fun x r' hr' h => ?_) x
  · rw [TopicsIndex.lookup_retainMessage]
    exact (if_pos rfl).trans (if_pos hpayload)
  · rw [TopicsIndex.lookup_retainMessage]
    split
    · rename_i heq
      rw [hone r' hr' heq.symm]
      exact if_pos hpayload
    · exact h

theorem lookup_clearExpiredRetained (caps : Capabilities) (now : Int) (x : TopicsIndex) (e : Σ _ : Bytes, Packet)
    (topic : Bytes) : (clearExpiredRetained caps now x e).retained.lookup topic =
      if isRetainedExpired caps now e.2 = true ∧ topic = e.1 then none else x.retained.lookup topic := by
  unfold clearExpiredRetained
  by_cases hexp : isRetainedExpired caps now e.2 = true
  · rw [if_pos hexp]
    simp only [hexp, true_and]
    exact lookup_erase_eq _ _ _
  · rw [if_neg hexp, if_neg fun h => hexp h.1]

theorem lookup_clearExpiredRetainedMessages (caps : Capabilities) (now : Int)
    (hx : x.retained.lookup topic = some pk) :
    (clearExpiredRetainedMessages caps now x).retained.lookup topic =
      if isRetainedExpired caps now pk = true then none else some pk := by
  have hentry : ∀ e ∈ x.retained.entries, topic = e.1 → e.2 = pk := by
    rintro ⟨topic', pk'⟩ he rfl
    have hlookup : x.retained.lookup topic = some pk' := AList.mem_lookup_iff.mpr he
    exact Option.some.inj (hlookup.symm.trans hx)
  have hmem : (⟨topic, pk⟩ : Σ _ : Bytes, Packet) ∈ x.retained.entries := AList.mem_lookup_iff.mp hx
  unfold clearExpiredRetainedMessages
  by_cases hexp : isRetainedExpired caps now pk = true
  · rw [if_pos hexp]
    refine foldl_of_mem (P := fun y : TopicsIndex => y.retained.lookup topic = none) hmem (fun y => ?_)
      (fun y e _ h => ?_) x
    · rw [lookup_clearExpiredRetained]
      exact if_pos ⟨hexp, rfl⟩
    · rw [lookup_clearExpiredRetained, h]
      exact ite_self none
  · rw [if_neg hexp]
    refine List.foldlRecOn (motive := fun y : TopicsIndex => y.retained.lookup topic = some pk) _ _ hx ?_
    intro y hy e he
    rw [lookup_clearExpiredRetained, if_neg]
    · exact hy
    · rintro ⟨hexp', heq⟩
      rw [hentry e he heq] at hexp'
      exact hexp hexp'

/-! ### What comes back -/

def payloadFormat (p : Properties) : Option UInt8 := if p.payloadFormatFlag then some p.payloadFormat else none

structure SameContent (pk e : Packet) : Prop where
  payload : e.payload = pk.payload
  qos : e.fixedHeader.qos = pk.fixedHeader.qos
  retain : e.fixedHeader.retain = pk.fixedHeader.retain
  user : e.properties.user = pk.properties.user
  contentType : e.properties.contentType = pk.properties.contentType
  responseTopic : e.properties.responseTopic = pk.properties.responseTopic
  correlationData : e.properties.correlationData = pk.properties.correlationData
  payloadFormat : payloadFormat e.properties = payloadFormat pk.properties

theorem sameContent_iff (pk : Packet) :
    SameContent (pk.copy false) (retainedMessage backend client pk).toPacket ↔
      pk.properties.payloadFormatFlag = false := by
  constructor
  · intro h
    have hformat : none = if pk.properties.payloadFormatFlag then some pk.properties.payloadFormat else none :=
      h.payloadFormat
    cases hflag : pk.properties.payloadFormatFlag with
    | false => rfl
    | true =>
      rw [hflag] at hformat
      cases hformat
  · intro hflag
    refine ⟨rfl, rfl, rfl, rfl, rfl, rfl, rfl, ?_⟩
    show none = if pk.properties.payloadFormatFlag then some pk.properties.payloadFormat else none
    rw [hflag]
    rfl

def isTooOld (caps : Capabilities) (now : Int) (pk : Packet) : Prop :=
  0 < caps.maximumMessageExpiryInterval ∧ caps.maximumMessageExpiryInterval < now - pk.created

theorem isRetainedExpired_restored (pk : Packet) :
    isRetainedExpired caps now (retainedMessage backend client pk).toPacket = true ↔ isTooOld caps now pk := by
  unfold isRetainedExpired isTooOld
  have hversion : (retainedMessage backend client pk).toPacket.protocolVersion = 0 := rfl
  have hcreated : (retainedMessage backend client pk).toPacket.created = pk.created := rfl
  rw [hversion, hcreated]
  simp

theorem isRetainedExpired_copy (hversion : pk.protocolVersion = 5) :
    isRetainedExpired caps now (pk.copy false) = true ↔ (0 < pk.expiry ∧ pk.expiry < now) ∨ isTooOld caps now pk := by
  unfold isRetainedExpired isTooOld
  have hcopy : (pk.copy false).protocolVersion = 5 := hversion
  have hexpiry : (pk.copy false).expiry = pk.expiry := rfl
  have hcreated : (pk.copy false).created = pk.created := rfl
  rw [hcopy, hexpiry, hcreated]
  simp

def Keyed (backend : Backend) (db : Map Bytes Message) : Prop :=
  ∀ k r, db.lookup k = some r → k = retainedKey backend r.topicName

/-- A retained message of an MQTT 5 client comes back as it was, and expires when it would have, if and only
if it has no payload format and is not past an expiry of its own that came before the server's. -/
theorem retained_restored_iff (hdb : Keyed backend db) (hversion : pk.protocolVersion = 5)
    (hpayload : pk.payload.length > 0)
    (hv : v.Perm (values (onRetainMessage backend client db pk (x.retainMessage (pk.copy false)).1))) :
    (∃ e, (loadRetained y v).retained.lookup pk.topicName = some e ∧ SameContent (pk.copy false) e ∧
        ((clearExpiredRetainedMessages caps now (loadRetained y v)).retained.lookup pk.topicName = none ↔
          (clearExpiredRetainedMessages caps now (x.retainMessage (pk.copy false)).2).retained.lookup pk.topicName =
            none)) ↔
      pk.properties.payloadFormatFlag = false ∧ (0 < pk.expiry ∧ pk.expiry < now → isTooOld caps now pk) := by
  have hretained : (x.retainMessage (pk.copy false)).2.retained.lookup pk.topicName = some (pk.copy false) :=
    (TopicsIndex.lookup_retainMessage _ _ _).trans ((if_pos rfl).trans (if_pos hpayload))
  have hone : (x.retainMessage (pk.copy false)).1 = 1 := by
    unfold TopicsIndex.retainMessage
    exact congrArg Prod.fst (if_pos hpayload)
  rw [hone] at hv
  have hstored : ∀ k, (onRetainMessage backend client db pk 1).lookup k =
      if k = retainedKey backend pk.topicName then some (retainedMessage backend client pk) else db.lookup k := by
    intro k
    unfold onRetainMessage
    rw [if_neg (by decide)]
    exact lookup_insert_eq _ _ _ _
  have hmem : retainedMessage backend client pk ∈ v :=
    hv.mem_iff.mpr (mem_values_iff.mpr ⟨_, (hstored _).trans (if_pos rfl)⟩)
  have hunique : ∀ r ∈ v, r.topicName = (retainedMessage backend client pk).topicName →
      r = retainedMessage backend client pk := by
    intro r hr htopic
    obtain ⟨k, hk⟩ := mem_values_iff.mp (hv.mem_iff.mp hr)
    rw [hstored] at hk
    split at hk
    · exact (Option.some.inj hk).symm
    · rename_i hne
      refine absurd ?_ hne
      rw [hdb k r hk, htopic]
      rfl
  have hloaded : (loadRetained y v).retained.lookup pk.topicName = some (retainedMessage backend client pk).toPacket :=
    lookup_loadRetained hmem hpayload hunique y
  have hafter := lookup_clearExpiredRetainedMessages caps now hloaded
  have hbefore := lookup_clearExpiredRetainedMessages caps now hretained
  have hdeleted : ∀ {test : Bool} {p : Packet}, ((if test = true then none else some p) = none) ↔ test = true := by
    intro test p
    cases test <;> simp
  have hdecision : ((clearExpiredRetainedMessages caps now (loadRetained y v)).retained.lookup pk.topicName = none ↔
      (clearExpiredRetainedMessages caps now (x.retainMessage (pk.copy false)).2).retained.lookup pk.topicName = none) ↔
        (0 < pk.expiry ∧ pk.expiry < now → isTooOld caps now pk) := by
    rw [hafter, hbefore, hdeleted, hdeleted, isRetainedExpired_restored, isRetainedExpired_copy hversion]
    constructor
    · intro h hpast
      exact h.mpr (.inl hpast)
    · intro h
      exact ⟨.inr, fun hor => hor.elim h id⟩
  rw [hdecision]
  constructor
  · rintro ⟨e, he, hcontent, hexpiry⟩
    rw [hloaded] at he
    cases he
    exact ⟨(sameContent_iff pk).mp hcontent, hexpiry⟩
  · rintro ⟨hflag, hexpiry⟩
    exact ⟨_, hloaded, (sameContent_iff pk).mpr hflag, hexpiry⟩

def shortLived (p : Properties) : Packet :=
  { fixedHeader := { type := .publish, retain := true }, topicName := [97], payload := [1],
    created := 100, expiry := 110
    protocolVersion := 5, properties := p }

def restarted (backend : Backend) (pk : Packet) : TopicsIndex :=
  loadRetained .new (values (onRetainMessage backend [99] ∅ pk 1))

theorem retained_restored_of_fresh :
    ∃ e, (restarted .bolt (shortLived {})).retained.lookup [97] = some e ∧
      SameContent ((shortLived {}).copy false) e := by
  have hplain : (shortLived {}).properties.payloadFormatFlag = false ∧
      (0 < (shortLived {}).expiry ∧ (shortLived {}).expiry < 105 → isTooOld {} 105 (shortLived {})) :=
    ⟨rfl, fun h => absurd h.2 (by decide)⟩
  have hkeyed : Keyed .bolt ∅ := by
    intro k r h
    rw [AList.lookup_empty] at h
    cases h
  have hrestored := @retained_restored_iff .bolt [99] _ .new .new ∅ (shortLived {}) {} 105 hkeyed rfl (by decide)
    (List.Perm.refl _)
  obtain ⟨e, he, hcontent, -⟩ := hrestored.mpr hplain
  exact ⟨e, he, hcontent⟩

/-- With pebble a retained message that has expired stays after a restart, and one with a payload format
loses it. -/
theorem retained_outlives :
    ((clearExpiredRetainedMessages {} 120 (restarted .pebble (shortLived {}))).retained.lookup [97]).isSome = true ∧
      (clearExpiredRetainedMessages {} 120
        (TopicsIndex.new.retainMessage ((shortLived {}).copy false)).2).retained.lookup
        [97] = none ∧
      ((restarted .pebble (shortLived { payloadFormat := 1, payloadFormatFlag := true })).retained.lookup [97]).map
        (fun e => payloadFormat e.properties) = some none ∧
      payloadFormat (shortLived { payloadFormat := 1, payloadFormatFlag := true }).properties = some 1 :=
  ⟨by decide, rfl, by decide, rfl⟩

end Storage
end Mqtt
