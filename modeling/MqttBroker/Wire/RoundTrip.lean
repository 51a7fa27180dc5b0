import MqttBroker.Wire.PropertyBlock

/-! What is encoded is decoded again. A packet is compared with what its encoding
carries: the fields of its type, its flags and its version, and the properties that
`Properties.Encode` writes. -/

namespace Mqtt
open Calls

/-! ### The fixed header -/

theorem le_three_cases {b : UInt8} (h : b ≤ 3) : b = 0 ∨ b = 1 ∨ b = 2 ∨ b = 3 := by
  have hle : b.toNat ≤ 3 := UInt8.le_iff_toNat_le.mp h
  have hcases : b.toNat = 0 ∨ b.toNat = 1 ∨ b.toNat = 2 ∨ b.toNat = 3 := by omega
  rcases hcases with h | h | h | h
  · exact .inl (UInt8.toNat_inj.mp h)
  · exact .inr (.inl (UInt8.toNat_inj.mp h))
  · exact .inr (.inr (.inl (UInt8.toNat_inj.mp h)))
  · exact .inr (.inr (.inr (UInt8.toNat_inj.mp h)))

def codecTypes : List PacketType :=
  [.connect, .connack, .publish, .subscribe, .suback, .unsubscribe, .unsuback, .disconnect, .auth]

theorem FixedHeader.decode_firstByte {fh fh' : FixedHeader} (htype : fh.type ∈ codecTypes) (hqos : fh.qos ≤ 2)
    (h : FixedHeader.decode {} fh.firstByte = .ok fh') : fh' = { fh with remaining := 0 } := by
  obtain ⟨remaining, type, qos, dup, retain⟩ := fh
  have hall : ∀ type ∈ codecTypes, ∀ qos ∈ [(0 : UInt8), 1, 2], ∀ dup retain : Bool,
      (match FixedHeader.decode {} ({ type, qos, dup, retain } : FixedHeader).firstByte with
        | .ok fh' => decide (fh' = { type, qos, dup, retain })
        | _ => true) = true := by
    decide +kernel
  have hmem : qos ∈ [(0 : UInt8), 1, 2] := by
    rcases le_two_cases hqos with rfl | rfl | rfl <;> decide
  have hdecoded := hall type htype qos hmem dup retain
  have hsame : FixedHeader.decode {} ({ type, qos, dup, retain } : FixedHeader).firstByte = .ok fh' := h
  rw [hsame] at hdecoded
  exact of_decide_eq_true hdecoded

/-! ### What a packet carries -/

namespace Packet

def sentProperties (pk : Packet) (n : Nat) : Properties :=
  if pk.protocolVersion = 5 then pk.properties.emitted pk.fixedHeader.type pk.mods n else {}

def sentConnect (pk : Packet) : ConnectParams :=
  { protocolName := pk.connect.protocolName
    keepalive := pk.connect.keepalive
    clientIdentifier := pk.connect.clientIdentifier
    clean := pk.connect.clean
    willFlag := pk.connect.willFlag
    willQos := pk.connect.willQos
    willRetain := pk.connect.willRetain
    passwordFlag := pk.connect.passwordFlag
    usernameFlag := pk.connect.usernameFlag
    willProperties :=
      if pk.connect.willFlag && pk.protocolVersion == 5 then
        pk.connect.willProperties.emitted .willProperties pk.mods 0
      else {}
    willTopic := if pk.connect.willFlag then pk.connect.willTopic else []
    willPayload := if pk.connect.willFlag then pk.connect.willPayload else []
    username := if pk.connect.usernameFlag then pk.connect.username else []
    password := if pk.connect.passwordFlag then pk.connect.password else [] }

def sentFilter (pk : Packet) (n : Nat) (s : Subscription) : Subscription :=
  { filter := s.filter
    qos := s.qos
    identifier := (pk.sentProperties n).subscriptionIdentifier.headD 0
    noLocal := pk.protocolVersion == 5 && s.noLocal
    retainAsPublished := pk.protocolVersion == 5 && s.retainAsPublished
    retainHandling := if pk.protocolVersion = 5 then s.retainHandling else 0 }

def transmitted (pk : Packet) : Packet :=
  let base : Packet := { fixedHeader := pk.fixedHeader, mods := pk.mods, protocolVersion := pk.protocolVersion }
  match pk.fixedHeader.type with
  | .connect => { base with connect := pk.sentConnect, properties := pk.sentProperties 0 }
  | .connack =>
    { base with
      sessionPresent := pk.sessionPresent, reasonCode := pk.reasonCode, properties := pk.sentProperties 4 }
  | .publish =>
    { base with
      topicName := pk.topicName
      packetID := if pk.fixedHeader.qos > 0 then pk.packetID else 0
      properties := pk.sentProperties (pk.publishHead.length + pk.payload.length)
      payload := pk.payload }
  | .subscribe =>
    let n := 2 + (pk.filters.flatMap pk.encodeFilter).length
    { base with
      packetID := pk.packetID, properties := pk.sentProperties n, filters := pk.filters.map (pk.sentFilter n) }
  | .suback =>
    { base with
      packetID := pk.packetID
      properties := pk.sentProperties (2 + pk.reasonCodes.length)
      reasonCodes := pk.reasonCodes }
  | .unsubscribe =>
    { base with
      packetID := pk.packetID
      properties := pk.sentProperties (2 + (pk.filters.flatMap fun sub => encodeString sub.filter).length)
      filters := pk.filters.map fun sub => { filter := sub.filter } }
  | .unsuback =>
    { base with
      packetID := pk.packetID
      properties := pk.sentProperties 2
      reasonCodes := if pk.protocolVersion = 5 then pk.reasonCodes else [] }
  | .disconnect =>
    { base with
      reasonCode := if pk.protocolVersion = 5 then pk.reasonCode else 0
      properties := pk.sentProperties 1 }
  | .auth =>
    { base with
      reasonCode := pk.reasonCode, properties := pk.properties.emitted pk.fixedHeader.type pk.mods 1 }
  | _ => base

def body (pk : Packet) : Bytes :=
  match pk.fixedHeader.type with
  | .connect => pk.connectBody
  | .connack => pk.connackBody
  | .publish => pk.publishBody
  | .subscribe => pk.subscribeBody
  | .suback => pk.subackBody
  | .unsubscribe => pk.unsubscribeBody
  | .unsuback => pk.unsubackBody
  | .disconnect => pk.disconnectBody
  | .auth => pk.authBody
  | _ => []

def texts (pk : Packet) : List Bytes :=
  [pk.topicName, pk.connect.clientIdentifier, pk.connect.willTopic] ++ pk.filters.map Subscription.filter ++
    pk.properties.texts ++ pk.connect.willProperties.texts

def byteFields (pk : Packet) : List Bytes :=
  [pk.connect.protocolName, pk.connect.willPayload, pk.connect.username, pk.connect.password] ++
    pk.properties.byteFields ++ pk.connect.willProperties.byteFields

/-- Flags, fields and lengths are within the limits of the format, and nothing is set that is not carried. -/
structure Encodable (pk : Packet) : Prop where
  type : pk.fixedHeader.type ∈ codecTypes
  flags : ∃ fh, FixedHeader.decode {} pk.fixedHeader.firstByte = .ok fh
  qos : pk.fixedHeader.qos ≤ 2
  willQos : pk.connect.willQos ≤ 2
  options : ∀ s ∈ pk.filters, s.qos ≤ 2 ∧ s.retainHandling ≤ 3
  texts : ∀ s ∈ pk.texts, IsText s
  byteFields : ∀ b ∈ pk.byteFields, b.length ≤ 65535
  body : pk.body.length ≤ 268435455
  carried : pk.transmitted = pk

/-! ### The fields of a body -/

variable {α : Type} {field bytes : Bytes} {s : Subscription}

theorem orElse_of_ok {x : Result α} {a : α} {c : Code} (h : x = .ok a) : orElse x c = .ok a := by
  rw [h, orElse, Outcome.mapErr_ok]

theorem orWrap_of_ok {x : Result α} {a : α} {c : Code} (h : x = .ok a) : orWrap x c = .ok a := by
  rw [h, orWrap, Outcome.mapErr_ok]

theorem byteAt_of_leading {v : UInt8} {buf : Bytes} {off : Nat} (hpre : [v] <+: buf.drop off) :
    off < buf.length ∧ byteAt buf off = .ok v := by
  obtain ⟨rest, hrest⟩ := hpre
  have hlt : off < buf.length := by
    have hlen := congrArg List.length hrest
    rw [List.length_append, List.length_drop, List.length_singleton] at hlen
    omega
  have hget : buf[off] = v := by
    have hdrop := List.drop_eq_getElem_cons hlt
    rw [← hrest] at hdrop
    exact (List.cons.inj hdrop).1.symm
  refine ⟨hlt, ?_⟩
  rw [byteAt, index_eq_ok hlt, hget]

theorem reads_bool (b : Bool) : Reader.Reads decodeByteBool b [encodeBool b] := by
  refine ⟨fun {buf off} hpre => ?_⟩
  obtain ⟨hlt, hbyte⟩ := byteAt_of_leading hpre
  rw [decodeByteBool, if_neg (Nat.not_le.mpr hlt), hbyte]
  cases b <;> rfl

theorem optional_field {b : Bool} {c : Prop} [Decidable c] (hb : b = true ↔ c) {r : Result (α × Nat)}
    {v : α} (keep : α) {off : Nat} (hread : c → r = .ok (v, off + field.length)) :
    optional b r keep off = .ok (if c then v else keep, off + (if c then field else []).length) := by
  unfold optional
  by_cases hc : c
  · rw [if_pos (hb.mpr hc), if_pos hc, if_pos hc]
    exact hread hc
  · rw [if_neg (fun h => hc (hb.mp h)), if_neg hc, if_neg hc]
    rfl

theorem sliceFrom_last {buf : Bytes} {off : Nat} (hpre : field <+: buf.drop off)
    (hlen : off + field.length = buf.length) : (sliceFrom buf off : Result Bytes) = .ok field := by
  have hle : off ≤ buf.length := by omega
  rw [sliceFrom_eq_ok hle]
  have hsame : field = buf.drop off := by
    apply hpre.eq_of_length
    rw [List.length_drop]
    omega
  rw [← hsame]

variable {pk : Packet} {p : Properties} {pkt : PacketType} {mods : Mods} {buf : Bytes} {k n off : Nat}

theorem block_lt (p : Properties) (pkt : PacketType) (mods : Mods) (k : Nat) :
    (p.block pkt mods k).length < (p.encode pkt mods k).length := by
  rw [Properties.encode_eq, List.length_append]
  have hpos := encodeLength_length_pos (p.block pkt mods k).length
  omega

theorem decode_at (hp : p.Writable pkt) (hlen : buf.length ≤ 268435455)
    (hpre : p.encode pkt mods k <+: buf.drop off) : off ≤ buf.length ∧ Properties.decode {} pkt (buf.drop off) =
      .ok (p.emitted pkt mods k, (p.encode pkt mods k).length) := by
  obtain ⟨rest, hrest⟩ := hpre
  have htotal := congrArg List.length hrest
  rw [List.length_append, List.length_drop] at htotal
  have hblock := block_lt p pkt mods k
  refine ⟨by omega, ?_⟩
  rw [← hrest]
  exact Properties.decode_encode hp (by omega) rest

theorem decodePropertiesAt_eq (hp : p.Writable pkt) (hlen : buf.length ≤ 268435455)
    (hpre : p.encode pkt mods k <+: buf.drop off) :
    decodePropertiesAt {} pkt buf off = .ok (p.emitted pkt mods k, off + (p.encode pkt mods k).length) := by
  obtain ⟨hle, hdecode⟩ := decode_at hp hlen hpre
  unfold decodePropertiesAt
  rw [sliceFrom_eq_ok hle, Outcome.ok_bind, hdecode]
  rfl

theorem properties_at (hp : pk.properties.Writable pk.fixedHeader.type) (hlen : buf.length ≤ 268435455)
    (hpre : pk.encodeProperties k <+: buf.drop off) :
    optional (pk.protocolVersion == 5) (decodePropertiesAt {} pk.fixedHeader.type buf off) {} off =
      .ok (pk.sentProperties k, off + (pk.encodeProperties k).length) := by
  refine optional_field beq_iff_eq _ fun hversion => decodePropertiesAt_eq hp hlen ?_
  rwa [encodeProperties, if_pos hversion] at hpre

def blank (pk : Packet) (n : Nat) : Packet :=
  { protocolVersion := pk.protocolVersion, fixedHeader := { pk.fixedHeader with remaining := n } }

def received (pk : Packet) (n : Nat) : Packet :=
  { pk with mods := {}, fixedHeader := { pk.fixedHeader with remaining := n } }

/-! ### Filters -/

/-- A loop that appends one entry at a time, up to the end of the buffer, reads the entries the buffer is made of. -/
theorem readEntries {loop : List Subscription → Nat → Result (List Subscription)} {enc : Subscription → Bytes}
    {sent : Subscription → Subscription} (hend : ∀ acc, loop acc buf.length = .ok acc)
    (hpos : ∀ s, 0 < (enc s).length) (subs acc : List Subscription) (off : Nat)
    (hstep : ∀ s ∈ subs, ∀ acc off, off < buf.length → enc s <+: buf.drop off →
      loop acc off = loop (acc ++ [sent s]) (off + (enc s).length))
    (hpre : subs.flatMap enc <+: buf.drop off) (hlen : off + (subs.flatMap enc).length = buf.length) :
    loop acc off = .ok (acc ++ subs.map sent) := by
  induction subs generalizing acc off with
  | nil =>
    have hoff : off = buf.length := hlen
    rw [hoff, hend, List.map_nil, List.append_nil]
  | cons s subs ih =>
    rw [List.flatMap_cons] at hpre hlen
    obtain ⟨hfirst, hrest⟩ := append_prefix_drop.mp hpre
    have hmore := hpos s
    rw [List.length_append] at hlen
    rw [hstep s List.mem_cons_self acc off (by omega) hfirst,
      ih _ _ (fun t ht => hstep t (List.mem_cons_of_mem _ ht)) hrest (by omega), List.map_cons, List.append_assoc]
    rfl

theorem unsubscribeLoop_body (subs : List Subscription) (off : Nat)
    (htexts : ∀ s ∈ subs, IsText s.filter) (hpre : subs.flatMap (fun s => encodeString s.filter) <+: buf.drop off)
    (hlen : off + (subs.flatMap fun s => encodeString s.filter).length = buf.length) :
    unsubscribeLoop buf [] off = .ok (subs.map fun s => { filter := s.filter }) := by
  refine readEntries ?_ ?_ subs [] off ?_ hpre hlen
  · intro acc
    rw [unsubscribeLoop, if_neg (Nat.lt_irrefl _)]
  · exact fun _ => Nat.succ_pos _
  · intro s hs acc off hmore hfirst
    have hread := orWrap_of_ok (c := .malformedTopic) ((reads_string (htexts s hs)).eq_ok hfirst)
    rw [unsubscribeLoop, if_pos hmore]
    split <;> rename_i heq <;> rw [hread] at heq <;> cases heq
    rfl

theorem decode_options (filter : Bytes) (hqos : s.qos ≤ 2) (hretain : s.retainHandling ≤ 3) :
    Subscription.decode { filter } s.encode =
      { filter, qos := s.qos, noLocal := s.noLocal, retainAsPublished := s.retainAsPublished,
        retainHandling := s.retainHandling } := by
  have hall : ∀ qos ∈ [(0 : UInt8), 1, 2], ∀ retain ∈ [(0 : UInt8), 1, 2, 3], ∀ noLocal published : Bool,
      let b := ({ qos, noLocal, retainAsPublished := published, retainHandling := retain } : Subscription).encode
      b &&& 3 = qos ∧ bit b 2 = noLocal ∧ bit b 3 = published ∧ (3 : UInt8) &&& (b >>> 4) = retain := by
    decide +kernel
  have hmem : s.qos ∈ [(0 : UInt8), 1, 2] := by
    rcases le_two_cases hqos with h | h | h <;> rw [h] <;> decide
  have hmem' : s.retainHandling ∈ [(0 : UInt8), 1, 2, 3] := by
    rcases le_three_cases hretain with h | h | h | h <;> rw [h] <;> decide
  obtain ⟨h0, h2, h3, h4⟩ := hall _ hmem _ hmem' s.noLocal s.retainAsPublished
  have hsame : s.encode = Subscription.encode
      { qos := s.qos, noLocal := s.noLocal, retainAsPublished := s.retainAsPublished,
        retainHandling := s.retainHandling } := rfl
  rw [Subscription.decode, hsame, h0, h2, h3, h4]

theorem decodeFilter_body {q : Packet} (hversion : q.protocolVersion = pk.protocolVersion)
    (hproperties : q.properties = pk.sentProperties n) (htext : IsText s.filter)
    (hoptions : s.qos ≤ 2 ∧ s.retainHandling ≤ 3) (hpre : pk.encodeFilter s <+: buf.drop off) :
    q.decodeFilter buf off = .ok (pk.sentFilter n s, off + (pk.encodeFilter s).length) := by
  obtain ⟨hfilter, hbyte⟩ := append_prefix_drop.mp hpre
  have hlow : ¬s.qos > 2 := UInt8.not_lt.mpr hoptions.1
  have hsize : off + (pk.encodeFilter s).length = off + (encodeString s.filter).length + 1 := by
    rw [encodeFilter, List.length_append, List.length_singleton, Nat.add_assoc]
  unfold decodeFilter
  refine (Outcome.bind_of_ok (orElse_of_ok ((reads_string htext).eq_ok hfilter))).trans ?_
  rw [hsize, sentFilter, ← hproperties, ← hversion]
  rw [← hversion] at hbyte
  by_cases hfive : q.protocolVersion = 5
  · rw [if_pos hfive] at hbyte
    have hdecoded : q.decodeOptions s.filter buf (off + (encodeString s.filter).length) = .ok
        ({ filter := s.filter, qos := s.qos, noLocal := s.noLocal, retainAsPublished := s.retainAsPublished,
           retainHandling := s.retainHandling }, off + (encodeString s.filter).length + 1) := by
      rw [decodeOptions, if_pos hfive, (byteAt_of_leading hbyte).2, Outcome.ok_bind,
        decode_options s.filter hoptions.1 hoptions.2]
      rfl
    refine (Outcome.bind_of_ok hdecoded).trans ?_
    refine (if_neg hlow).trans ?_
    rw [hfive]
    rfl
  · rw [if_neg hfive] at hbyte
    have hdecoded : q.decodeOptions s.filter buf (off + (encodeString s.filter).length) = .ok
        ({ filter := s.filter, qos := s.qos }, off + (encodeString s.filter).length + 1) := by
      rw [decodeOptions, if_neg hfive]
      exact Outcome.bind_of_ok (orElse_of_ok ((reads_byte _).eq_ok hbyte))
    refine (Outcome.bind_of_ok hdecoded).trans ?_
    refine (if_neg hlow).trans ?_
    rw [beq_eq_false_iff_ne.mpr hfive, if_neg hfive]
    rfl

theorem subscribeLoop_body {q : Packet} (hversion : q.protocolVersion = pk.protocolVersion)
    (hproperties : q.properties = pk.sentProperties n) (subs : List Subscription) (off : Nat)
    (htexts : ∀ s ∈ subs, IsText s.filter) (hoptions : ∀ s ∈ subs, s.qos ≤ 2 ∧ s.retainHandling ≤ 3)
    (hpre : subs.flatMap pk.encodeFilter <+: buf.drop off)
    (hlen : off + (subs.flatMap pk.encodeFilter).length = buf.length) :
    q.subscribeLoop buf [] off = .ok (subs.map (pk.sentFilter n)) := by
  refine readEntries ?_ ?_ subs [] off ?_ hpre hlen
  · intro acc
    rw [subscribeLoop, if_neg (Nat.lt_irrefl _)]
  · exact fun _ => Nat.succ_pos _
  · intro s hs acc off hmore hfirst
    exact subscribeLoop_of_filter hmore (decodeFilter_body hversion hproperties (htexts s hs) (hoptions s hs) hfirst)

theorem numbered_at {rest : Bytes} (hp : pk.properties.Writable pk.fixedHeader.type)
    (hbuf : buf = encodeUint16 pk.packetID ++ pk.encodeProperties k ++ rest) (hlen : buf.length ≤ 268435455) :
    decodeUint16 buf 0 = .ok (pk.packetID, 2) ∧
      optional (pk.protocolVersion == 5) (decodePropertiesAt {} pk.fixedHeader.type buf 2) {} 2 =
        .ok (pk.sentProperties k, 2 + (pk.encodeProperties k).length) ∧
      rest <+: buf.drop (2 + (pk.encodeProperties k).length) ∧
      2 + (pk.encodeProperties k).length + rest.length = buf.length := by
  have hbody : encodeUint16 pk.packetID ++ (pk.encodeProperties k ++ rest) <+: buf.drop 0 := by
    rw [hbuf, ← List.append_assoc]
    exact List.prefix_rfl
  obtain ⟨hid, hbody⟩ := append_prefix_drop.mp hbody
  obtain ⟨hproperties, hrest⟩ := append_prefix_drop.mp hbody
  refine ⟨(reads_uint16 _).eq_ok hid, properties_at hp hlen hproperties, hrest, ?_⟩
  rw [hbuf, List.length_append, List.length_append]
  rfl

section Bodies
variable (hp : pk.properties.Writable pk.fixedHeader.type)
include hp

theorem connackDecode_body (hlen : pk.connackBody.length ≤ 268435455) :
    (pk.blank n).connackDecode pk.connackBody = .ok { pk.blank n with
      sessionPresent := pk.sessionPresent, reasonCode := pk.reasonCode, properties := pk.sentProperties 4 } := by
  have hbody : [encodeBool pk.sessionPresent] ++ ([pk.reasonCode] ++ pk.encodeProperties 4) <+:
      pk.connackBody.drop 0 := by
    rw [← List.append_assoc]
    exact List.prefix_rfl
  obtain ⟨hsession, hbody⟩ := append_prefix_drop.mp hbody
  obtain ⟨hreason, hproperties⟩ := append_prefix_drop.mp hbody
  unfold connackDecode
  refine (Outcome.bind_of_ok (orWrap_of_ok ((reads_bool _).eq_ok hsession))).trans ?_
  refine (Outcome.bind_of_ok (orWrap_of_ok ((reads_byte _).eq_ok hreason))).trans ?_
  exact Outcome.bind_of_ok (properties_at hp hlen hproperties)

theorem authDecode_body (hlen : pk.authBody.length ≤ 268435455) :
    (pk.blank n).authDecode pk.authBody = .ok { pk.blank n with
      reasonCode := pk.reasonCode, properties := pk.properties.emitted pk.fixedHeader.type pk.mods 1 } := by
  have hbody : [pk.reasonCode] ++ pk.properties.encode pk.fixedHeader.type pk.mods 1 <+: pk.authBody.drop 0 :=
    List.prefix_rfl
  obtain ⟨hreason, hproperties⟩ := append_prefix_drop.mp hbody
  unfold authDecode
  refine (Outcome.bind_of_ok (orWrap_of_ok ((reads_byte _).eq_ok hreason))).trans ?_
  exact Outcome.bind_of_ok (decodePropertiesAt_eq hp hlen hproperties)

theorem subackDecode_body (hlen : pk.subackBody.length ≤ 268435455) :
    (pk.blank n).subackDecode pk.subackBody = .ok { pk.blank n with
      packetID := pk.packetID
      properties := pk.sentProperties (2 + pk.reasonCodes.length)
      reasonCodes := pk.reasonCodes } := by
  obtain ⟨hid, hproperties, hcodes, hend⟩ := numbered_at hp rfl hlen
  unfold subackDecode
  refine (Outcome.bind_of_ok (orWrap_of_ok hid)).trans ?_
  refine (Outcome.bind_of_ok hproperties).trans ?_
  exact Outcome.bind_of_ok (sliceFrom_last hcodes hend)

theorem unsubackDecode_body (hlen : pk.unsubackBody.length ≤ 268435455) :
    (pk.blank n).unsubackDecode pk.unsubackBody = .ok { pk.blank n with
      packetID := pk.packetID
      properties := pk.sentProperties 2
      reasonCodes := if pk.protocolVersion = 5 then pk.reasonCodes else [] } := by
  obtain ⟨hid, hblock, hcodes, hend⟩ := numbered_at hp rfl hlen
  unfold unsubackDecode
  refine (Outcome.bind_of_ok (orWrap_of_ok hid)).trans ?_
  by_cases hversion : pk.protocolVersion = 5
  · unfold optional at hblock
    rw [if_pos (beq_iff_eq.mpr hversion)] at hblock
    refine (if_pos hversion).trans ?_
    refine (Outcome.bind_of_ok hblock).trans ?_
    exact Outcome.bind_of_ok (sliceFrom_last hcodes hend)
  · refine (if_neg hversion).trans ?_
    rw [if_neg hversion, sentProperties, if_neg hversion]
    rfl

theorem publishDecode_body (htopic : IsText pk.topicName) (hlen : pk.publishBody.length ≤ 268435455) :
    (pk.blank n).publishDecode pk.publishBody = .ok { pk.blank n with
      topicName := pk.topicName
      packetID := if pk.fixedHeader.qos > 0 then pk.packetID else 0
      properties := pk.sentProperties (pk.publishHead.length + pk.payload.length)
      payload := pk.payload } := by
  have hbody : encodeString pk.topicName ++ ((if pk.fixedHeader.qos > 0 then encodeUint16 pk.packetID else []) ++
      (pk.encodeProperties (pk.publishHead.length + pk.payload.length) ++ pk.payload)) <+: pk.publishBody.drop 0 := by
    rw [← List.append_assoc, ← List.append_assoc]
    exact List.prefix_rfl
  obtain ⟨htext, hbody⟩ := append_prefix_drop.mp hbody
  obtain ⟨hid, hbody⟩ := append_prefix_drop.mp hbody
  obtain ⟨hproperties, hpayload⟩ := append_prefix_drop.mp hbody
  have hoptional := optional_field (decide_eq_true_iff (p := pk.fixedHeader.qos > 0)) 0 fun hqos =>
    orWrap_of_ok (c := .malformedPacketID) ((reads_uint16 pk.packetID).eq_ok (by rwa [if_pos hqos] at hid))
  unfold publishDecode
  refine (Outcome.bind_of_ok (orWrap_of_ok ((reads_string htopic).eq_ok htext))).trans ?_
  refine (Outcome.bind_of_ok hoptional).trans ?_
  refine (Outcome.bind_of_ok (properties_at hp hlen hproperties)).trans ?_
  exact Outcome.bind_of_ok (sliceFrom_last hpayload (by
    rw [Nat.zero_add, ← List.length_append, ← List.length_append, ← List.length_append]
    rfl))

theorem disconnectDecode_body (hlen : pk.disconnectBody.length ≤ 268435455) :
    (pk.blank pk.disconnectBody.length).disconnectDecode pk.disconnectBody =
      .ok { pk.blank pk.disconnectBody.length with
        reasonCode := if pk.protocolVersion = 5 then pk.reasonCode else 0
        properties := pk.sentProperties 1 } := by
  unfold disconnectDecode
  by_cases hversion : pk.protocolVersion = 5
  · have hbytes : pk.disconnectBody = [pk.reasonCode] ++ pk.properties.encode pk.fixedHeader.type pk.mods 1 := by
      rw [disconnectBody, if_pos hversion]
    have hlong := block_lt pk.properties pk.fixedHeader.type pk.mods 1
    have hsize : pk.disconnectBody.length = 1 + (pk.properties.encode pk.fixedHeader.type pk.mods 1).length := by
      rw [hbytes, List.length_append, List.length_singleton]
    have hbody : [pk.reasonCode] ++ pk.properties.encode pk.fixedHeader.type pk.mods 1 <+:
        pk.disconnectBody.drop 0 := by
      rw [← hbytes]
      exact List.prefix_rfl
    obtain ⟨hreason, hproperties⟩ := append_prefix_drop.mp hbody
    have hblock := optional_field (decide_eq_true_iff (p := pk.disconnectBody.length > 2)) {} fun _ =>
      decodePropertiesAt_eq hp hlen hproperties
    refine (if_pos ⟨hversion, by show 1 < pk.disconnectBody.length; omega⟩).trans ?_
    refine (Outcome.bind_of_ok (orWrap_of_ok ((reads_byte _).eq_ok hreason))).trans ?_
    refine (Outcome.bind_of_ok hblock).trans ?_
    have hsent : (if pk.disconnectBody.length > 2 then pk.properties.emitted pk.fixedHeader.type pk.mods 1 else {}) =
        pk.sentProperties 1 := by
      rw [sentProperties, if_pos hversion]
      split
      · rfl
      · refine (Properties.emitted_of_block hp (List.eq_nil_of_length_eq_zero ?_)).symm
        omega
    rw [if_pos hversion]
    dsimp only
    rw [hsent]
    rfl
  · refine (if_neg fun h => hversion h.1).trans ?_
    rw [if_neg hversion, sentProperties, if_neg hversion]
    rfl

theorem unsubscribeDecode_body (htexts : ∀ s ∈ pk.filters, IsText s.filter)
    (hlen : pk.unsubscribeBody.length ≤ 268435455) :
    (pk.blank n).unsubscribeDecode pk.unsubscribeBody = .ok { pk.blank n with
      packetID := pk.packetID
      properties := pk.sentProperties (2 + (pk.filters.flatMap fun s => encodeString s.filter).length)
      filters := pk.filters.map fun s => { filter := s.filter } } := by
  obtain ⟨hid, hproperties, hfilters, hend⟩ := numbered_at hp rfl hlen
  unfold unsubscribeDecode
  refine (Outcome.bind_of_ok (orWrap_of_ok hid)).trans ?_
  refine (Outcome.bind_of_ok hproperties).trans ?_
  exact Outcome.bind_of_ok (unsubscribeLoop_body pk.filters _ htexts hfilters hend)

theorem subscribeDecode_body (htexts : ∀ s ∈ pk.filters, IsText s.filter)
    (hoptions : ∀ s ∈ pk.filters, s.qos ≤ 2 ∧ s.retainHandling ≤ 3) (hlen : pk.subscribeBody.length ≤ 268435455) :
    (pk.blank n).subscribeDecode pk.subscribeBody = .ok { pk.blank n with
      packetID := pk.packetID
      properties := pk.sentProperties (2 + (pk.filters.flatMap pk.encodeFilter).length)
      filters := pk.filters.map (pk.sentFilter (2 + (pk.filters.flatMap pk.encodeFilter).length)) } := by
  obtain ⟨hid, hproperties, hfilters, hend⟩ := numbered_at hp rfl hlen
  unfold subscribeDecode
  refine (Outcome.bind_of_ok (orElse_of_ok hid)).trans ?_
  refine (Outcome.bind_of_ok hproperties).trans ?_
  -- the identifiers of the filters are read off the properties that were just decoded
  refine Outcome.bind_of_ok (subscribeLoop_body ?_ ?_ pk.filters _ htexts hoptions hfilters hend)
  · rfl
  · rfl

end Bodies

/-! ### The body of a CONNECT -/

theorem flags_bits (hqos : pk.connect.willQos ≤ 2) :
    (1 : UInt8) &&& pk.connectFlags = 0 ∧ bit pk.connectFlags 1 = pk.connect.clean ∧
      bit pk.connectFlags 2 = pk.connect.willFlag ∧ (3 : UInt8) &&& (pk.connectFlags >>> 3) = pk.connect.willQos ∧
      bit pk.connectFlags 5 = pk.connect.willRetain ∧ bit pk.connectFlags 6 = pk.connect.passwordFlag ∧
      bit pk.connectFlags 7 = pk.connect.usernameFlag := by
  have hall : ∀ qos ∈ [(0 : UInt8), 1, 2], ∀ clean willFlag willRetain passwordFlag usernameFlag : Bool,
      let b := encodeBool clean <<< 1 ||| encodeBool willFlag <<< 2 ||| qos <<< 3 ||| encodeBool willRetain <<< 5 |||
        encodeBool passwordFlag <<< 6 ||| encodeBool usernameFlag <<< 7 ||| 0
      (1 : UInt8) &&& b = 0 ∧ bit b 1 = clean ∧ bit b 2 = willFlag ∧ (3 : UInt8) &&& (b >>> 3) = qos ∧
        bit b 5 = willRetain ∧ bit b 6 = passwordFlag ∧ bit b 7 = usernameFlag := by
    decide +kernel
  have hmem : pk.connect.willQos ∈ [(0 : UInt8), 1, 2] := by
    rcases le_two_cases hqos with h | h | h <;> rw [h] <;> decide
  exact hall _ hmem _ _ _ _ _

theorem decodeWill_body (hwill : pk.connect.willProperties.Writable .willProperties)
    (htopic : IsText pk.connect.willTopic) (hpayload : pk.connect.willPayload.length ≤ 65535)
    (hlen : buf.length ≤ 268435455) (hpre : pk.encodeWill <+: buf.drop off) :
    (pk.blank n).decodeWill pk.protocolVersion buf off = .ok
      ({ willProperties :=
           if pk.protocolVersion = 5 then pk.connect.willProperties.emitted .willProperties pk.mods 0 else {}
         willTopic := pk.connect.willTopic, willPayload := pk.connect.willPayload },
        off + pk.encodeWill.length) := by
  have hsplit : pk.encodeWill = (if pk.protocolVersion = 5 then
      pk.connect.willProperties.encode .willProperties pk.mods 0 else []) ++
      (encodeString pk.connect.willTopic ++ encodeBytes pk.connect.willPayload) := by
    rw [← List.append_assoc]
    rfl
  rw [hsplit] at hpre ⊢
  obtain ⟨hproperties, hpre⟩ := append_prefix_drop.mp hpre
  obtain ⟨htext, hbytes⟩ := append_prefix_drop.mp hpre
  have hread : pk.protocolVersion = 5 → (pk.blank n).decodeWillProperties buf off =
      .ok (pk.connect.willProperties.emitted .willProperties pk.mods 0,
        off + (pk.connect.willProperties.encode .willProperties pk.mods 0).length) := by
    intro hversion
    rw [if_pos hversion] at hproperties
    obtain ⟨hle, hdecode⟩ := decode_at hwill hlen hproperties
    unfold decodeWillProperties
    refine (Outcome.bind_of_ok (sliceFrom_eq_ok hle)).trans ?_
    exact Outcome.bind_of_ok (orElse_of_ok hdecode)
  unfold decodeWill
  refine (Outcome.bind_of_ok (optional_field beq_iff_eq {} hread)).trans ?_
  refine (Outcome.bind_of_ok (orElse_of_ok ((reads_string htopic).eq_ok htext))).trans ?_
  refine (Outcome.bind_of_ok (orElse_of_ok ((reads_bytes hpayload).eq_ok hbytes))).trans ?_
  rw [List.length_append, List.length_append, ← Nat.add_assoc, ← Nat.add_assoc]
  rfl

theorem decodeUsername_body {b : Bytes} (h : b.length ≤ 65535) (hpre : encodeBytes b <+: buf.drop off) :
    decodeUsername buf off = .ok (b, off + (encodeBytes b).length) := by
  have hlt : ¬off ≥ buf.length := by
    have hle := hpre.length_le
    have hpos : 0 < (encodeBytes b).length := Nat.succ_pos _
    rw [List.length_drop] at hle
    omega
  rw [decodeUsername, if_neg hlt]
  exact orElse_of_ok ((reads_bytes h).eq_ok hpre)

theorem connectDecode_body (hp : pk.properties.Writable pk.fixedHeader.type)
    (hwill : pk.connect.willProperties.Writable .willProperties) (hqos : pk.connect.willQos ≤ 2)
    (hname : pk.connect.protocolName.length ≤ 65535) (hid : IsText pk.connect.clientIdentifier)
    (htopic : IsText pk.connect.willTopic) (hpayload : pk.connect.willPayload.length ≤ 65535)
    (husername : pk.connect.username.length ≤ 65535) (hpassword : pk.connect.password.length ≤ 65535)
    (hlen : pk.connectBody.length ≤ 268435455) :
    (pk.blank n).connectDecode pk.connectBody = .ok { pk.blank n with
      connect := pk.sentConnect, properties := pk.sentProperties 0 } := by
  have hbody : encodeBytes pk.connect.protocolName ++ ([pk.protocolVersion] ++ ([pk.connectFlags] ++
      (encodeUint16 pk.connect.keepalive ++ (pk.encodeProperties 0 ++ (encodeString pk.connect.clientIdentifier ++
      ((if pk.connect.willFlag then pk.encodeWill else []) ++
      ((if pk.connect.usernameFlag then encodeBytes pk.connect.username else []) ++
      (if pk.connect.passwordFlag then encodeBytes pk.connect.password else [])))))))) <+:
      pk.connectBody.drop 0 := by
    simp only [← List.append_assoc]
    exact List.prefix_rfl
  obtain ⟨hnameAt, hbody⟩ := append_prefix_drop.mp hbody
  obtain ⟨hversionAt, hbody⟩ := append_prefix_drop.mp hbody
  obtain ⟨hflagsAt, hbody⟩ := append_prefix_drop.mp hbody
  obtain ⟨hkeepaliveAt, hbody⟩ := append_prefix_drop.mp hbody
  obtain ⟨hpropertiesAt, hbody⟩ := append_prefix_drop.mp hbody
  obtain ⟨hidAt, hbody⟩ := append_prefix_drop.mp hbody
  obtain ⟨hwillAt, hbody⟩ := append_prefix_drop.mp hbody
  obtain ⟨husernameAt, hpasswordAt⟩ := append_prefix_drop.mp hbody
  obtain ⟨h0, h1, h2, h3, h5, h6, h7⟩ := flags_bits hqos
  unfold connectDecode
  refine (Outcome.bind_of_ok (orElse_of_ok ((reads_bytes hname).eq_ok hnameAt))).trans ?_
  refine (Outcome.bind_of_ok (orElse_of_ok ((reads_byte _).eq_ok hversionAt))).trans ?_
  refine (Outcome.bind_of_ok (orElse_of_ok ((reads_byte _).eq_ok hflagsAt))).trans ?_
  refine (Outcome.bind_of_ok (orElse_of_ok ((reads_uint16 _).eq_ok hkeepaliveAt))).trans ?_
  refine (Outcome.bind_of_ok (properties_at hp hlen hpropertiesAt)).trans ?_
  refine (Outcome.bind_of_ok (orElse_of_ok ((reads_string hid).eq_ok hidAt))).trans ?_
  dsimp only
  rw [h0, h1, h2, h3, h5, h6, h7]
  refine (Outcome.bind_of_ok (optional_field Iff.rfl _ fun hflag =>
    decodeWill_body hwill htopic hpayload hlen (by rwa [if_pos hflag] at hwillAt))).trans ?_
  refine (Outcome.bind_of_ok (optional_field Iff.rfl _ fun hflag =>
    decodeUsername_body husername (by rwa [if_pos hflag] at husernameAt))).trans ?_
  refine (Outcome.bind_of_ok (optional_field Iff.rfl _ fun hflag =>
    orElse_of_ok ((reads_bytes hpassword).eq_ok (by rwa [if_pos hflag] at hpasswordAt)))).trans ?_
  unfold sentConnect
  cases hflag : pk.connect.willFlag with
  | true =>
    by_cases hversion : pk.protocolVersion = 5
    · rw [if_pos rfl, if_pos hversion, beq_iff_eq.mpr hversion]
      rfl
    · rw [if_pos rfl, if_neg hversion, beq_eq_false_iff_ne.mpr hversion]
      rfl
  | false => rfl

/-! ### The whole packet -/

theorem eq_of_guarded {c : Prop} [Decidable c] {e : Error} {written : Bytes}
    (h : (if c then .error e else .ok written) = (.ok bytes : Except Error Bytes)) : bytes = written := by
  split at h
  · cases h
  · exact (Except.ok.inj h).symm

theorem encode_eq_frame (htype : pk.fixedHeader.type ∈ codecTypes) (h : pk.encode = .ok bytes) :
    bytes = pk.frame pk.body := by
  unfold encode at h
  unfold body
  cases hcase : pk.fixedHeader.type with
  | publish | subscribe | unsubscribe =>
    rw [hcase] at h
    exact eq_of_guarded h
  | connect | connack | suback | unsuback | disconnect | auth =>
    rw [hcase] at h
    exact (Except.ok.inj h).symm
  | _ =>
    rw [hcase] at htype
    exact absurd htype (by decide)

namespace Encodable

theorem writable (h : pk.Encodable) (hids : ∀ v ∈ pk.properties.subscriptionIdentifier, v ≤ 268435455) :
    pk.properties.Writable pk.fixedHeader.type where
  texts s hs := h.texts s (List.mem_append_left _ (List.mem_append_right _ hs))
  byteFields b hb := h.byteFields b (List.mem_append_left _ (List.mem_append_right _ hb))
  identifiers _ := hids

theorem willWritable (h : pk.Encodable) : pk.connect.willProperties.Writable .willProperties where
  texts s hs := h.texts s (List.mem_append_right _ hs)
  byteFields b hb := h.byteFields b (List.mem_append_right _ hb)
  identifiers hmem := absurd hmem (by decide)

theorem filterTexts (h : pk.Encodable) : ∀ s ∈ pk.filters, IsText s.filter := by
  intro s hs
  apply h.texts
  exact List.mem_append_left _ (List.mem_append_left _ (List.mem_append_right _ (List.mem_map_of_mem hs)))

theorem readPacket_body (h : pk.Encodable) (hids : ∀ v ∈ pk.properties.subscriptionIdentifier, v ≤ 268435455) :
    readPacket pk.protocolVersion { pk.fixedHeader with remaining := pk.body.length } pk.body =
      .ok (pk.received pk.body.length) := by
  have hp := h.writable hids
  have hlen := h.body
  have hsent := congrArg (fun q => Outcome.ok (ε := Error) (q.received pk.body.length)) h.carried
  refine Eq.trans ?_ hsent
  unfold readPacket
  unfold Packet.body at hlen ⊢
  unfold transmitted
  cases hcase : pk.fixedHeader.type with
  | connack =>
    rw [hcase] at hlen
    exact connackDecode_body hp hlen
  | connect =>
    rw [hcase] at hlen
    exact connectDecode_body hp h.willWritable h.willQos (h.byteFields _ (by simp [Packet.byteFields]))
      (h.texts _ (by simp [Packet.texts])) (h.texts _ (by simp [Packet.texts]))
      (h.byteFields _ (by simp [Packet.byteFields])) (h.byteFields _ (by simp [Packet.byteFields]))
      (h.byteFields _ (by simp [Packet.byteFields])) hlen
  | publish =>
    rw [hcase] at hlen
    exact publishDecode_body hp (h.texts _ (by simp [Packet.texts])) hlen
  | subscribe =>
    rw [hcase] at hlen
    exact subscribeDecode_body hp h.filterTexts h.options hlen
  | suback =>
    rw [hcase] at hlen
    exact subackDecode_body hp hlen
  | unsubscribe =>
    rw [hcase] at hlen
    exact unsubscribeDecode_body hp h.filterTexts hlen
  | unsuback =>
    rw [hcase] at hlen
    exact unsubackDecode_body hp hlen
  | disconnect =>
    rw [hcase] at hlen
    exact disconnectDecode_body hp hlen
  | auth =>
    rw [hcase] at hlen
    have hauth := authDecode_body (n := pk.authBody.length) hp hlen
    rw [hcase] at hauth
    exact hauth
  | _ => exact absurd h.type (by rw [hcase]; decide)

end Encodable

/-- The first byte, the length and the body of an encoded packet are read back, and the packet they make
is the one that was encoded. The length is that of all bytes that follow it. -/
theorem decoded_of_encode {pk : Packet} {bytes : Bytes} (h : pk.Encodable)
    (hids : ∀ v ∈ pk.properties.subscriptionIdentifier, v ≤ 268435455) (henc : pk.encode = .ok bytes) :
    ∃ hb length body fh, bytes = hb :: (length ++ body) ∧ FixedHeader.decode {} hb = .ok fh ∧
      decodeLength (length ++ body) = .ok (body.length, length.length) ∧
      readPacket pk.protocolVersion { fh with remaining := body.length } body =
        .ok { pk with mods := {}, fixedHeader := { pk.fixedHeader with remaining := body.length } } := by
  obtain ⟨fh, hheader⟩ := h.flags
  have hsame := FixedHeader.decode_firstByte h.type h.qos hheader
  refine ⟨pk.fixedHeader.firstByte, encodeLength pk.body.length, pk.body, fh, ?_, hheader, ?_, ?_⟩
  · exact encode_eq_frame h.type henc
  · exact decodeLength_encodeLength h.body pk.body
  · rw [hsame]
    exact h.readPacket_body hids

def numberedSubscribe : Packet :=
  { fixedHeader := { type := .subscribe, qos := 1 }
    protocolVersion := 5
    mods := { allowResponseInfo := true }
    packetID := 3
    properties := { subscriptionIdentifier := [7] }
    filters := [{ filter := [97], qos := 1, identifier := 7, retainHandling := 1 }] }

theorem numberedSubscribe_encodable : numberedSubscribe.Encodable where
  type := by decide
  flags := ⟨{ type := .subscribe, qos := 1 }, rfl⟩
  qos := by decide
  willQos := by decide
  options := by decide
  texts := by decide
  byteFields := by decide
  body := by decide +kernel
  carried := rfl

/-- The identifier of a subscription comes back from its encoding. -/
theorem numberedSubscribe_decoded :
    ∃ hb length body fh, numberedSubscribe.encode = .ok (hb :: (length ++ body)) ∧
      FixedHeader.decode {} hb = .ok fh ∧ decodeLength (length ++ body) = .ok (body.length, length.length) ∧
      readPacket 5 { fh with remaining := body.length } body =
        .ok { numberedSubscribe with
          mods := {}, fixedHeader := { type := .subscribe, qos := 1, remaining := body.length } } := by
  obtain ⟨hb, length, body, fh, hbytes, h⟩ := decoded_of_encode numberedSubscribe_encodable (by decide)
    (show numberedSubscribe.encode = .ok (numberedSubscribe.frame numberedSubscribe.subscribeBody) from rfl)
  exact ⟨hb, length, body, fh, congrArg Except.ok hbytes, h⟩

def overlongPublish : Packet :=
  { fixedHeader := { type := .publish }
    protocolVersion := 5
    mods := { allowResponseInfo := true }
    topicName := [97]
    properties := { subscriptionIdentifier := [268435456] } }

theorem overlongPublish_encodable : overlongPublish.Encodable where
  type := by decide
  flags := ⟨{ type := .publish }, rfl⟩
  qos := by decide
  willQos := by decide
  options := by decide
  texts := by decide
  byteFields := by decide
  body := by decide +kernel
  carried := rfl

/-- An identifier beyond four bytes is written, and what is written is not read. -/
theorem overlong_identifier_not_decoded :
    overlongPublish.Encodable ∧
      overlongPublish.encode = .ok (48 :: ([10] ++ [0, 1, 97, 6, 11, 128, 128, 128, 128, 1])) ∧
      FixedHeader.decode {} 48 = .ok { type := .publish } ∧
      decodeLength [10, 0, 1, 97, 6, 11, 128, 128, 128, 128, 1] = .ok (10, 1) ∧
      readPacket 5 { type := .publish, remaining := 10 } [0, 1, 97, 6, 11, 128, 128, 128, 128, 1] =
        .err (.wrap (.code .malformedVariableByteInteger) .malformedProperties) := by
  exact ⟨overlongPublish_encodable, by decide +kernel, rfl, rfl, by decide +kernel⟩

end Packet
end Mqtt
