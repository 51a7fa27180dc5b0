import MqttBroker.Wire.Stream

/-! A property block is read back as what was written: the loop of `Properties.Decode`
over the bytes of `Properties.Encode` sets, in the same order, the properties that
`Encode` has written. -/

namespace Mqtt
open Calls

namespace Property
variable (p : Properties)

/-- Set a property of a record as it is in `p`. The properties that may occur more than once are added. -/
def set (r : Properties) : Property → Properties
  | payloadFormat => { r with payloadFormat := p.payloadFormat, payloadFormatFlag := true }
  | messageExpiryInterval => { r with messageExpiryInterval := p.messageExpiryInterval }
  | contentType => { r with contentType := p.contentType }
  | responseTopic => { r with responseTopic := p.responseTopic }
  | correlationData => { r with correlationData := p.correlationData }
  | subscriptionIdentifier =>
    { r with subscriptionIdentifier := r.subscriptionIdentifier ++ p.subscriptionIdentifier.filter (0 < ·) }
  | sessionExpiryInterval =>
    { r with sessionExpiryInterval := p.sessionExpiryInterval, sessionExpiryIntervalFlag := true }
  | assignedClientID => { r with assignedClientID := p.assignedClientID }
  | serverKeepAlive => { r with serverKeepAlive := p.serverKeepAlive, serverKeepAliveFlag := true }
  | authenticationMethod => { r with authenticationMethod := p.authenticationMethod }
  | authenticationData => { r with authenticationData := p.authenticationData }
  | requestProblemInfo => { r with requestProblemInfo := p.requestProblemInfo, requestProblemInfoFlag := true }
  | willDelayInterval => { r with willDelayInterval := p.willDelayInterval }
  | requestResponseInfo => { r with requestResponseInfo := p.requestResponseInfo }
  | responseInfo => { r with responseInfo := p.responseInfo }
  | serverReference => { r with serverReference := p.serverReference }
  | reasonString => { r with reasonString := p.reasonString }
  | receiveMaximum => { r with receiveMaximum := p.receiveMaximum }
  | topicAliasMaximum => { r with topicAliasMaximum := p.topicAliasMaximum }
  | topicAlias => { r with topicAlias := p.topicAlias, topicAliasFlag := true }
  | maximumQos => { r with maximumQos := p.maximumQos, maximumQosFlag := true }
  | retainAvailable => { r with retainAvailable := p.retainAvailable, retainAvailableFlag := true }
  | user => { r with user := r.user ++ p.user }
  | maximumPacketSize => { r with maximumPacketSize := p.maximumPacketSize }
  | wildcardSubAvailable =>
    { r with wildcardSubAvailable := p.wildcardSubAvailable, wildcardSubAvailableFlag := true }
  | subIDAvailable => { r with subIDAvailable := p.subIDAvailable, subIDAvailableFlag := true }
  | sharedSubAvailable => { r with sharedSubAvailable := p.sharedSubAvailable, sharedSubAvailableFlag := true }

end Property

namespace Properties

/-- The record in which only the properties are set that `Encode` writes. -/
def emitted (p : Properties) (pkt : PacketType) (mods : Mods) (n : Nat) : Properties :=
  Property.all.foldl (fun r q => if Property.emits p mods pkt n q then Property.set p r q else r) {}

def texts (p : Properties) : List Bytes :=
  [p.contentType, p.responseTopic, p.assignedClientID, p.authenticationMethod, p.responseInfo, p.serverReference,
    p.reasonString] ++ p.user.map UserProperty.key ++ p.user.map UserProperty.val

def byteFields (p : Properties) : List Bytes := [p.correlationData, p.authenticationData]

structure Writable (p : Properties) (pkt : PacketType) : Prop where
  texts : ∀ s ∈ p.texts, IsText s
  byteFields : ∀ b ∈ p.byteFields, b.length ≤ 65535
  identifiers : pkt ∈ Property.subscriptionIdentifier.validPackets → ∀ v ∈ p.subscriptionIdentifier, v ≤ 268435455

end Properties

namespace Property
variable {p r : Properties} {pkt : PacketType} {mods : Mods} {bt : Bytes} {n off : Nat} {q : Property}

theorem ofByte?_toByte (q : Property) : ofByte? q.toByte = some q := by
  cases q <;> rfl

variable {field : Bytes} {r' : Properties}

theorem readProperty_of_reads (hq : pkt ∈ q.validPackets)
    (h : Reader.Reads (q.read r) r' field) : Reader.Reads (readProperty pkt r) r' (q.toByte :: field) := by
  have hvalue : readValue pkt r q.toByte = q.read r := by
    unfold readValue
    rw [ofByte?_toByte]
    exact if_pos hq
  exact (reads_byte q.toByte).andThen (hvalue ▸ h)

theorem loop_next {off' : Nat} (hlt : off < n) (h : readProperty pkt r bt off = .ok (r', off')) :
    decodePropertiesLoop pkt bt n r off = decodePropertiesLoop pkt bt n r' off' :=
  (decodePropertiesLoop_of_lt hlt).trans (Outcome.bind_of_ok h)

theorem loop_values {ι : Type} (hq : pkt ∈ q.validPackets) (field : ι → Bytes) (f : Properties → ι → Properties)
    (l : List ι) (hread : ∀ i ∈ l, ∀ r, Reader.Reads (q.read r) (f r i) (field i)) (r : Properties) (off : Nat)
    (hpre : (l.map field).flatMap (q.toByte :: ·) <+: bt.drop off)
    (hn : off + ((l.map field).flatMap (q.toByte :: ·)).length ≤ n) :
    decodePropertiesLoop pkt bt n r off =
      decodePropertiesLoop pkt bt n (l.foldl f r) (off + ((l.map field).flatMap (q.toByte :: ·)).length) := by
  induction l generalizing r off with
  | nil => rfl
  | cons i l ih =>
    rw [List.map_cons, List.flatMap_cons] at hpre hn ⊢
    obtain ⟨hfirst, hrest⟩ := append_prefix_drop.mp hpre
    rw [List.length_append, ← Nat.add_assoc] at hn ⊢
    have hturn := (readProperty_of_reads hq (hread i List.mem_cons_self r)).eq_ok hfirst
    have hlt : off < n := by
      rw [List.length_cons] at hn
      omega
    rw [loop_next hlt hturn]
    exact ih (fun j hj => hread j (List.mem_cons_of_mem _ hj)) _ _ hrest hn

theorem foldl_identifiers (vs : List Int) (r : Properties) :
    vs.foldl (fun r v => { r with subscriptionIdentifier := r.subscriptionIdentifier ++ [v] }) r =
      { r with subscriptionIdentifier := r.subscriptionIdentifier ++ vs } := by
  induction vs generalizing r with
  | nil => rw [List.append_nil]; rfl
  | cons v vs ih =>
    rw [List.foldl_cons, ih]
    dsimp only
    rw [List.append_assoc]
    rfl

theorem foldl_users (us : List UserProperty) (r : Properties) :
    us.foldl (fun r u => { r with user := r.user ++ [u] }) r = { r with user := r.user ++ us } := by
  induction us generalizing r with
  | nil => rw [List.append_nil]; rfl
  | cons u us ih =>
    rw [List.foldl_cons, ih]
    dsimp only
    rw [List.append_assoc]
    rfl

theorem loop_value (hq : pkt ∈ q.validPackets) (hvalues : values p q = [field])
    (hread : Reader.Reads (q.read r) (set p r q) field) (hpre : written p q <+: bt.drop off)
    (hn : off + (written p q).length ≤ n) : decodePropertiesLoop pkt bt n r off =
      decodePropertiesLoop pkt bt n (set p r q) (off + (written p q).length) := by
  have hwritten : written p q = q.toByte :: field := by
    unfold written
    rw [hvalues, List.flatMap_singleton]
  rw [hwritten] at hpre hn ⊢
  refine loop_next ?_ ((readProperty_of_reads hq hread).eq_ok hpre)
  rw [List.length_cons] at hn
  omega

theorem loop_written (hp : p.Writable pkt) (hq : pkt ∈ q.validPackets) (hpre : written p q <+: bt.drop off)
    (hn : off + (written p q).length ≤ n) : decodePropertiesLoop pkt bt n r off =
      decodePropertiesLoop pkt bt n (set p r q) (off + (written p q).length) := by
  have htext : ∀ {s : Bytes}, s ∈ p.texts → IsText s := fun hs => hp.texts _ hs
  cases q with
  | subscriptionIdentifier =>
    have hset : set p r subscriptionIdentifier = (p.subscriptionIdentifier.filter (0 < ·)).foldl
        (fun r v => { r with subscriptionIdentifier := r.subscriptionIdentifier ++ [v] }) r :=
      (foldl_identifiers _ r).symm
    rw [hset]
    refine loop_values hq (fun v : Int => encodeLength v.toNat) _ _ (fun v hv r => ?_) r off hpre hn
    obtain ⟨hmem, hpos⟩ := List.mem_filter.mp hv
    have hle := hp.identifiers hq v hmem
    have hback : ((v.toNat : Nat) : Int) = v := Int.toNat_of_nonneg (Int.le_of_lt (of_decide_eq_true hpos))
    rw [read]
    refine (reads_subscriptionIdentifier (n := v.toNat) (by omega)).map ?_
    rw [hback]
  | user =>
    have hset : set p r user = p.user.foldl (fun r u => { r with user := r.user ++ [u] }) r := (foldl_users _ r).symm
    rw [hset]
    refine loop_values hq (fun u : UserProperty => encodeString u.key ++ encodeString u.val) _ _
      (fun u hu r => ?_) r off
      hpre hn
    have hkey : IsText u.key :=
      htext (List.mem_append_left _ (List.mem_append_right _ (List.mem_map_of_mem hu)))
    have hval : IsText u.val := htext (List.mem_append_right _ (List.mem_map_of_mem hu))
    rw [read]
    exact (reads_string hkey).andThen ((reads_string hval).map rfl)
  | payloadFormat | requestProblemInfo | requestResponseInfo | maximumQos | retainAvailable | wildcardSubAvailable
  | subIDAvailable | sharedSubAvailable =>
    refine loop_value hq rfl ?_ hpre hn
    rw [read]
    exact (reads_byte _).map rfl
  | serverKeepAlive | receiveMaximum | topicAliasMaximum | topicAlias =>
    refine loop_value hq rfl ?_ hpre hn
    rw [read]
    exact (reads_uint16 _).map rfl
  | messageExpiryInterval | sessionExpiryInterval | willDelayInterval | maximumPacketSize =>
    refine loop_value hq rfl ?_ hpre hn
    rw [read]
    exact (reads_uint32 _).map rfl
  | contentType | responseTopic | assignedClientID | authenticationMethod | responseInfo | serverReference
  | reasonString =>
    refine loop_value hq rfl ?_ hpre hn
    rw [read]
    exact (reads_string (htext (by simp [Properties.texts]))).map rfl
  | correlationData | authenticationData =>
    refine loop_value hq rfl ?_ hpre hn
    rw [read]
    exact (reads_bytes (hp.byteFields _ (by simp [Properties.byteFields]))).map rfl

theorem loop_properties (hp : p.Writable pkt) (k : Nat) (qs : List Property) (r : Properties) (off : Nat)
    (hpre : qs.flatMap (encode p mods pkt k) <+: bt.drop off)
    (hn : off + (qs.flatMap (encode p mods pkt k)).length ≤ n) : decodePropertiesLoop pkt bt n r off =
      decodePropertiesLoop pkt bt n (qs.foldl (fun r q => if emits p mods pkt k q then set p r q else r) r)
        (off + (qs.flatMap (encode p mods pkt k)).length) := by
  induction qs generalizing r off with
  | nil => rfl
  | cons q qs ih =>
    rw [List.flatMap_cons] at hpre hn ⊢
    obtain ⟨hfirst, hrest⟩ := append_prefix_drop.mp hpre
    rw [List.length_append, ← Nat.add_assoc] at hn ⊢
    rw [List.foldl_cons, ← ih _ _ hrest hn]
    unfold encode at hfirst hn ⊢
    split
    · rename_i hemits
      rw [if_pos hemits] at hfirst hn
      have hvalid : pkt ∈ q.validPackets := of_decide_eq_true (Bool.and_eq_true _ _ ▸ hemits).1
      exact loop_written hp hvalid hfirst (by omega)
    · rfl

end Property

namespace Properties
variable {p : Properties} {pkt : PacketType} {mods : Mods}

def block (p : Properties) (pkt : PacketType) (mods : Mods) (n : Nat) : Bytes :=
  Property.all.flatMap (Property.encode p mods pkt n)

theorem block_eq_filter (p : Properties) (pkt : PacketType) (mods : Mods) (n : Nat) :
    p.block pkt mods n = (Property.all.filter (Property.emits p mods pkt n)).flatMap (Property.written p) := by
  unfold block
  induction Property.all with
  | nil => rfl
  | cons q qs ih =>
    rw [List.flatMap_cons, ih, List.filter_cons, Property.encode]
    split <;> rfl

theorem emitted_eq_filter (p : Properties) (pkt : PacketType) (mods : Mods) (n : Nat) :
    p.emitted pkt mods n = (Property.all.filter (Property.emits p mods pkt n)).foldl (Property.set p) {} := by
  unfold emitted
  rw [List.foldl_filter]

theorem encode_eq (p : Properties) (pkt : PacketType) (mods : Mods) (n : Nat) :
    p.encode pkt mods n = encodeLength (p.block pkt mods n).length ++ p.block pkt mods n := rfl

theorem loop_block (hp : p.Writable pkt) (k : Nat) {bt : Bytes} (hpre : p.block pkt mods k <+: bt) :
    decodePropertiesLoop pkt bt (p.block pkt mods k).length {} 0 = .ok (p.emitted pkt mods k) := by
  have hloop := Property.loop_properties (n := (p.block pkt mods k).length) hp k Property.all {} 0 hpre
    (by rw [Nat.zero_add]; exact Nat.le_refl _)
  rw [hloop, decodePropertiesLoop, if_neg (by rw [Nat.zero_add]; exact Nat.lt_irrefl _)]
  rfl

theorem emitted_of_block (hp : p.Writable pkt) {k : Nat} (h : p.block pkt mods k = []) : p.emitted pkt mods k = {} := by
  have hnone : p.block pkt mods k <+: [] := List.prefix_nil.mpr h
  have hloop := loop_block hp k hnone
  rw [h, decodePropertiesLoop, if_neg (show ¬ 0 < ([] : Bytes).length from Nat.lt_irrefl 0)] at hloop
  exact (Outcome.ok.inj hloop).symm

theorem decode_encode (hp : p.Writable pkt) {k : Nat} (hlen : (p.block pkt mods k).length ≤ 268435455) (rest : Bytes) :
    Properties.decode {} pkt (p.encode pkt mods k ++ rest) =
      .ok (p.emitted pkt mods k, (p.encode pkt mods k).length) := by
  unfold Properties.decode
  rw [encode_eq, List.append_assoc, decodeLength_encodeLength hlen, Outcome.ok_bind]
  dsimp only
  rw [List.length_append, Nat.add_comm (encodeLength _).length]
  split
  · rename_i hempty
    rw [emitted_of_block hp (List.length_eq_zero_iff.mp hempty)]
    rfl
  · rw [List.drop_left, loop_block hp k (List.prefix_append _ _)]
    rfl

end Properties

/-! ### The fields of a record -/

inductive Field where
  | byte (v : UInt8) (flag : Bool)
  | uint16 (v : UInt16) (flag : Bool)
  | uint32 (v : UInt32) (flag : Bool)
  | bytes (b : Bytes)
  | identifiers (vs : List Int)
  | users (us : List UserProperty)

namespace Property
variable {p r : Properties} {pkt : PacketType} {mods : Mods} {n : Nat} {q q' : Property}

def field (p : Properties) : Property → Field
  | payloadFormat => .byte p.payloadFormat p.payloadFormatFlag
  | messageExpiryInterval => .uint32 p.messageExpiryInterval true
  | contentType => .bytes p.contentType
  | responseTopic => .bytes p.responseTopic
  | correlationData => .bytes p.correlationData
  | subscriptionIdentifier => .identifiers p.subscriptionIdentifier
  | sessionExpiryInterval => .uint32 p.sessionExpiryInterval p.sessionExpiryIntervalFlag
  | assignedClientID => .bytes p.assignedClientID
  | serverKeepAlive => .uint16 p.serverKeepAlive p.serverKeepAliveFlag
  | authenticationMethod => .bytes p.authenticationMethod
  | authenticationData => .bytes p.authenticationData
  | requestProblemInfo => .byte p.requestProblemInfo p.requestProblemInfoFlag
  | willDelayInterval => .uint32 p.willDelayInterval true
  | requestResponseInfo => .byte p.requestResponseInfo true
  | responseInfo => .bytes p.responseInfo
  | serverReference => .bytes p.serverReference
  | reasonString => .bytes p.reasonString
  | receiveMaximum => .uint16 p.receiveMaximum true
  | topicAliasMaximum => .uint16 p.topicAliasMaximum true
  | topicAlias => .uint16 p.topicAlias p.topicAliasFlag
  | maximumQos => .byte p.maximumQos p.maximumQosFlag
  | retainAvailable => .byte p.retainAvailable p.retainAvailableFlag
  | user => .users p.user
  | maximumPacketSize => .uint32 p.maximumPacketSize true
  | wildcardSubAvailable => .byte p.wildcardSubAvailable p.wildcardSubAvailableFlag
  | subIDAvailable => .byte p.subIDAvailable p.subIDAvailableFlag
  | sharedSubAvailable => .byte p.sharedSubAvailable p.sharedSubAvailableFlag

theorem mem_all (q : Property) : q ∈ all := by
  cases q <;> decide

theorem eq_of_field (h : ∀ q, field p q = field r q) : p = r := by
  have hall : all.map (field p) = all.map (field r) := List.map_congr_left fun q _ => h q
  cases p
  cases r
  simp only [all, field, List.map_cons, List.map_nil, List.cons.injEq, Field.byte.injEq, Field.uint16.injEq,
    Field.uint32.injEq, Field.bytes.injEq, Field.identifiers.injEq, Field.users.injEq, and_true] at hall
  simp only [hall]

theorem field_set_of_ne (h : q ≠ q') : field (set p r q') q = field r q := by
  cases q' <;> cases q <;> first | rfl | exact absurd rfl h

theorem field_set (hset : isSet p mods n q = true) (hids : ∀ v ∈ p.subscriptionIdentifier, 1 ≤ v)
    (hblank : field r q = field {} q) : field (set p r q) q = field p q := by
  cases q with
  | subscriptionIdentifier =>
    have hpositive : p.subscriptionIdentifier.filter (0 < ·) = p.subscriptionIdentifier :=
      List.filter_eq_self.mpr fun v hv => decide_eq_true (hids v hv)
    have hnone : r.subscriptionIdentifier = [] := Field.identifiers.inj hblank
    show Field.identifiers (r.subscriptionIdentifier ++ p.subscriptionIdentifier.filter (0 < ·)) = _
    rw [hnone, hpositive, List.nil_append]
    rfl
  | user =>
    have hnone : r.user = [] := Field.users.inj hblank
    show Field.users (r.user ++ p.user) = _
    rw [hnone, List.nil_append]
    rfl
  | payloadFormat | sessionExpiryInterval | serverKeepAlive | requestProblemInfo | retainAvailable
  | wildcardSubAvailable | subIDAvailable | sharedSubAvailable =>
    dsimp only [isSet] at hset
    simp only [field, set, hset]
  | topicAlias | maximumQos =>
    rw [isSet, Bool.and_eq_true] at hset
    simp only [field, set, hset.1]
  | messageExpiryInterval | contentType | responseTopic | correlationData | assignedClientID | authenticationMethod
  | authenticationData | willDelayInterval | requestResponseInfo | responseInfo | serverReference | reasonString
  | receiveMaximum | topicAliasMaximum | maximumPacketSize => rfl

theorem field_foldl (hids : ∀ v ∈ p.subscriptionIdentifier, 1 ≤ v) (qs : List Property) (hqs : qs.Nodup)
    (r : Properties) (hblank : ∀ q ∈ qs, field r q = field {} q) (q : Property) :
    field (qs.foldl (fun r q => if emits p mods pkt n q then set p r q else r) r) q =
      if q ∈ qs ∧ emits p mods pkt n q then field p q else field r q := by
  induction qs generalizing r with
  | nil => simp
  | cons q' qs ih =>
    obtain ⟨hfresh, hqs⟩ := List.nodup_cons.mp hqs
    have hstep : ∀ q, q ≠ q' → field (if emits p mods pkt n q' then set p r q' else r) q = field r q := by
      intro q hne
      split
      · exact field_set_of_ne hne
      · rfl
    rw [List.foldl_cons, ih hqs]
    · by_cases heq : q = q'
      · subst heq
        rw [if_neg fun h => hfresh h.1]
        split
        · rename_i hemits
          rw [if_pos ⟨List.mem_cons_self, hemits⟩]
          exact field_set (Bool.and_eq_true _ _ ▸ hemits).2 hids (hblank q List.mem_cons_self)
        · rename_i hemits
          rw [if_neg fun h => hemits h.2]
      · rw [hstep q heq]
        simp only [List.mem_cons, heq, false_or]
    · intro q hq
      rw [hstep q fun heq => hfresh (heq ▸ hq)]
      exact hblank q (List.mem_cons_of_mem _ hq)

end Property

namespace Properties

def Sets (p : Properties) (q : Property) : Prop := Property.field p q ≠ Property.field {} q

def unrestricted : Mods := { allowResponseInfo := true }

structure Emitted (p : Properties) (pkt : PacketType) (n : Nat) : Prop where
  emits : ∀ q, p.Sets q → Property.emits p unrestricted pkt n q = true
  texts : ∀ s ∈ p.texts, IsText s
  identifiers : ∀ v ∈ p.subscriptionIdentifier, 1 ≤ v ∧ v ≤ 268435455
  total : (p.block pkt unrestricted n).length ≤ 268435455

variable {p : Properties} {pkt : PacketType} {n : Nat}

theorem Emitted.emitted_eq (h : p.Emitted pkt n) : p.emitted pkt unrestricted n = p := by
  refine Property.eq_of_field fun q => ?_
  have hfold := @Property.field_foldl p pkt unrestricted n (fun v hv => (h.identifiers v hv).1) Property.all (by decide)
    {} (fun _ _ => rfl) q
  refine hfold.trans ?_
  split
  · rfl
  · rename_i hnot
    by_contra hne
    exact hnot ⟨Property.mem_all q, h.emits q fun heq => hne heq.symm⟩

/-- A record whose byte fields are no longer than their length field can say is read back, whatever follows. -/
theorem decode_encode_of_emitted {p : Properties} {pkt : PacketType} {n : Nat} (h : p.Emitted pkt n)
    (hbytes : ∀ b ∈ p.byteFields, b.length ≤ 65535) (s : Bytes) :
    Properties.decode {} pkt (p.encode pkt unrestricted n ++ s) = .ok (p, (p.encode pkt unrestricted n).length) := by
  have hwritable : p.Writable pkt := ⟨h.texts, hbytes, fun _ v hv => (h.identifiers v hv).2⟩
  rw [decode_encode hwritable h.total, h.emitted_eq]

/-- A will with a delay, correlation data and a user property. -/
theorem decode_encode_of_emitted_will :
    let p : Properties := { willDelayInterval := 5, correlationData := [1, 0], user := [⟨[97], [98]⟩] }
    p.Emitted .willProperties 0 ∧ (∀ b ∈ p.byteFields, b.length ≤ 65535) ∧
      Properties.decode {} .willProperties (p.encode .willProperties unrestricted 0 ++ [7]) =
        .ok (p, (p.encode .willProperties unrestricted 0).length) := by
  intro p
  have hemitted : p.Emitted .willProperties 0 := by
    refine ⟨fun q hq => ?_, by decide, by decide, by decide +kernel⟩
    cases q <;> first | rfl | exact absurd rfl hq
  have hbytes : ∀ b ∈ p.byteFields, b.length ≤ 65535 := by decide
  exact ⟨hemitted, hbytes, decode_encode_of_emitted hemitted hbytes [7]⟩

def correlated (b : Bytes) : Properties := { correlationData := b }

variable {b : Bytes}

theorem block_correlated (hb : 0 < b.length) : (correlated b).block .publish unrestricted 0 = 9 :: encodeBytes b := by
  simp [block, correlated, unrestricted, Property.all, Property.encode, Property.emits, Property.canEncode,
    Property.validPackets, Property.isSet, Property.written, Property.values, Property.toByte, hb]

theorem emitted_correlated (hb : 0 < b.length) (hlen : b.length ≤ 65536) : (correlated b).Emitted .publish 0 := by
  refine ⟨fun q hq => ?_, ?_, ?_, ?_⟩
  · cases q with
    | correlationData => exact decide_eq_true hb
    | _ => exact absurd rfl hq
  · intro s hs
    simp only [texts, correlated, List.map_nil, List.append_nil, List.mem_cons, List.not_mem_nil, or_false,
      or_self] at hs
    rw [hs]
    decide
  · exact fun v hv => absurd hv List.not_mem_nil
  · rw [block_correlated hb, List.length_cons, encodeBytes, List.length_append]
    show 2 + b.length + 1 ≤ 268435455
    omega

theorem decode_correlated (hlen : (0 :: b).length = 65536) :
    Properties.decode {} .publish ((correlated (0 :: b)).encode .publish unrestricted 0) =
      .err (.unsupportedProperty 0 .publish) := by
  have hblock : (correlated (0 :: b)).block .publish unrestricted 0 = 9 :: 0 :: 0 :: 0 :: b := by
    rw [block_correlated (List.length_pos_of_mem List.mem_cons_self), encodeBytes, hlen]
    rfl
  have hlength : (9 :: 0 :: 0 :: 0 :: b : Bytes).length = 65539 := congrArg (· + 3) hlen
  have hfirst : readProperty .publish {} (9 :: 0 :: 0 :: 0 :: b) 0 = .ok ({}, 3) := by
    have hread : Reader.Reads decodeBytes [] [0, 0] := reads_bytes (b := []) (Nat.zero_le _)
    have hvalue : Reader.Reads (Property.correlationData.read {}) {} [0, 0] := by
      rw [Property.read]
      exact hread.map rfl
    exact (Property.readProperty_of_reads (q := .correlationData) (by decide) hvalue).eq_ok ⟨0 :: b, rfl⟩
  have hsecond : readProperty .publish {} (9 :: 0 :: 0 :: 0 :: b) 3 = .err (.unsupportedProperty 0 .publish) := rfl
  unfold Properties.decode
  rw [encode_eq, hblock, hlength, decodeLength_encodeLength (by decide), Outcome.ok_bind]
  dsimp only
  rw [if_neg (by decide), List.drop_left, Property.loop_next (by decide) hfirst, decodePropertiesLoop_of_lt (by decide)]
  exact Outcome.bind_of_err (Outcome.bind_of_err hsecond)

/-- Correlation data of 65536 bytes is written, and its block is not read back. -/
theorem correlated_not_read_back : (correlated (List.replicate 65536 0)).Emitted .publish 0 ∧
    Properties.decode {} .publish ((correlated (List.replicate 65536 0)).encode .publish unrestricted 0 ++ []) ≠
      .ok (correlated (List.replicate 65536 0),
        ((correlated (List.replicate 65536 0)).encode .publish unrestricted 0).length) := by
  have hlen : (List.replicate 65536 (0 : UInt8)).length = 65536 := List.length_replicate
  refine ⟨emitted_correlated (by rw [hlen]; decide) (Nat.le_of_eq hlen), ?_⟩
  have herror := decode_correlated (b := List.replicate 65535 0) hlen
  rw [List.append_nil, List.replicate_succ, herror]
  simp only [ne_eq, reduceCtorEq, not_false_eq_true]

end Properties
end Mqtt
