import MqttBroker.Wire.PropertyBlock

/-! The declared length of a property block. `Properties.Decode` tests it before each
property, not before each value, so that the last value may lie behind it; the offset
that it returns is the declared one all the same. -/

namespace Mqtt
open Calls

variable {pkt : PacketType} {bt bt' : Bytes} {n : Nat}

/-- The turns of the loop of `Properties.Decode`, from an offset to the one at which it stops. -/
inductive PropertiesRead (pkt : PacketType) (bt : Bytes) (n : Nat) : Properties → Nat → Properties → Nat → Prop
  | stop {p : Properties} {off : Nat} (h : n ≤ off) : PropertiesRead pkt bt n p off p off
  | turn {p p' q : Properties} {off off' last : Nat} (hlt : off < n)
      (hread : readProperty pkt p bt off = .ok (p', off')) (hrest : PropertiesRead pkt bt n p' off' q last) :
      PropertiesRead pkt bt n p off q last

variable {off last total : Nat} {p q : Properties} {b : Bytes}

theorem PropertiesRead.of_loop (h : decodePropertiesLoop pkt bt n p off = .ok q) :
    ∃ last, PropertiesRead pkt bt n p off q last := by
  fun_induction decodePropertiesLoop pkt bt n p off with
  | case1 p off hlt p' off' hread ih =>
    obtain ⟨last, hrest⟩ := ih h
    exact ⟨last, .turn hlt hread hrest⟩
  | case2 | case3 => cases h
  | case4 p off hge =>
    cases h
    exact ⟨off, .stop (Nat.not_lt.mp hge)⟩

theorem PropertiesRead.loop (h : PropertiesRead pkt bt n p off q last) :
    decodePropertiesLoop pkt bt n p off = .ok q := by
  induction h with
  | stop hle => rw [decodePropertiesLoop, if_neg (Nat.not_lt.mpr hle)]
  | turn hlt hread _ ih =>
    rw [decodePropertiesLoop_of_lt hlt, hread, Outcome.ok_bind]
    exact ih

/-! ### Whole properties -/

theorem decodeUint32_accepts : Reader.Accepts decodeUint32 fun v field =>
    ∃ b0 b1 b2 b3 : UInt8, field = [b0, b1, b2, b3] ∧
      b0.toUInt32 <<< 24 ||| b1.toUInt32 <<< 16 ||| b2.toUInt32 <<< 8 ||| b3.toUInt32 = v := by
  refine ⟨fun {buf off v next} => ?_⟩
  constructor
  · intro hv
    rcases Nat.lt_or_ge buf.length (off + 4) with h | h
    · simp [decodeUint32, h, fail] at hv
    · have hd : buf.drop off = buf[off] :: buf[off + 1] :: buf[off + 2] :: buf[off + 3] :: buf.drop (off + 4) := by
        rw [List.drop_eq_getElem_cons (by omega), List.drop_eq_getElem_cons (by omega),
          List.drop_eq_getElem_cons (by omega), List.drop_eq_getElem_cons (by omega)]
      rw [decodeUint32_of_drop hd] at hv
      simp only [Outcome.ok.injEq, Prod.mk.injEq] at hv
      obtain ⟨hv, rfl⟩ := hv
      exact ⟨_, ⟨_, _, _, _, rfl, hv⟩, hd ▸ ⟨_, rfl⟩, rfl⟩
  · rintro ⟨_, ⟨b0, b1, b2, b3, rfl, rfl⟩, ⟨rest, hrest⟩, rfl⟩
    exact decodeUint32_of_drop hrest.symm

def Property.Value : Property → Bytes → Prop
  | payloadFormat | requestProblemInfo | requestResponseInfo | maximumQos | retainAvailable | wildcardSubAvailable
  | subIDAvailable | sharedSubAvailable => fun field => ∃ v, field = [v]
  | serverKeepAlive | receiveMaximum | topicAliasMaximum | topicAlias => fun field => ∃ v, Uint16Field v field
  | messageExpiryInterval | sessionExpiryInterval | willDelayInterval | maximumPacketSize =>
    fun field => ∃ b0 b1 b2 b3, field = [b0, b1, b2, b3]
  | contentType | responseTopic | assignedClientID | authenticationMethod | responseInfo | serverReference
  | reasonString => fun field => ∃ s, StringField s field
  | correlationData | authenticationData => fun field => ∃ b, BytesField b field
  | subscriptionIdentifier => fun field => ∃ n, VarintField n field
  | user => fun field =>
    ∃ key first second, StringField key first ∧ (∃ val, StringField val second) ∧ field = first ++ second

def IsProperty (field : Bytes) : Prop := ∃ (q : Property) (value : Bytes), q.Value value ∧ field = q.toByte :: value

/-- A length field and behind it whole properties of that length. -/
def WholeProperties (b : Bytes) : Prop :=
  ∃ (len : Bytes) (fields : List Bytes) (rest : Bytes), b = len ++ (fields.flatten ++ rest) ∧
    VarintField fields.flatten.length len ∧ ∀ field ∈ fields, IsProperty field

theorem Property.read_accepts (p : Properties) (q : Property) :
    ∃ F, (q.read p).Accepts F ∧ ∀ field, q.Value field ↔ ∃ r, F r field := by
  cases q with
  | payloadFormat | requestProblemInfo | requestResponseInfo | maximumQos | retainAvailable
  | wildcardSubAvailable | subIDAvailable | sharedSubAvailable =>
    rw [read]
    exact ⟨_, decodeByte_accepts.map _, fun field => by simp [Value]⟩
  | serverKeepAlive | receiveMaximum | topicAliasMaximum | topicAlias =>
    rw [read]
    exact ⟨_, decodeUint16_accepts.map _, fun field => by simp [Value]⟩
  | messageExpiryInterval | sessionExpiryInterval | willDelayInterval | maximumPacketSize =>
    rw [read]
    exact ⟨_, decodeUint32_accepts.map _, fun field => by simp [Value]⟩
  | contentType | responseTopic | assignedClientID | authenticationMethod | responseInfo
  | serverReference | reasonString =>
    rw [read]
    exact ⟨_, decodeString_accepts.map _, fun field => by simp [Value]⟩
  | correlationData | authenticationData =>
    rw [read]
    exact ⟨_, decodeBytes_accepts.map _, fun field => by simp [Value]⟩
  | subscriptionIdentifier =>
    rw [read]
    exact ⟨_, readSubscriptionIdentifier_accepts.map _, fun field => by simp [Value]⟩
  | user =>
    rw [read]
    refine ⟨_, decodeString_accepts.andThen fun _ => decodeString_accepts.map _, fun field => ?_⟩
    constructor
    · rintro ⟨key, first, second, hkey, ⟨val, hval⟩, hfield⟩
      exact ⟨_, key, first, second, hkey, ⟨val, hval, rfl⟩, hfield⟩
    · rintro ⟨_, key, first, second, hkey, ⟨val, hval, -⟩, hfield⟩
      exact ⟨key, first, second, hkey, ⟨val, hval⟩, hfield⟩

theorem Property.toByte_of_ofByte? {k : UInt8} {q : Property} (h : ofByte? k = some q) : q.toByte = k := by
  rw [ofByte?.eq_def] at h
  split at h <;> cases h <;> rfl

theorem readProperty_accepts (pkt : PacketType) (p : Properties) :
    ∃ F, (readProperty pkt p).Accepts F ∧ ∀ r field, F r field → IsProperty field := by
  have hvalue : ∀ k, ∃ F, (readValue pkt p k).Accepts F ∧
      ∀ r field, F r field → ∃ q : Property, q.toByte = k ∧ q.Value field := by
    intro k
    unfold readValue
    split
    · exact ⟨_, Reader.accepts_fail _, fun _ _ => False.elim⟩
    · rename_i q hq
      split
      · obtain ⟨F, hF, hread⟩ := Property.read_accepts p q
        exact ⟨F, hF, fun r field hr => ⟨q, Property.toByte_of_ofByte? hq, (hread field).mpr ⟨r, hr⟩⟩⟩
      · exact ⟨_, Reader.accepts_fail _, fun _ _ => False.elim⟩
  choose F hF hread using hvalue
  refine ⟨_, decodeByte_accepts.andThen hF, ?_⟩
  rintro r _ ⟨k, _, second, rfl, hsecond, rfl⟩
  obtain ⟨q, rfl, hq⟩ := hread k r second hsecond
  exact ⟨q, second, hq, rfl⟩

theorem IsProperty.length_unique {field field' : Bytes} (h : IsProperty field) (h' : IsProperty field')
    (hpre : field <+: b) (hpre' : field' <+: b) : field.length = field'.length := by
  obtain ⟨q, value, hvalue, rfl⟩ := h
  obtain ⟨q', value', hvalue', rfl⟩ := h'
  obtain ⟨rest, rfl⟩ := hpre
  obtain ⟨hbyte, htail⟩ := List.cons_prefix_cons.mp hpre'
  have hsame : q' = q := by
    have hof := Property.ofByte?_toByte q
    rw [← hbyte, Property.ofByte?_toByte] at hof
    exact Option.some.inj hof
  subst hsame
  obtain ⟨F, hF, hread⟩ := Property.read_accepts {} q'
  obtain ⟨r, hr⟩ := (hread value).mp hvalue
  obtain ⟨r', hr'⟩ := (hread value').mp hvalue'
  have hlen := hF.length_unique hr hr' (List.prefix_append value rest) htail
  rw [List.length_cons, List.length_cons, hlen]

theorem PropertiesRead.whole (h : PropertiesRead pkt bt n p off q last) :
    ∃ fields : List Bytes, (∀ field ∈ fields, IsProperty field) ∧ fields.flatten <+: bt.drop off ∧
      last = off + fields.flatten.length := by
  induction h with
  | stop => exact ⟨[], fun _ h => absurd h List.not_mem_nil, List.nil_prefix, rfl⟩
  | @turn p p' q off off' last hlt hread hrest ih =>
    obtain ⟨F, hF, hproperty⟩ := readProperty_accepts pkt p
    obtain ⟨field, hfield, hpre, rfl⟩ := hF.eq_ok_iff.mp hread
    obtain ⟨fields, hfields, hpres, rfl⟩ := ih
    refine ⟨field :: fields, ?_, ?_, ?_⟩
    · exact List.forall_mem_cons.mpr ⟨hproperty _ _ hfield, hfields⟩
    · rw [List.flatten_cons]
      exact append_prefix_drop.mpr ⟨hpre, hpres⟩
    · rw [List.flatten_cons, List.length_append, Nat.add_assoc]

/-- The turns follow whole properties to their end. -/
theorem PropertiesRead.last_eq {fields : List Bytes} (h : PropertiesRead pkt bt n p off q last)
    (hfields : ∀ field ∈ fields, IsProperty field) (hpre : fields.flatten <+: bt.drop off)
    (hn : n = off + fields.flatten.length) : last = n := by
  induction fields generalizing p off with
  | nil =>
    cases h with
    | stop => exact hn.symm
    | turn hlt => exact absurd hn (Nat.ne_of_gt hlt)
  | cons field fields ih =>
    obtain ⟨hfield, hfields⟩ := List.forall_mem_cons.mp hfields
    rw [List.flatten_cons] at hpre hn
    rw [List.length_append] at hn
    obtain ⟨hpre, hpres⟩ := append_prefix_drop.mp hpre
    cases h with
    | stop hle =>
      obtain ⟨q, value, -, rfl⟩ := hfield
      rw [List.length_cons] at hn
      omega
    | @turn _ p' _ _ off' _ hlt hread hrest =>
      obtain ⟨F, hF, hproperty⟩ := readProperty_accepts pkt p
      obtain ⟨field', hfield', hpre', rfl⟩ := hF.eq_ok_iff.mp hread
      have hlen := hfield.length_unique (hproperty _ _ hfield') hpre hpre'
      rw [← hlen] at hrest
      exact ih hrest hfields hpres (by omega)

/-- Nothing behind the last offset has been looked at. -/
theorem PropertiesRead.move (h : PropertiesRead pkt bt n p off q last) (hbt : bt.take last <+: bt') :
    PropertiesRead pkt bt' n p off q last := by
  induction h with
  | stop hle => exact .stop hle
  | @turn p p' q off off' last hlt hread hrest ih =>
    obtain ⟨F, hF, -⟩ := readProperty_accepts pkt p
    obtain ⟨field, hfield, hpre, rfl⟩ := hF.eq_ok_iff.mp hread
    obtain ⟨_, -, -, hlast⟩ := hrest.whole
    have hkept : field <+: (bt.take last).drop off := by
      rw [List.drop_take]
      exact List.prefix_take_iff.mpr ⟨hpre, by omega⟩
    exact .turn hlt (hF.eq_ok_iff.mpr ⟨field, hfield, hkept.trans (hbt.drop off), rfl⟩) (ih hbt)

/-! ### The block and what is read of it -/

theorem Properties.decode_eq_ok_iff :
    p.decode pkt b = .ok (q, total) ↔
      ∃ n bu last, decodeLength b = .ok (n, bu) ∧ PropertiesRead pkt (b.drop bu) n p 0 q last ∧ total = n + bu := by
  unfold Properties.decode
  rw [Outcome.bind_eq_ok_iff]
  constructor
  · rintro ⟨⟨n, bu⟩, hlength, h⟩
    dsimp only at h
    split at h
    · rename_i hzero
      cases h
      exact ⟨n, bu, 0, hlength, .stop (Nat.le_of_eq hzero), rfl⟩
    · obtain ⟨r, hloop, h⟩ := Outcome.bind_eq_ok_iff.mp h
      cases h
      obtain ⟨last, hread⟩ := PropertiesRead.of_loop hloop
      exact ⟨n, bu, last, hlength, hread, rfl⟩
  · rintro ⟨n, bu, last, hlength, hread, rfl⟩
    refine ⟨(n, bu), hlength, ?_⟩
    dsimp only
    split
    · rename_i hzero
      cases hread with
      | stop => rfl
      | turn hlt => omega
    · rw [hread.loop]
      rfl

/-- The properties that were read fill the declared length, nothing behind it has been looked at, and the offset
that is returned is the one behind them. -/
structure Contained (p : Properties) (pkt : PacketType) (b : Bytes) (q : Properties) (total : Nat) : Prop where
  fills : ∃ n bu, decodeLength b = .ok (n, bu) ∧ PropertiesRead pkt (b.drop bu) n p 0 q n ∧ total = bu + n
  depends : ∀ b', b'.take total = b.take total → p.decode pkt b' = .ok (q, total)

/-- Decoding stays inside the declared length exactly if the declared bytes are whole properties. -/
theorem properties_contained_iff {p q : Properties} {pkt : PacketType} {b : Bytes} {total : Nat}
    (h : p.decode pkt b = .ok (q, total)) : Contained p pkt b q total ↔ WholeProperties b := by
  constructor
  · rintro ⟨⟨n, bu, hlength, hread, rfl⟩, -⟩
    obtain ⟨len, hlen, ⟨rest, rfl⟩, rfl⟩ := decodeLength_iff.mp hlength
    obtain ⟨fields, hfields, hpre, hn⟩ := hread.whole
    rw [List.drop_left] at hpre
    obtain ⟨rest, rfl⟩ := hpre
    rw [Nat.zero_add] at hn
    exact ⟨len, fields, rest, rfl, hn ▸ hlen, hfields⟩
  · rintro ⟨len, fields, rest, rfl, hlen, hfields⟩
    have hlength := decodeLength_iff.mpr ⟨len, hlen, List.prefix_append len (fields.flatten ++ rest), rfl⟩
    obtain ⟨n, bu, last, hlength', hread, rfl⟩ := Properties.decode_eq_ok_iff.mp h
    rw [hlength] at hlength'
    obtain ⟨rfl, rfl⟩ := Prod.mk.inj (Outcome.ok.inj hlength')
    rw [List.drop_left] at hread
    obtain rfl := hread.last_eq hfields (List.prefix_append _ _) (Nat.zero_add _).symm
    refine ⟨⟨_, _, hlength, (@List.drop_left _ len _).symm ▸ hread, Nat.add_comm _ _⟩, fun b' hb' => ?_⟩
    -- both byte strings start with the length field and the properties
    have hsame : len ++ fields.flatten <+: b' := by
      have htake : (len ++ (fields.flatten ++ rest)).take (fields.flatten.length + len.length) =
          len ++ fields.flatten := by
        rw [← List.append_assoc]
        exact List.take_left' (by rw [List.length_append, Nat.add_comm])
      rw [← htake, ← hb']
      exact List.take_prefix _ _
    obtain ⟨rest', rfl⟩ := hsame
    rw [List.append_assoc]
    refine Properties.decode_eq_ok_iff.mpr
      ⟨_, _, fields.flatten.length, decodeLength_iff.mpr ⟨len, hlen, List.prefix_append _ _, rfl⟩, ?_, rfl⟩
    rw [List.drop_left]
    refine hread.move ?_
    rw [List.take_left]
    exact List.prefix_append _ _

theorem decode_payloadFormat {rest : Bytes} {n : Nat} (v : UInt8) (hb : b = UInt8.ofNat n :: 1 :: v :: rest)
    (hn : n = 1 ∨ n = 2) :
    Properties.decode {} .publish b = .ok ({ payloadFormat := v, payloadFormatFlag := true }, n + 1) := by
  have hread : readProperty .publish {} (1 :: v :: rest) 0 =
      .ok ({ payloadFormat := v, payloadFormatFlag := true }, 2) := by
    have hfield : Reader.Reads (Property.payloadFormat.read {})
        { payloadFormat := v, payloadFormatFlag := true } [v] := by
      rw [Property.read]
      exact (reads_byte v).map rfl
    exact (Property.readProperty_of_reads (by decide) hfield).eq_ok (List.prefix_append [1, v] rest)
  have hlength : decodeLength b = .ok (n, 1) := by
    rcases hn with rfl | rfl <;> rw [hb] <;> rfl
  refine Properties.decode_eq_ok_iff.mpr ⟨n, 1, 2, hlength, ?_, rfl⟩
  rw [hb]
  exact .turn (by omega) hread (.stop (by omega))

theorem payloadFormat_contained :
    Properties.decode {} .publish [2, 1, 0, 7] = .ok ({ payloadFormat := 0, payloadFormatFlag := true }, 3) ∧
      Contained {} .publish [2, 1, 0, 7] { payloadFormat := 0, payloadFormatFlag := true } 3 := by
  have hdecode := decode_payloadFormat (b := [2, 1, 0, 7]) (n := 2) 0 rfl (.inr rfl)
  refine ⟨hdecode, (properties_contained_iff hdecode).mpr ⟨[2], [[1, 0]], [7], rfl, rfl, ?_⟩⟩
  exact List.forall_mem_singleton.mpr ⟨.payloadFormat, [0], ⟨0, rfl⟩, rfl⟩

/-- The value of a property that starts at the last declared byte is the byte behind the block. -/
theorem value_read_behind_block : ¬ ∀ (p q : Properties) (pkt : PacketType) (b : Bytes) (total : Nat),
    p.decode pkt b = .ok (q, total) → Contained p pkt b q total := by
  intro h
  have hfive := decode_payloadFormat (b := [1, 1, 5]) (n := 1) 5 rfl (.inl rfl)
  have hsix := decode_payloadFormat (b := [1, 1, 6]) (n := 1) 6 rfl (.inl rfl)
  have hsame := (h _ _ _ _ _ hfive).depends [1, 1, 6] rfl
  rw [hsix] at hsame
  have hvalue := congrArg (fun q : Properties => q.payloadFormat) (Prod.mk.inj (Outcome.ok.inj hsame)).1
  exact absurd hvalue (by decide)

end Mqtt
