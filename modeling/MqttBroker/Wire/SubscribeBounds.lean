import MqttBroker.Wire.DecodeBounds
import MqttBroker.Wire.Formats

/-! The SUBSCRIBE decoder reads the options byte of an MQTT 5 filter without
asking whether the body has one. The bodies on which it leaves the buffer are
described as a format of their own: a packet identifier, a property block, and
filters of which the last one has no options byte. -/

namespace Mqtt
open Calls

inductive SubscribeProperty : Bytes → Prop
  | identifier {n : Nat} {field : Bytes} : VarintField n field → SubscribeProperty (11 :: field)
  | user {key val field field' : Bytes} : StringField key field → StringField val field' →
      SubscribeProperty (38 :: (field ++ field'))

/-- Bytes that start with properties until `n` of them are used up; the last property may end
after them. -/
inductive PropertyRun : Nat → Bytes → Prop
  | done (rest : Bytes) : PropertyRun 0 rest
  | item {n : Nat} {q rest : Bytes} : SubscribeProperty q → PropertyRun (n + 1 - q.length) rest →
      PropertyRun (n + 1) (q ++ rest)

inductive EndsWithoutOptions : Bytes → Prop
  | last {filter field : Bytes} : StringField filter field → EndsWithoutOptions field
  | cons {filter field rest : Bytes} {options : UInt8} : StringField filter field →
      options &&& 3 ≤ 2 → EndsWithoutOptions rest → EndsWithoutOptions (field ++ options :: rest)

def BareFilter (buf : Bytes) : Prop :=
  ∃ hi lo : UInt8, ∃ n : Nat, ∃ len body : Bytes, buf = hi :: lo :: (len ++ body) ∧
    VarintField n len ∧ PropertyRun n body ∧ EndsWithoutOptions (body.drop n)

/-! ### The property block -/

variable {prop : Property} {k : UInt8} {bt : Bytes} {p q : Properties}

theorem validPackets_subscribe (h : PacketType.subscribe ∈ prop.validPackets) :
    prop = .subscriptionIdentifier ∨ prop = .user := by
  revert h
  cases prop <;> decide

theorem ofByte?_of_subscribe (h : Property.ofByte? k = some prop)
    (hv : PacketType.subscribe ∈ prop.validPackets) :
    k = 11 ∧ prop = .subscriptionIdentifier ∨ k = 38 ∧ prop = .user := by
  have hprop := validPackets_subscribe hv
  rw [Property.ofByte?.eq_def] at h
  split at h
  case h_6 => exact .inl ⟨rfl, (Option.some.inj h).symm⟩
  case h_23 => exact .inr ⟨rfl, (Option.some.inj h).symm⟩
  case h_28 => cases h
  all_goals
    cases h
    rcases hprop with hprop | hprop <;> cases hprop

theorem readValue_subscribe {offset : Nat}
    {x : Properties × Nat} (h : readValue .subscribe p k bt offset = .ok x) :
    k = 11 ∨ k = 38 := by
  cases hprop : Property.ofByte? k with
  | none => simp [readValue, hprop, Reader.fail] at h
  | some prop =>
    by_cases hvalid : PacketType.subscribe ∈ prop.validPackets
    · exact (ofByte?_of_subscribe hprop hvalid).imp And.left And.left
    · simp [readValue, hprop, hvalid, Reader.fail] at h

theorem readValue_identifier_accepts (p : Properties) :
    (readValue .subscribe p 11).Accepts fun q field => ∃ n : Nat, VarintField n field ∧
      { p with subscriptionIdentifier := p.subscriptionIdentifier ++ [(n : Int)] } = q := by
  have heq : readValue .subscribe p 11 = Property.read p .subscriptionIdentifier := rfl
  rw [heq, Property.read]
  exact readSubscriptionIdentifier_accepts.map _

theorem readValue_user_accepts (p : Properties) :
    (readValue .subscribe p 38).Accepts fun q field => ∃ key first second,
      StringField key first ∧ (∃ val, StringField val second ∧
        { p with user := p.user ++ [⟨key, val⟩] } = q) ∧ field = first ++ second := by
  have heq : readValue .subscribe p 38 = Property.read p .user := rfl
  rw [heq, Property.read]
  exact decodeString_accepts.andThen fun _ => decodeString_accepts.map _

theorem readProperty_of_value {pkt : PacketType} {field : Bytes} {offset : Nat} (hpre : k :: field <+: bt.drop offset)
    (hv : field <+: bt.drop (offset + 1) →
      readValue pkt p k bt (offset + 1) = .ok (q, offset + 1 + field.length)) :
    readProperty pkt p bt offset = .ok (q, offset + (k :: field).length) := by
  obtain ⟨hk, hfield⟩ := append_prefix_drop (f := [k]).mp hpre
  have hlen : offset + (k :: field).length = offset + 1 + field.length := by
    rw [List.length_cons]
    omega
  rw [hlen]
  exact Reader.andThen_eq_ok_iff.mpr
    ⟨k, offset + 1, decodeByte_accepts.eq_ok_iff.mpr ⟨[k], rfl, hk, rfl⟩, hv hfield⟩

theorem readProperty_subscribe_iff {offset next : Nat} :
    (∃ q, readProperty .subscribe p bt offset = .ok (q, next)) ↔
      ∃ field, SubscribeProperty field ∧ field <+: bt.drop offset ∧ next = offset + field.length := by
  constructor
  · rintro ⟨q, hq⟩
    obtain ⟨k, mid, hk, hq⟩ := Reader.andThen_eq_ok_iff.mp hq
    obtain ⟨_, rfl, hpre, rfl⟩ := decodeByte_accepts.eq_ok_iff.mp hk
    rcases readValue_subscribe hq with rfl | rfl
    · obtain ⟨field, ⟨n, hn, -⟩, hpre', rfl⟩ := (readValue_identifier_accepts p).eq_ok_iff.mp hq
      refine ⟨[11] ++ field, .identifier hn, append_prefix_drop.mpr ⟨hpre, hpre'⟩, ?_⟩
      simp only [List.length_append]
      omega
    · obtain ⟨_, ⟨key, field, field', hkey, ⟨val, hval, -⟩, rfl⟩, hpre', rfl⟩ :=
        (readValue_user_accepts p).eq_ok_iff.mp hq
      refine ⟨[38] ++ (field ++ field'), .user hkey hval, append_prefix_drop.mpr ⟨hpre, hpre'⟩, ?_⟩
      simp only [List.length_append]
      omega
  · rintro ⟨_, hfield, hpre, rfl⟩
    cases hfield with
    | identifier hn =>
      exact ⟨_, readProperty_of_value hpre fun hrest =>
        (readValue_identifier_accepts p).eq_ok_iff.mpr ⟨_, ⟨_, hn, rfl⟩, hrest, rfl⟩⟩
    | user hkey hval =>
      exact ⟨_, readProperty_of_value hpre fun hrest =>
        (readValue_user_accepts p).eq_ok_iff.mpr ⟨_, ⟨_, _, _, hkey, ⟨_, hval, rfl⟩, rfl⟩, hrest, rfl⟩⟩

theorem decodePropertiesLoop_of_run {rest : Bytes} {m n : Nat} {offset : Nat}
    (h : PropertyRun m rest) (hrest : rest = bt.drop offset) (hm : m = n - offset) :
    ∃ q, decodePropertiesLoop .subscribe bt n p offset = .ok q := by
  induction h generalizing p offset with
  | done rest => exact ⟨p, by rw [decodePropertiesLoop, if_neg (by omega)]⟩
  | @item k q rest hq hrun ih =>
    obtain ⟨p', hp'⟩ := readProperty_subscribe_iff (p := p).mpr
      ⟨q, hq, hrest ▸ List.prefix_append q rest, rfl⟩
    have htail : rest = bt.drop (offset + q.length) := by
      rw [← List.drop_drop, ← hrest, List.drop_left]
    obtain ⟨r, hr⟩ := ih (p := p') htail (by omega)
    refine ⟨r, ?_⟩
    rw [decodePropertiesLoop_of_lt (by omega), hp', Outcome.ok_bind]
    exact hr

theorem run_of_decodePropertiesLoop {n : Nat} {offset : Nat}
    (h : decodePropertiesLoop .subscribe bt n p offset = .ok q) :
    PropertyRun (n - offset) (bt.drop offset) := by
  fun_induction decodePropertiesLoop .subscribe bt n p offset with
  | case1 p offset hlt p' next hr ih =>
    obtain ⟨field, hfield, ⟨rest, hrest⟩, rfl⟩ := readProperty_subscribe_iff.mp ⟨p', hr⟩
    have htail : rest = bt.drop (offset + field.length) := by
      rw [← List.drop_drop, ← hrest, List.drop_left]
    obtain ⟨k, hk⟩ : ∃ k, n - offset = k + 1 := ⟨n - offset - 1, by omega⟩
    rw [← hrest, hk]
    refine .item hfield ?_
    rw [htail, ← hk, Nat.sub_sub]
    exact ih h
  | case2 | case3 => simp at h
  | case4 p offset hge =>
    rw [Nat.sub_eq_zero_of_le (by omega)]
    exact .done _

theorem decode_subscribe_iff {b : Bytes} {next : Nat} :
    (∃ q, p.decode .subscribe b = .ok (q, next)) ↔
      ∃ n len body, b = len ++ body ∧ VarintField n len ∧ PropertyRun n body ∧
        next = n + len.length := by
  constructor
  · rintro ⟨q, hq⟩
    simp only [Properties.decode, Outcome.bind_eq_ok_iff, Prod.exists] at hq
    obtain ⟨n, bu, hl, hq⟩ := hq
    obtain ⟨len, hlen, ⟨body, rfl⟩, rfl⟩ := decodeLength_iff.mp hl
    split at hq
    · rename_i hzero
      simp only [Outcome.pure_eq, Outcome.ok.injEq, Prod.mk.injEq] at hq
      exact ⟨n, len, body, rfl, hlen, hzero ▸ .done body, hq.2.symm⟩
    · simp only [Outcome.bind_eq_ok_iff, Outcome.pure_eq, Outcome.ok.injEq, Prod.mk.injEq] at hq
      obtain ⟨r, hr, -, rfl⟩ := hq
      rw [List.drop_left] at hr
      exact ⟨n, len, body, rfl, hlen, run_of_decodePropertiesLoop hr, rfl⟩
  · rintro ⟨n, len, body, rfl, hlen, hrun, rfl⟩
    have hl : decodeLength (len ++ body) = .ok (n, len.length) :=
      decodeLength_iff.mpr ⟨len, hlen, List.prefix_append len body, rfl⟩
    by_cases hzero : n = 0
    · exact ⟨p, by rw [Properties.decode, hl, Outcome.ok_bind]; exact if_pos hzero⟩
    · obtain ⟨q, hq⟩ := decodePropertiesLoop_of_run (p := p) hrun (List.drop_zero).symm
        (Nat.sub_zero n).symm
      refine ⟨q, ?_⟩
      rw [Properties.decode, hl, Outcome.ok_bind]
      simp only [if_neg hzero, List.drop_left, hq, Outcome.ok_bind, Outcome.pure_eq]

theorem decodePropertiesAt_subscribe_iff {buf : Bytes} {offset next : Nat}
    (hle : offset ≤ buf.length) :
    (∃ q, decodePropertiesAt p .subscribe buf offset = .ok (q, next)) ↔
      ∃ n len body, buf.drop offset = len ++ body ∧ VarintField n len ∧ PropertyRun n body ∧
        next = offset + (n + len.length) := by
  simp only [decodePropertiesAt, sliceFrom_eq_ok hle, Outcome.ok_bind, orWrap, Outcome.pure_eq,
    Outcome.bind_eq_ok_iff, Outcome.mapErr_eq_ok_iff, Prod.exists, Outcome.ok.injEq, Prod.mk.injEq]
  constructor
  · rintro ⟨q, _, m, hq, -, rfl⟩
    obtain ⟨n, len, body, hb, hlen, hrun, rfl⟩ := decode_subscribe_iff.mp ⟨_, hq⟩
    exact ⟨n, len, body, hb, hlen, hrun, rfl⟩
  · rintro ⟨n, len, body, hb, hlen, hrun, rfl⟩
    obtain ⟨q, hq⟩ := decode_subscribe_iff (p := p).mpr ⟨n, len, body, hb, hlen, hrun, rfl⟩
    exact ⟨q, q, _, hq, rfl, rfl⟩

/-! ### The filters -/

namespace Packet
variable {pk : Packet} {buf : Bytes} {offset next : Nat}

theorem options_of_decodeFilter (h5 : pk.protocolVersion = 5) {sub : Subscription}
    (h : pk.decodeFilter buf offset = .ok (sub, next)) :
    ∃ filter field options, StringField filter field ∧ options &&& 3 ≤ 2 ∧
      buf.drop offset = field ++ options :: buf.drop next := by
  simp only [decodeFilter, orElse, decodeOptions, if_pos h5, Outcome.bind_eq_ok_iff,
    Outcome.mapErr_eq_ok_iff, Prod.exists, Outcome.pure_eq, Outcome.ok.injEq, Prod.mk.injEq] at h
  obtain ⟨filter, mid, hf, s, last, ⟨options, ho, rfl, rfl⟩, hq⟩ := h
  obtain ⟨field, hfield, ⟨rest, hrest⟩, rfl⟩ := decodeString_accepts.eq_ok_iff.mp hf
  split at hq
  · simp [fail] at hq
  · rename_i hqos
    simp only [Outcome.ok.injEq, Prod.mk.injEq] at hq
    obtain ⟨-, rfl⟩ := hq
    refine ⟨filter, field, options, hfield, UInt8.not_lt.mp hqos, ?_⟩
    rcases Nat.lt_or_ge (offset + field.length) buf.length with hlt | hge
    · rw [byteAt, index_eq_ok hlt, Outcome.ok.injEq] at ho
      rw [← ho, ← List.drop_eq_getElem_cons hlt, ← List.drop_drop, ← hrest, List.drop_left]
    · simp [byteAt, index_eq_panic hge] at ho

variable {field filter rest : Bytes} {filters : List Subscription}

theorem decodeFilter_of_options (h5 : pk.protocolVersion = 5)
    {options : UInt8} (hf : StringField filter field) (ho : options &&& 3 ≤ 2)
    (hrest : buf.drop offset = field ++ options :: rest) :
    ∃ sub, pk.decodeFilter buf offset = .ok (sub, offset + field.length + 1) := by
  have hread : decodeString buf offset = .ok (filter, offset + field.length) :=
    decodeString_accepts.eq_ok_iff.mpr ⟨field, hf, hrest ▸ List.prefix_append _ _, rfl⟩
  have htail : buf.drop (offset + field.length) = options :: rest := by
    rw [← List.drop_drop, hrest, List.drop_left]
  have hbyte : byteAt buf (offset + field.length) = .ok options := by
    rw [byteAt, index, ← Nat.add_zero (offset + field.length), ← List.getElem?_drop, htail]
    rfl
  simp only [decodeFilter, orElse, decodeOptions, if_pos h5, hread, hbyte, Outcome.mapErr_ok,
    Outcome.ok_bind, Outcome.pure_eq]
  exact ⟨_, if_neg (UInt8.not_lt.mpr ho)⟩

theorem decodeOptions_eq_panic_iff (hle : offset ≤ buf.length) :
    pk.decodeOptions filter buf offset = .panic ↔ pk.protocolVersion = 5 ∧ offset = buf.length := by
  rw [decodeOptions]
  split
  · rename_i h5
    rcases Nat.lt_or_ge offset buf.length with hlt | hge
    · simp [byteAt, index_eq_ok hlt, Nat.ne_of_lt hlt]
    · rw [byteAt, index_eq_panic hge]
      exact iff_of_true rfl ⟨h5, Nat.le_antisymm hle hge⟩
  · rename_i h5
    have hsafe : (orElse (decodeByte buf offset) .malformedQos) ≠ .panic :=
      Outcome.mapErr_ne_panic (decodeByte_safe.ne_panic hle)
    exact iff_of_false (Outcome.bind_ne_panic hsafe (by simp)) fun h => h5 h.1

theorem decodeFilter_eq_panic_iff (hle : offset ≤ buf.length) :
    pk.decodeFilter buf offset = .panic ↔ pk.protocolVersion = 5 ∧ ∃ filter, StringField filter (buf.drop offset) := by
  constructor
  · intro h
    rcases Outcome.bind_eq_panic_iff.mp h with h | ⟨⟨filter, mid⟩, hf, h⟩
    · exact absurd (Outcome.mapErr_eq_panic_iff.mp h) (decodeString_safe.ne_panic hle)
    · replace hf := Outcome.mapErr_eq_ok_iff.mp hf
      have hmid := decodeString_safe.next_le hf
      obtain ⟨field, hfield, ⟨rest, hrest⟩, rfl⟩ := decodeString_accepts.eq_ok_iff.mp hf
      rcases Outcome.bind_eq_panic_iff.mp h with h | ⟨⟨sub, last⟩, -, h⟩
      · obtain ⟨h5, hend⟩ := (decodeOptions_eq_panic_iff hmid).mp h
        have hnil : rest = [] := by
          have hrest' : rest = (field ++ rest).drop field.length := List.drop_left.symm
          rw [hrest', hrest, List.drop_drop]
          exact List.drop_eq_nil_of_le (Nat.le_of_eq hend.symm)
        exact ⟨h5, filter, by rw [← hrest, hnil, List.append_nil]; exact hfield⟩
      · dsimp only at h
        split at h <;> simp [fail] at h
  · rintro ⟨h5, filter, hfield⟩
    have hread : decodeString buf offset = .ok (filter, offset + (buf.drop offset).length) :=
      decodeString_accepts.eq_ok_iff.mpr ⟨_, hfield, List.prefix_refl _, rfl⟩
    rw [List.length_drop, Nat.add_sub_cancel' hle] at hread
    have hopt : pk.decodeOptions filter buf buf.length = .panic :=
      (decodeOptions_eq_panic_iff (Nat.le_refl _)).mpr ⟨h5, rfl⟩
    simp only [decodeFilter, orElse, hread, hopt, Outcome.mapErr_ok, Outcome.ok_bind,
      Outcome.panic_bind]

theorem subscribeLoop_of_panic (hlt : offset < buf.length)
    (h : pk.decodeFilter buf offset = .panic) : pk.subscribeLoop buf filters offset = .panic := by
  rw [subscribeLoop, if_pos hlt]
  split
  · rename_i heq
    simp [h] at heq
  · rename_i heq
    simp [h] at heq
  · rfl

theorem lt_length_of_field (hf : StringField filter field)
    (hrest : buf.drop offset = field ++ rest) : offset < buf.length := by
  obtain ⟨⟨hi, lo, rfl, -⟩, -⟩ := hf
  have := congrArg List.length hrest
  simp only [List.length_drop, List.length_append, List.length_cons] at this
  omega

theorem subscribeLoop_eq_panic (h5 : pk.protocolVersion = 5)
    (h : EndsWithoutOptions rest) (hrest : buf.drop offset = rest) (filters : List Subscription) :
    pk.subscribeLoop buf filters offset = .panic := by
  induction h generalizing offset filters with
  | @last filter field hf =>
    have hlt : offset < buf.length := lt_length_of_field hf (hrest.trans (List.append_nil _).symm)
    refine subscribeLoop_of_panic hlt ?_
    exact (decodeFilter_eq_panic_iff (Nat.le_of_lt hlt)).mpr ⟨h5, filter, hrest ▸ hf⟩
  | @cons filter field rest options hf ho hend ih =>
    obtain ⟨sub, hsub⟩ := decodeFilter_of_options h5 hf ho hrest
    rw [subscribeLoop_of_filter (lt_length_of_field hf hrest) hsub]
    refine ih ?_ _
    rw [Nat.add_assoc, ← List.drop_drop, hrest, ← List.drop_drop, List.drop_left]
    rfl

theorem endsWithoutOptions_of_panic (hle : offset ≤ buf.length)
    (h : pk.subscribeLoop buf filters offset = .panic) :
    pk.protocolVersion = 5 ∧ EndsWithoutOptions (buf.drop offset) := by
  fun_induction subscribeLoop pk buf filters offset with
  | case1 filters offset hlt sub next hr ih =>
    obtain ⟨h5, hend⟩ := ih (decodeFilter_bounds hr).2 h
    obtain ⟨filter, field, options, hf, ho, hrest⟩ := options_of_decodeFilter h5 hr
    exact ⟨h5, hrest ▸ .cons hf ho hend⟩
  | case2 => simp at h
  | case3 filters offset hlt hr =>
    obtain ⟨h5, filter, hf⟩ := (decodeFilter_eq_panic_iff hle).mp hr
    exact ⟨h5, .last hf⟩
  | case4 => simp at h

theorem bareFilter_of_panic (htype : pk.fixedHeader.type = .subscribe)
    (h : pk.subscribeDecode buf = .panic) : pk.protocolVersion = 5 ∧ BareFilter buf := by
  have hid := (inside_decodeUint16 (Nat.zero_le buf.length)).orElse .malformedPacketID
  rcases Outcome.bind_eq_panic_iff.mp h with h | ⟨⟨id, mid⟩, hread, h⟩
  · exact absurd h hid.ne_panic
  have hmid := hid.next_le hread
  obtain ⟨_, ⟨hi, lo, rfl, -⟩, ⟨rest, hrest⟩, rfl⟩ :=
    decodeUint16_accepts.eq_ok_iff.mp (Outcome.mapErr_eq_ok_iff.mp hread)
  have hblock := (inside_decodePropertiesAt pk.properties pk.fixedHeader.type hmid).optional
    (pk.protocolVersion == 5) pk.properties hmid
  rcases Outcome.bind_eq_panic_iff.mp h with h | ⟨⟨props, offset⟩, hprops, h⟩
  · exact absurd h hblock.ne_panic
  have hoff := hblock.next_le hprops
  rcases Outcome.bind_eq_panic_iff.mp h with h | ⟨filters, -, h⟩
  · obtain ⟨h5, hend⟩ := endsWithoutOptions_of_panic hoff h
    rw [optional, if_pos (by simpa using h5), htype] at hprops
    obtain ⟨n, len, body, hb, hlen, hrun, rfl⟩ := (decodePropertiesAt_subscribe_iff hmid).mp ⟨_, hprops⟩
    refine ⟨h5, hi, lo, n, len, body, ?_, hlen, hrun, ?_⟩
    · rw [← hb, ← List.drop_zero (l := buf), ← hrest]
      rfl
    · have hsum : 0 + [hi, lo].length + (n + len.length) = 0 + [hi, lo].length + (len.length + n) := by
        omega
      rw [hsum, ← List.drop_drop, hb, ← List.drop_drop, List.drop_left] at hend
      exact hend
  · simp at h

theorem subscribeDecode_eq_panic_iff (htype : pk.fixedHeader.type = .subscribe) :
    pk.subscribeDecode buf = .panic ↔ pk.protocolVersion = 5 ∧ BareFilter buf := by
  refine ⟨bareFilter_of_panic htype, ?_⟩
  rintro ⟨h5, hi, lo, n, len, body, rfl, hlen, hrun, hend⟩
  have hid : decodeUint16 (hi :: lo :: (len ++ body)) 0 = .ok (hi.toUInt16 <<< 8 ||| lo.toUInt16, 2) :=
    decodeUint16_of_drop rfl
  have hle : 2 ≤ (hi :: lo :: (len ++ body)).length := by simp
  obtain ⟨q, hq⟩ := (decodePropertiesAt_subscribe_iff (p := pk.properties) hle).mpr
    ⟨n, len, body, rfl, hlen, hrun, rfl⟩
  have hdrop : (hi :: lo :: (len ++ body)).drop (2 + (n + len.length)) = body.drop n := by
    rw [← List.drop_drop, Nat.add_comm n, ← List.drop_drop]
    exact congrArg (List.drop n) List.drop_left
  simp only [subscribeDecode, orElse, hid, htype, hq, optional, h5, beq_self_eq_true, if_true,
    Outcome.mapErr_ok, Outcome.ok_bind]
  rw [subscribeLoop_eq_panic ?_ hend hdrop, Outcome.panic_bind]
  rfl

end Packet

theorem readPacket_ne_panic_iff (protocolVersion : UInt8) (fh : FixedHeader) (buf : Bytes) :
    readPacket protocolVersion fh buf ≠ .panic ↔
      ¬ (fh.type = .subscribe ∧ protocolVersion = 5 ∧ BareFilter buf) := by
  by_cases h : fh.type = .subscribe
  · have hread : readPacket protocolVersion fh buf =
        Packet.subscribeDecode { protocolVersion, fixedHeader := fh } buf := by
      rw [readPacket, h]
    rw [hread, ne_eq, Packet.subscribeDecode_eq_panic_iff h]
    simp [h]
  · simp [h, readPacket_ne_panic_of_ne_subscribe protocolVersion fh buf h]

/-- The body `00 01 00 00 01 61` of an MQTT 5 SUBSCRIBE: no properties, the filter `a`, no options. -/
theorem readPacket_eq_panic : ¬ ∀ (protocolVersion : UInt8) (fh : FixedHeader) (buf : Bytes),
    fh.remaining = buf.length → readPacket protocolVersion fh buf ≠ .panic := by
  intro h
  refine h 5 { type := .subscribe, remaining := 6, qos := 1 } [0, 1, 0, 0, 1, 97] rfl ?_
  refine (Packet.subscribeDecode_eq_panic_iff rfl).mpr ⟨rfl, 0, 1, 0, [0], [0, 1, 97], rfl, rfl, .done _, ?_⟩
  have hfield : StringField [97] [0, 1, 97] := ⟨⟨0, 1, rfl, rfl⟩, by decide⟩
  exact .last hfield

end Mqtt
