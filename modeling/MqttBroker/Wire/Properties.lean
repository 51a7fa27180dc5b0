import MqttBroker.Wire.Codec

/-! Decoding a property block. The declared length comes from the peer and
bounds where a property may start; each value is read from all the bytes that
follow, as in the source. -/

namespace Mqtt
open Calls

inductive Property where
  | payloadFormat | messageExpiryInterval | contentType | responseTopic | correlationData
  | subscriptionIdentifier | sessionExpiryInterval | assignedClientID | serverKeepAlive
  | authenticationMethod | authenticationData | requestProblemInfo | willDelayInterval
  | requestResponseInfo | responseInfo | serverReference | reasonString | receiveMaximum
  | topicAliasMaximum | topicAlias | maximumQos | retainAvailable | user | maximumPacketSize
  | wildcardSubAvailable | subIDAvailable | sharedSubAvailable
  deriving DecidableEq, Repr

namespace Property

def ofByte? : UInt8 → Option Property
  | 1 => some payloadFormat
  | 2 => some messageExpiryInterval
  | 3 => some contentType
  | 8 => some responseTopic
  | 9 => some correlationData
  | 11 => some subscriptionIdentifier
  | 17 => some sessionExpiryInterval
  | 18 => some assignedClientID
  | 19 => some serverKeepAlive
  | 21 => some authenticationMethod
  | 22 => some authenticationData
  | 23 => some requestProblemInfo
  | 24 => some willDelayInterval
  | 25 => some requestResponseInfo
  | 26 => some responseInfo
  | 28 => some serverReference
  | 31 => some reasonString
  | 33 => some receiveMaximum
  | 34 => some topicAliasMaximum
  | 35 => some topicAlias
  | 36 => some maximumQos
  | 37 => some retainAvailable
  | 38 => some user
  | 39 => some maximumPacketSize
  | 40 => some wildcardSubAvailable
  | 41 => some subIDAvailable
  | 42 => some sharedSubAvailable
  | _ => none

def validPackets : Property → List PacketType
  | payloadFormat => [.publish, .willProperties]
  | messageExpiryInterval => [.publish, .willProperties]
  | contentType => [.publish, .willProperties]
  | responseTopic => [.publish, .willProperties]
  | correlationData => [.publish, .willProperties]
  | subscriptionIdentifier => [.publish, .subscribe]
  | sessionExpiryInterval => [.connect, .connack, .disconnect]
  | assignedClientID => [.connack]
  | serverKeepAlive => [.connack]
  | authenticationMethod => [.connect, .connack, .auth]
  | authenticationData => [.connect, .connack, .auth]
  | requestProblemInfo => [.connect]
  | willDelayInterval => [.willProperties]
  | requestResponseInfo => [.connect]
  | responseInfo => [.connack]
  | serverReference => [.connack, .disconnect]
  | reasonString => [.connack, .puback, .pubrec, .pubrel, .pubcomp, .suback, .unsuback,
      .disconnect, .auth]
  | receiveMaximum => [.connect, .connack]
  | topicAliasMaximum => [.connect, .connack]
  | topicAlias => [.publish]
  | maximumQos => [.connack]
  | retainAvailable => [.connack]
  | user => [.connect, .connack, .publish, .puback, .pubrec, .pubrel, .pubcomp, .subscribe,
      .suback, .unsubscribe, .unsuback, .disconnect, .auth, .willProperties]
  | maximumPacketSize => [.connect, .connack]
  | wildcardSubAvailable => [.connack]
  | subIDAvailable => [.connack]
  | sharedSubAvailable => [.connack]

def readSubscriptionIdentifier : Reader Error UInt8 Nat := fun bt offset => do
  let rest ← sliceFrom bt offset
  let (n, bu) ← decodeLength rest
  return (n, offset + bu)

def read (p : Properties) : Property → Reader Error UInt8 Properties
  | payloadFormat => Reader.map decodeByte fun v =>
      { p with payloadFormat := v, payloadFormatFlag := true }
  | messageExpiryInterval => Reader.map decodeUint32 fun v => { p with messageExpiryInterval := v }
  | contentType => Reader.map decodeString fun v => { p with contentType := v }
  | responseTopic => Reader.map decodeString fun v => { p with responseTopic := v }
  | correlationData => Reader.map decodeBytes fun v => { p with correlationData := v }
  | subscriptionIdentifier => Reader.map readSubscriptionIdentifier fun n =>
      { p with subscriptionIdentifier := p.subscriptionIdentifier ++ [(n : Int)] }
  | sessionExpiryInterval => Reader.map decodeUint32 fun v =>
      { p with sessionExpiryInterval := v, sessionExpiryIntervalFlag := true }
  | assignedClientID => Reader.map decodeString fun v => { p with assignedClientID := v }
  | serverKeepAlive => Reader.map decodeUint16 fun v =>
      { p with serverKeepAlive := v, serverKeepAliveFlag := true }
  | authenticationMethod => Reader.map decodeString fun v => { p with authenticationMethod := v }
  | authenticationData => Reader.map decodeBytes fun v => { p with authenticationData := v }
  | requestProblemInfo => Reader.map decodeByte fun v =>
      { p with requestProblemInfo := v, requestProblemInfoFlag := true }
  | willDelayInterval => Reader.map decodeUint32 fun v => { p with willDelayInterval := v }
  | requestResponseInfo => Reader.map decodeByte fun v => { p with requestResponseInfo := v }
  | responseInfo => Reader.map decodeString fun v => { p with responseInfo := v }
  | serverReference => Reader.map decodeString fun v => { p with serverReference := v }
  | reasonString => Reader.map decodeString fun v => { p with reasonString := v }
  | receiveMaximum => Reader.map decodeUint16 fun v => { p with receiveMaximum := v }
  | topicAliasMaximum => Reader.map decodeUint16 fun v => { p with topicAliasMaximum := v }
  | topicAlias => Reader.map decodeUint16 fun v =>
      { p with topicAlias := v, topicAliasFlag := true }
  | maximumQos => Reader.map decodeByte fun v => { p with maximumQos := v, maximumQosFlag := true }
  | retainAvailable => Reader.map decodeByte fun v =>
      { p with retainAvailable := v, retainAvailableFlag := true }
  | user => Reader.andThen decodeString fun k => Reader.map decodeString fun v =>
      { p with user := p.user ++ [⟨k, v⟩] }
  | maximumPacketSize => Reader.map decodeUint32 fun v => { p with maximumPacketSize := v }
  | wildcardSubAvailable => Reader.map decodeByte fun v =>
      { p with wildcardSubAvailable := v, wildcardSubAvailableFlag := true }
  | subIDAvailable => Reader.map decodeByte fun v =>
      { p with subIDAvailable := v, subIDAvailableFlag := true }
  | sharedSubAvailable => Reader.map decodeByte fun v =>
      { p with sharedSubAvailable := v, sharedSubAvailableFlag := true }

theorem readSubscriptionIdentifier_safe : Reader.Safe readSubscriptionIdentifier where
  ne_panic hle := by
    rw [readSubscriptionIdentifier, sliceFrom_eq_ok hle, Outcome.ok_bind]
    exact Outcome.bind_ne_panic (decodeLength_ne_panic _) (by simp)
  lt_next {buf off b next} hr := by
    simp only [readSubscriptionIdentifier, Outcome.bind_eq_ok_iff, Prod.exists, Outcome.pure_eq,
      Outcome.ok.injEq, Prod.mk.injEq] at hr
    obtain ⟨rest, -, n, bu, hn, -, rfl⟩ := hr
    have := (decodeLength_bounds hn).1
    omega
  next_le {buf off b next} hr := by
    simp only [readSubscriptionIdentifier, Outcome.bind_eq_ok_iff, Prod.exists, Outcome.pure_eq,
      Outcome.ok.injEq, Prod.mk.injEq] at hr
    obtain ⟨rest, hrest, n, bu, hn, -, rfl⟩ := hr
    rcases Nat.lt_or_ge buf.length off with hlt | hge
    · simp [sliceFrom, slice, Nat.not_le.mpr hlt] at hrest
    · rw [sliceFrom_eq_ok hge, Outcome.ok.injEq] at hrest
      have hb := (decodeLength_bounds hn).2
      rw [← hrest, List.length_drop] at hb
      omega

theorem read_safe (p : Properties) (q : Property) : (read p q).Safe := by
  cases q with
  | payloadFormat | requestProblemInfo | requestResponseInfo | maximumQos | retainAvailable
  | wildcardSubAvailable | subIDAvailable | sharedSubAvailable =>
    rw [read]; exact decodeByte_safe.map _
  | serverKeepAlive | receiveMaximum | topicAliasMaximum | topicAlias =>
    rw [read]; exact decodeUint16_safe.map _
  | messageExpiryInterval | sessionExpiryInterval | willDelayInterval | maximumPacketSize =>
    rw [read]; exact decodeUint32_safe.map _
  | contentType | responseTopic | assignedClientID | authenticationMethod | responseInfo
  | serverReference | reasonString =>
    rw [read]; exact decodeString_safe.map _
  | correlationData | authenticationData => rw [read]; exact decodeBytes_safe.map _
  | subscriptionIdentifier => rw [read]; exact readSubscriptionIdentifier_safe.map _
  | user => rw [read]; exact decodeString_safe.andThen fun _ => decodeString_safe.map _

end Property

def readValue (pkt : PacketType) (p : Properties) (k : UInt8) : Reader Error UInt8 Properties :=
  match Property.ofByte? k with
  | none => Reader.fail (.unsupportedProperty k pkt)
  | some q => if pkt ∈ q.validPackets then q.read p else Reader.fail (.unsupportedProperty k pkt)

theorem readValue_safe (pkt : PacketType) (p : Properties) (k : UInt8) : (readValue pkt p k).Safe := by
  rw [readValue]
  split
  · exact Reader.safe_fail _
  · split
    · exact Property.read_safe p _
    · exact Reader.safe_fail _

/-- One turn of the loop of `Properties.Decode`: the identifier, its validity, its value. -/
def readProperty (pkt : PacketType) (p : Properties) : Reader Error UInt8 Properties :=
  Reader.andThen decodeByte (readValue pkt p)

theorem readProperty_safe (pkt : PacketType) (p : Properties) : (readProperty pkt p).Safe :=
  decodeByte_safe.andThen (readValue_safe pkt p)

/-- The loop of `Properties.Decode` while the offset is below the declared length. -/
def decodePropertiesLoop (pkt : PacketType) (bt : Bytes) (n : Nat) (p : Properties) (offset : Nat) :
    Result Properties :=
  if offset < n then
    match _hr : readProperty pkt p bt offset with
    | .ok (p', offset') => decodePropertiesLoop pkt bt n p' offset'
    | .err e => .err e
    | .panic => .panic
  else .ok p
termination_by n - offset
decreasing_by
  have := (readProperty_safe pkt p).lt_next _hr
  omega

/-- `Properties.Decode`: the record and the number of bytes of the block, length field included. -/
def Properties.decode (p : Properties) (pkt : PacketType) (b : Bytes) : Result (Properties × Nat) := do
  let (n, bu) ← decodeLength b
  if n = 0 then return (p, n + bu)
  else do
    let p ← decodePropertiesLoop pkt (b.drop bu) n p 0
    return (p, n + bu)

variable {bt : Bytes} {n offset : Nat} {p q : Properties} {pkt : PacketType}

theorem decodePropertiesLoop_of_lt
    (hlt : offset < n) : decodePropertiesLoop pkt bt n p offset =
      readProperty pkt p bt offset >>= fun r => decodePropertiesLoop pkt bt n r.1 r.2 := by
  rw [decodePropertiesLoop, if_pos hlt]
  split
  all_goals
    rename_i heq
    rw [heq]
    rfl

theorem decodePropertiesLoop_ne_panic (hle : offset ≤ bt.length) : decodePropertiesLoop pkt bt n p offset ≠ .panic := by
  fun_induction decodePropertiesLoop pkt bt n p offset with
  | case1 p offset hlt p' offset' hr ih => exact ih ((readProperty_safe pkt p).next_le hr)
  | case2 => simp
  | case3 p offset hlt hr => exact absurd hr ((readProperty_safe pkt p).ne_panic hle)
  | case4 => simp

theorem decodePropertiesLoop_le (hle : offset ≤ bt.length) (h : decodePropertiesLoop pkt bt n p offset = .ok q) :
    n ≤ bt.length := by
  fun_induction decodePropertiesLoop pkt bt n p offset with
  | case1 p offset hlt p' offset' hr ih => exact ih ((readProperty_safe pkt p).next_le hr) h
  | case2 | case3 => simp at h
  | case4 p offset hge => omega

theorem Properties.decode_ne_panic (p : Properties) (pkt : PacketType) (b : Bytes) : p.decode pkt b ≠ .panic := by
  refine Outcome.bind_ne_panic (decodeLength_ne_panic b) ?_
  rintro ⟨n, bu⟩ -
  dsimp only
  split
  · simp
  · exact Outcome.bind_ne_panic (decodePropertiesLoop_ne_panic (Nat.zero_le _)) (by simp)

theorem Properties.decode_le {b : Bytes}
    (h : p.decode pkt b = .ok (q, n)) : n ≤ b.length := by
  simp only [Properties.decode, Outcome.bind_eq_ok_iff, Prod.exists] at h
  obtain ⟨n', bu, hl, h⟩ := h
  have hbu := (decodeLength_bounds hl).2
  split at h
  · simp only [Outcome.pure_eq, Outcome.ok.injEq, Prod.mk.injEq] at h
    omega
  · simp only [Outcome.bind_eq_ok_iff, Outcome.pure_eq, Outcome.ok.injEq, Prod.mk.injEq] at h
    obtain ⟨r, hr, -, rfl⟩ := h
    have := decodePropertiesLoop_le (Nat.zero_le _) hr
    rw [List.length_drop] at this
    omega

end Mqtt
