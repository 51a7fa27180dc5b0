import MqttBroker.Wire.Fields
import Mathlib.Data.List.TakeWhile
import Mathlib.Data.Nat.Digits.Defs

/-! The variable byte integer as it is read from a stream. `DecodeLength` takes one byte
after the other and leaves the rest, so that how far it has read is part of what it does;
the format allows four bytes, all but the last of them with the top bit set. -/

namespace Mqtt
open Calls

def lengthBytesRead (b : Bytes) : Nat := b.length - (readLength b).2.2.length

/-! ### The format -/

def Continues (eb : UInt8) : Prop := eb &&& 128 ≠ 0

instance (eb : UInt8) : Decidable (Continues eb) := inferInstanceAs (Decidable (_ ≠ _))

structure IsVarint (field : Bytes) : Prop where
  length_le : field.length ≤ 4
  bytes : ∃ high last, field = high ++ [last] ∧ (∀ eb ∈ high, Continues eb) ∧ ¬ Continues last

def varintValue (field : Bytes) : Nat := Nat.ofDigits 128 (field.map fun eb => (eb &&& 127).toNat)

theorem varintValue_cons (eb : UInt8) (field : Bytes) :
    varintValue (eb :: field) = (eb &&& 127).toNat + 128 * varintValue field := by
  unfold varintValue
  rw [List.map_cons, Nat.ofDigits_cons]

/-- What the format asks of `DecodeLength` on a stream. -/
structure ReadsVarint (b : Bytes) : Prop where
  read_le : lengthBytesRead b ≤ 4
  succeeds_iff : (∃ n, (readLength b).1 = .ok n) ↔ ∃ field, IsVarint field ∧ field <+: b
  eq_ok : ∀ field, IsVarint field → field <+: b →
    readLength b = (.ok (varintValue field), field.length, b.drop field.length)
  fails : (¬ ∃ field, IsVarint field ∧ field <+: b) → ∃ e, (readLength b).1 = .err e

/-! ### The first four bytes -/

variable {i n : Nat} {m v : UInt32} {b : Bytes}

theorem next_value (eb : UInt8) (hm : m.toNat = 7 * i) (hi : i < 4)
    (hv : v.toNat < 2 ^ m.toNat) :
    (v ||| shiftLeft (eb &&& 127).toUInt32 m).toNat = v.toNat + (eb &&& 127).toNat * 2 ^ m.toNat ∧
      (v ||| shiftLeft (eb &&& 127).toUInt32 m).toNat < 2 ^ (m.toNat + 7) ∧
      ¬ (v ||| shiftLeft (eb &&& 127).toUInt32 m) > 268435455 := by
  have hlow : (eb &&& 127).toNat ≤ 127 := by
    rw [UInt8.toNat_and]
    exact Nat.and_le_right
  have hseven : (eb &&& 127).toNat * 2 ^ m.toNat ≤ 127 * 2 ^ m.toNat := Nat.mul_le_mul_right _ hlow
  have hpow : 2 ^ (m.toNat + 7) = 128 * 2 ^ m.toNat := by rw [Nat.pow_add, Nat.mul_comm]
  have hmax : 2 ^ (m.toNat + 7) ≤ 2 ^ 28 := Nat.pow_le_pow_right (by decide) (by omega)
  have hvalue := toNat_or_shiftLeft (b := eb &&& 127) (m := m) (v := v) (by omega) hv
  refine ⟨hvalue, by omega, fun hgt => ?_⟩
  have hgt : 268435455 < (v ||| shiftLeft (eb &&& 127).toUInt32 m).toNat := UInt32.lt_iff_toNat_lt.mp hgt
  omega

theorem readLengthLoop_continued (high rest : Bytes) (bu : Nat)
    (hm : m.toNat = 7 * i) (hi : i + high.length ≤ 4) (hv : v.toNat < 2 ^ m.toNat)
    (hhigh : ∀ eb ∈ high, Continues eb) :
    ∃ m' v' : UInt32, m'.toNat = 7 * (i + high.length) ∧ v'.toNat < 2 ^ m'.toNat ∧
      v'.toNat = v.toNat + varintValue high * 2 ^ m.toNat ∧
      readLengthLoop (high ++ rest) m v bu = readLengthLoop rest m' v' (bu + high.length) := by
  induction high generalizing m v i bu with
  | nil =>
    refine ⟨m, v, hm, hv, ?_, rfl⟩
    show v.toNat = v.toNat + 0 * 2 ^ m.toNat
    omega
  | cons eb high ih =>
    rw [List.length_cons] at hi
    obtain ⟨hvalue, hfits, hmax⟩ := next_value eb hm (by omega) hv
    have hshift : (m + 7).toNat = m.toNat + 7 := by
      rw [UInt32.toNat_add]
      exact Nat.mod_eq_of_lt (by show m.toNat + 7 < _; omega)
    obtain ⟨m', v', hm', hv', hsum, hrest⟩ := ih (bu + 1) (m := m + 7)
      (v := v ||| shiftLeft (eb &&& 127).toUInt32 m) (i := i + 1) (by omega) (by omega)
      (by rw [hshift]; exact hfits) (fun eb' h => hhigh eb' (List.mem_cons_of_mem _ h))
    refine ⟨m', v', ?_, hv', ?_, ?_⟩
    · rw [hm', List.length_cons]
      omega
    · rw [hsum, hvalue, hshift, varintValue_cons, Nat.pow_add, Nat.add_mul]
      ring
    · have hcont : ¬ (eb &&& 128 = 0) := hhigh eb List.mem_cons_self
      rw [List.cons_append, readLengthLoop, if_neg hmax, if_neg hcont, hrest, List.length_cons]
      congr 1
      omega

theorem readLengthLoop_last {last : UInt8} (rest : Bytes) (bu : Nat) (hm : m.toNat = 7 * i)
    (hi : i < 4) (hv : v.toNat < 2 ^ m.toNat) (hlast : ¬ Continues last) : readLengthLoop (last :: rest) m v bu =
      (.ok (v.toNat + (last &&& 127).toNat * 2 ^ m.toNat), bu, rest) := by
  obtain ⟨hvalue, -, hmax⟩ := next_value last hm hi hv
  rw [readLengthLoop, if_neg hmax, if_pos (Decidable.not_not.mp hlast), hvalue]

theorem unread_lt (eb : UInt8) (rest : Bytes) (m v : UInt32) (bu : Nat) :
    (readLengthLoop (eb :: rest) m v bu).2.2.length < (eb :: rest).length := by
  induction rest generalizing eb m v bu with
  | nil =>
    rw [readLengthLoop]
    split
    · exact Nat.one_pos
    · split
      · exact Nat.one_pos
      · exact Nat.one_pos
  | cons eb' rest ih =>
    rw [readLengthLoop]
    split
    · exact Nat.lt_succ_self _
    · split
      · exact Nat.lt_succ_self _
      · exact Nat.lt_succ_of_lt (ih _ _ _ _)

theorem varintValue_append (high : Bytes) (last : UInt8) :
    varintValue (high ++ [last]) = varintValue high + (last &&& 127).toNat * 128 ^ high.length := by
  unfold varintValue
  rw [List.map_append, Nat.ofDigits_append, List.length_map, List.map_singleton, Nat.ofDigits_singleton, Nat.mul_comm]

theorem readLength_of_varint {field : Bytes} (rest : Bytes) (h : IsVarint field) :
    readLength (field ++ rest) = (.ok (varintValue field), field.length, rest) := by
  obtain ⟨hlen, high, last, rfl, hhigh, hlast⟩ := h
  rw [List.length_append, List.length_singleton] at hlen
  obtain ⟨m, v, hm, hv, hsum, hloop⟩ := readLengthLoop_continued high (last :: rest) (m := 0) (v := 0) (i := 0)
    1 rfl (by omega) (by decide) hhigh
  have hpow : 2 ^ m.toNat = 128 ^ high.length := by
    rw [hm, Nat.zero_add, Nat.pow_mul]
  have hzero : v.toNat = varintValue high := by
    rw [hsum]
    show 0 + varintValue high * 1 = _
    omega
  unfold readLength
  rw [List.append_assoc, List.singleton_append, hloop, readLengthLoop_last rest _ hm (by omega) hv hlast, hzero, hpow,
    varintValue_append, List.length_append, List.length_singleton, Nat.add_comm 1]

theorem five_read (hlen : 5 ≤ b.length) (hfour : ∀ eb ∈ b.take 4, Continues eb) : 4 < lengthBytesRead b := by
  have htake : (b.take 4).length = 4 := by rw [List.length_take]; omega
  obtain ⟨m, v, -, -, -, hloop⟩ := readLengthLoop_continued (b.take 4) (b.drop 4) (m := 0) (v := 0) (i := 0) 1 rfl
    (by omega) (by decide) hfour
  rw [List.take_append_drop] at hloop
  cases hdrop : b.drop 4 with
  | nil =>
    have := congrArg List.length hdrop
    rw [List.length_drop, List.length_nil] at this
    omega
  | cons eb rest =>
    have hunread := unread_lt eb rest m v (1 + (b.take 4).length)
    rw [← hdrop, ← hloop, List.length_drop] at hunread
    unfold lengthBytesRead readLength
    omega

theorem readLength_of_short (hlen : b.length ≤ 4) (hall : ∀ eb ∈ b, Continues eb) :
    readLength b = (.err .eof, 1 + b.length, []) := by
  obtain ⟨m, v, -, -, -, hloop⟩ := readLengthLoop_continued b [] (m := 0) (v := 0) (i := 0) 1 rfl (by omega)
    (by decide) hall
  unfold readLength
  rw [List.append_nil] at hloop
  rw [hloop]
  rfl

theorem varint_or_continued (b : Bytes) : (∃ field, IsVarint field ∧ field <+: b) ∨ ∀ eb ∈ b.take 4, Continues eb := by
  have hhigh : ∀ eb ∈ (b.take 4).takeWhile (Continues ·), Continues eb := by
    intro eb h
    have hcont := List.mem_takeWhile_imp h
    exact of_decide_eq_true hcont
  have hsplit := List.takeWhile_append_dropWhile (p := (Continues ·)) (l := b.take 4)
  cases hrest : (b.take 4).dropWhile (Continues ·) with
  | nil =>
    rw [hrest, List.append_nil] at hsplit
    exact .inr (hsplit ▸ hhigh)
  | cons last rest =>
    have hlast : ¬ Continues last := by
      have hne : (b.take 4).dropWhile (Continues ·) ≠ [] := by rw [hrest]; exact List.cons_ne_nil _ _
      have hhead := List.head_dropWhile_not (Continues ·) hne
      simp only [hrest, List.head_cons] at hhead
      exact of_decide_eq_false hhead
    rw [hrest] at hsplit
    refine .inl ⟨(b.take 4).takeWhile (Continues ·) ++ [last], ⟨?_, _, last, rfl, hhigh, hlast⟩, ?_⟩
    · have hlen := congrArg List.length hsplit
      rw [List.length_append, List.length_cons, List.length_take] at hlen
      rw [List.length_append, List.length_singleton]
      omega
    · refine List.IsPrefix.trans ?_ (List.take_prefix 4 b)
      refine ⟨rest, ?_⟩
      rw [List.append_assoc, List.singleton_append, hsplit]

theorem not_varint_of_continued (hfour : ∀ eb ∈ b.take 4, Continues eb) : ¬ ∃ field, IsVarint field ∧ field <+: b := by
  rintro ⟨field, ⟨hlen, high, last, rfl, -, hlast⟩, hpre⟩
  have htake : high ++ [last] <+: b.take 4 := List.prefix_take_iff.mpr ⟨hpre, hlen⟩
  exact hlast (hfour last (htake.subset (List.mem_append_right _ (List.mem_singleton_self last))))

/-- The length is read as the format says, unless four bytes that announce another one are followed by a fifth. -/
theorem readsVarint_iff (b : Bytes) : ReadsVarint b ↔ ¬ (5 ≤ b.length ∧ ∀ eb ∈ b.take 4, Continues eb) := by
  constructor
  · rintro h ⟨hlen, hfour⟩
    exact Nat.not_le.mpr (five_read hlen hfour) h.read_le
  · intro hnot
    rcases varint_or_continued b with ⟨field, hfield, rest, rfl⟩ | hfour
    · have hread := readLength_of_varint rest hfield
      have hsame : ∀ field', IsVarint field' → field' <+: field ++ rest →
          readLength (field ++ rest) =
            (.ok (varintValue field'), field'.length, (field ++ rest).drop field'.length) := by
        rintro field' hfield' ⟨rest', hrest'⟩
        rw [← hrest', List.drop_left]
        exact readLength_of_varint rest' hfield'
      refine ⟨?_, ?_, hsame, ?_⟩
      · have hle := hfield.length_le
        unfold lengthBytesRead
        rw [hread, List.length_append]
        show field.length + rest.length - rest.length ≤ 4
        omega
      · rw [hread]
        exact iff_of_true ⟨_, rfl⟩ ⟨field, hfield, List.prefix_append _ _⟩
      · exact fun hnone => absurd ⟨field, hfield, List.prefix_append _ _⟩ hnone
    · have hnone := not_varint_of_continued hfour
      have hshort : b.length ≤ 4 := by
        by_contra hlong
        exact hnot ⟨by omega, hfour⟩
      rw [List.take_of_length_le hshort] at hfour
      have hread := readLength_of_short hshort hfour
      refine ⟨?_, ?_, fun field hfield hpre => absurd ⟨field, hfield, hpre⟩ hnone, fun _ => ⟨.eof, by rw [hread]⟩⟩
      · unfold lengthBytesRead
        omega
      · rw [hread]
        refine iff_of_false ?_ hnone
        rintro ⟨n, hn⟩
        cases hn

/-- Five bytes are accepted as the integer zero. -/
theorem overlong_length_accepted :
    readLength [0x80, 0x80, 0x80, 0x80, 0x00] = (.ok 0, 5, []) ∧ ¬ ∀ b : Bytes, ReadsVarint b := by
  refine ⟨rfl, fun h => ?_⟩
  have hread := (h [0x80, 0x80, 0x80, 0x80, 0x00]).read_le
  have hfive : lengthBytesRead [0x80, 0x80, 0x80, 0x80, 0x00] = 5 := by decide
  omega

/-! ### The integer that is written -/

theorem encodeLength_bytes (n : Nat) :
    ∃ high last, encodeLength n = high ++ [last] ∧ (∀ eb ∈ high, Continues eb) ∧ ¬ Continues last := by
  induction n using Nat.strong_induction_on with
  | h n ih =>
    have hsmall : UInt8.ofNat (n % 128) < 128 := by
      rw [UInt8.lt_iff_toNat_lt, UInt8.toNat_ofNat']
      show n % 128 % 256 < 128
      omega
    rw [encodeLength]
    split
    · rename_i hmore
      obtain ⟨high, last, heq, hhigh, hlast⟩ := ih (n / 128) (by omega)
      refine ⟨(UInt8.ofNat (n % 128) ||| 0x80) :: high, last, by rw [heq]; rfl, ?_, hlast⟩
      intro eb heb
      rcases List.mem_cons.mp heb with rfl | heb
      · exact (continued_byte _ hsmall).2
      · exact hhigh eb heb
    · exact ⟨[], _, rfl, fun eb h => absurd h List.not_mem_nil, fun hcont => hcont (last_byte _ hsmall).2⟩

theorem varintValue_encodeLength (n : Nat) : varintValue (encodeLength n) = n := by
  induction n using Nat.strong_induction_on with
  | h n ih =>
    have hbyte : (UInt8.ofNat (n % 128)).toNat = n % 128 := by
      rw [UInt8.toNat_ofNat']
      omega
    have hsmall : UInt8.ofNat (n % 128) < 128 := by
      rw [UInt8.lt_iff_toNat_lt, hbyte]
      exact Nat.mod_lt _ (by decide)
    rw [encodeLength]
    split
    · rename_i hmore
      rw [varintValue_cons, (continued_byte _ hsmall).1, hbyte, ih (n / 128) (by omega)]
      exact Nat.mod_add_div n 128
    · rename_i hlast
      rw [varintValue_cons, (last_byte _ hsmall).1, hbyte]
      show n % 128 + 128 * 0 = n
      omega

theorem encodeLength_length_pos (n : Nat) : 0 < (encodeLength n).length := by
  rw [encodeLength]
  split
  · exact Nat.succ_pos _
  · exact Nat.one_pos

theorem encodeLength_length_le {k : Nat} (h : n < 128 ^ k) (hk : 0 < k) : (encodeLength n).length ≤ k := by
  induction k generalizing n with
  | zero => exact absurd hk (Nat.lt_irrefl 0)
  | succ k ih =>
    rw [encodeLength]
    split
    · rename_i hmore
      have hdigits : n / 128 < 128 ^ k := Nat.div_lt_of_lt_mul (by rw [Nat.mul_comm, ← Nat.pow_succ]; exact h)
      have hpos : 0 < k := by
        rcases Nat.eq_zero_or_pos k with rfl | hpos
        · rw [Nat.pow_zero] at hdigits
          omega
        · exact hpos
      have hle := ih hdigits hpos
      rw [List.length_cons]
      omega
    · exact Nat.le_add_left 1 k

theorem isVarint_encodeLength (h : n ≤ 268435455) : IsVarint (encodeLength n) :=
  ⟨encodeLength_length_le (by omega) (by decide), encodeLength_bytes n⟩

theorem decodeLength_encodeLength (h : n ≤ 268435455) (rest : Bytes) :
    decodeLength (encodeLength n ++ rest) = .ok (n, (encodeLength n).length) := by
  rw [decodeLength, readLength_of_varint rest (isVarint_encodeLength h), varintValue_encodeLength]
  rfl

theorem reads_subscriptionIdentifier {n : Nat} (h : n ≤ 268435455) :
    Reader.Reads Property.readSubscriptionIdentifier n (encodeLength n) := by
  refine readSubscriptionIdentifier_accepts.reads ?_
  have hread := decodeLength_encodeLength h []
  rw [List.append_nil] at hread
  exact hread

theorem varintValue_lt (field : Bytes) : varintValue field < 128 ^ field.length := by
  have hdigits : ∀ d ∈ field.map (fun eb => (eb &&& 127).toNat), d < 128 := by
    intro d hd
    obtain ⟨eb, -, rfl⟩ := List.mem_map.mp hd
    rw [UInt8.toNat_and]
    exact Nat.lt_succ_of_le Nat.and_le_right
  have hlt := Nat.ofDigits_lt_base_pow_length (b := 128) (by decide) hdigits
  rw [List.length_map] at hlt
  exact hlt

theorem exists_varint_of_readLength (hlen : b.length ≤ 4) (h : (readLength b).1 = .ok n) :
    ∃ field, IsVarint field ∧ field <+: b ∧ varintValue field = n := by
  rcases varint_or_continued b with ⟨field, hfield, rest, rfl⟩ | hfour
  · rw [readLength_of_varint rest hfield] at h
    exact ⟨field, hfield, List.prefix_append _ _, Outcome.ok.inj h⟩
  · rw [List.take_of_length_le hlen] at hfour
    rw [readLength_of_short hlen hfour] at h
    cases h

/-- A number that is written is read again, up to the end of what was written; nothing shorter is read as it. -/
theorem readLength_encodeLength_minimal {n : Nat} (h : n ≤ 268435455) (rest : Bytes) :
    (1 ≤ (encodeLength n).length ∧ (encodeLength n).length ≤ 4) ∧
      readLength (encodeLength n ++ rest) = (.ok n, (encodeLength n).length, rest) ∧
      ∀ b : Bytes, b.length < (encodeLength n).length → (readLength b).1 ≠ .ok n := by
  have hvarint := isVarint_encodeLength h
  refine ⟨⟨encodeLength_length_pos n, hvarint.length_le⟩, ?_, ?_⟩
  · rw [readLength_of_varint rest hvarint, varintValue_encodeLength]
  · intro b hshort hread
    obtain ⟨field, ⟨-, high, last, rfl, -, -⟩, hpre, hvalue⟩ :=
      exists_varint_of_readLength (by have := hvarint.length_le; omega) hread
    have hlt := varintValue_lt (high ++ [last])
    rw [hvalue] at hlt
    have hle := encodeLength_length_le hlt (by rw [List.length_append]; exact Nat.succ_pos _)
    have hprefix := hpre.length_le
    omega

/-- The smallest number that takes three bytes. -/
theorem readLength_encodeLength_boundary :
    (16384 : Nat) ≤ 268435455 ∧ (1 ≤ (encodeLength 16384).length ∧ (encodeLength 16384).length ≤ 4) ∧
      readLength (encodeLength 16384 ++ [0x80]) = (.ok 16384, (encodeLength 16384).length, [0x80]) ∧
      ∀ b : Bytes, b.length < (encodeLength 16384).length → (readLength b).1 ≠ .ok 16384 :=
  ⟨by decide, readLength_encodeLength_minimal (by decide) [0x80]⟩

/-! ### A packet on a stream -/

/-- `ReadFixedHeader` and `ReadPacket`: the first byte, the length, and as many bytes as it says. -/
def readFrame (protocolVersion : UInt8) : Bytes → Result Packet
  | [] => .err .eof
  | hb :: rest => do
    let fh ← FixedHeader.decode {} hb
    let (remaining, bu) ← decodeLength rest
    if rest.length < bu + remaining then .err .eof
    else readPacket protocolVersion { fh with remaining } ((rest.drop bu).take remaining)

theorem readFrame_frame {pk : Packet} {fh : FixedHeader} {body : Bytes} (v : UInt8)
    (hheader : FixedHeader.decode {} pk.fixedHeader.firstByte = .ok fh) (hlen : body.length ≤ 268435455) :
    readFrame v (pk.frame body) = readPacket v { fh with remaining := body.length } body := by
  show readFrame v (pk.fixedHeader.firstByte :: (encodeLength body.length ++ body)) = _
  unfold readFrame
  dsimp only
  rw [hheader, Outcome.ok_bind, decodeLength_encodeLength hlen, Outcome.ok_bind]
  dsimp only
  rw [if_neg (by rw [List.length_append]; omega), List.drop_left, List.take_length]

end Mqtt
