import MqttBroker.Storage.Clients
import MqttBroker.Storage.Messages

/-! The keys of the stores. Badger, bolt and pebble keep records of every kind in one key space and put
the tag of the kind before the key; redis has a hash for each kind. Two texts with a colon between them
can be taken apart in more than one way as soon as one of them contains a colon. -/

namespace Mqtt
namespace Storage

/-- `SYS`, the tag and the key of the system information. -/
def sysInfoTag : Bytes := [83, 89, 83]

def sysInfoKey : Bytes := sysInfoTag

inductive Kind where
  | client
  | subscription
  | retained
  | inflight
  | sysInfo
  deriving DecidableEq

def Kind.tag : Kind → Bytes
  | client => clientTag
  | subscription => subscriptionTag
  | retained => retainedTag
  | inflight => inflightTag
  | sysInfo => sysInfoTag

inductive StoreKey where
  | client (id : Bytes)
  | subscription (client filter : Bytes)
  | retained (topic : Bytes)
  | inflight (client : Bytes) (id : UInt16)
  | sysInfo

namespace StoreKey

def kind : StoreKey → Kind
  | client _ => .client
  | subscription _ _ => .subscription
  | retained _ => .retained
  | inflight _ _ => .inflight
  | sysInfo => .sysInfo

def key (backend : Backend) : StoreKey → Bytes
  | client id => clientKey backend id
  | subscription c filter => subscriptionKey backend c filter
  | retained topic => retainedKey backend topic
  | inflight c id => inflightKey backend c id
  | sysInfo => sysInfoKey

/-- The hash in redis, with `HPrefix` before the tag as `hKey` has it, and the key; the other backends
have one key space. -/
def place (hPrefix : Bytes) (backend : Backend) (k : StoreKey) : Option Bytes × Bytes :=
  match backend with
  | .redis => (some (hPrefix ++ k.kind.tag), k.key .redis)
  | backend => (none, k.key backend)

/-- Two subscriptions of which one has, at the end of its client id, what the other has at the start of its
filter, up to a colon. -/
inductive Shifted : StoreKey → StoreKey → Prop
  | mk (c middle filter : Bytes) :
    Shifted (subscription c (middle ++ 58 :: filter)) (subscription (c ++ 58 :: middle) filter)

end StoreKey

/-! ### Two texts with a separator between them -/

section Joined
variable {α : Type*} {a a' b b' : List α}

theorem join_eq_join_iff {x : α} : a ++ x :: b = a' ++ x :: b' ↔
    (a = a' ∧ b = b') ∨ (∃ m, a' = a ++ x :: m ∧ b = m ++ x :: b') ∨ ∃ m, a = a' ++ x :: m ∧ b' = m ++ x :: b := by
  rw [List.append_eq_append_iff]
  constructor
  · rintro (⟨m, rfl, hm⟩ | ⟨m, rfl, hm⟩)
    · cases m with
      | nil => exact .inl ⟨(List.append_nil a).symm, (List.cons.inj hm).2⟩
      | cons y m =>
        obtain ⟨rfl, rfl⟩ := List.cons.inj hm
        exact .inr (.inl ⟨m, rfl, rfl⟩)
    · cases m with
      | nil => exact .inl ⟨List.append_nil a', (List.cons.inj hm).2.symm⟩
      | cons y m =>
        obtain ⟨rfl, rfl⟩ := List.cons.inj hm
        exact .inr (.inr ⟨m, rfl, rfl⟩)
  · rintro (⟨rfl, rfl⟩ | ⟨m, rfl, rfl⟩ | ⟨m, rfl, rfl⟩)
    · exact .inl ⟨[], (List.append_nil a).symm, rfl⟩
    · exact .inl ⟨x :: m, rfl, rfl⟩
    · exact .inr ⟨x :: m, rfl, rfl⟩

theorem join_inj {x : α} (hb : x ∉ b) (hb' : x ∉ b') (h : a ++ x :: b = a' ++ x :: b') : a = a' ∧ b = b' := by
  rcases join_eq_join_iff.mp h with h | ⟨m, -, rfl⟩ | ⟨m, -, rfl⟩
  · exact h
  · exact absurd (List.mem_append_right m List.mem_cons_self) hb
  · exact absurd (List.mem_append_right m List.mem_cons_self) hb'

end Joined

/-! ### The keys of one kind -/

variable {backend : Backend} {c c' : Bytes} {i' : UInt16}

theorem subscriptionKey_eq_iff {f f' : Bytes} :
    subscriptionKey backend c f = subscriptionKey backend c' f' ↔ c ++ 58 :: f = c' ++ 58 :: f' := by
  cases backend with
  | redis => exact Iff.rfl
  | _ => exact ⟨fun h => (List.cons.inj (List.append_cancel_left h)).2,
      congrArg fun text => subscriptionTag ++ 95 :: text⟩

theorem inflightKey_eq_iff {i : UInt16} :
    inflightKey backend c i = inflightKey backend c' i' ↔ c ++ 58 :: formatID i = c' ++ 58 :: formatID i' := by
  cases backend with
  | redis => exact Iff.rfl
  | _ => exact ⟨fun h => (List.cons.inj (List.append_cancel_left h)).2, congrArg fun text => inflightTag ++ 95 :: text⟩

theorem colon_notMem_formatID (id : UInt16) : (58 : UInt8) ∉ formatID id := by
  unfold formatID
  split
  · decide
  · intro hmem
    obtain ⟨d, hd, heq⟩ := List.mem_map.mp hmem
    have hlt : d < 10 := Nat.digits_lt_base (by decide) (List.mem_reverse.mp hd)
    have hvalue := congrArg UInt8.toNat heq
    rw [UInt8.toNat_ofNat'] at hvalue
    change (48 + d) % 256 = 58 at hvalue
    omega

theorem inflightKey_injective {i : UInt16}
    (h : inflightKey backend c i = inflightKey backend c' i') : c = c' ∧ i = i' := by
  obtain ⟨rfl, -⟩ := join_inj (colon_notMem_formatID i) (colon_notMem_formatID i') (inflightKey_eq_iff.mp h)
  exact ⟨rfl, inflightKey_id h⟩

/-! ### The key space -/

namespace StoreKey

theorem kind_of_take_tag {a b : Kind} (h : a.tag.take 2 = b.tag.take 2) : a = b := by
  cases a <;> cases b <;> first | rfl | exact absurd h (by decide)

theorem take_key {backend : Backend} (h : backend ≠ .redis) (k : StoreKey) :
    (k.key backend).take 2 = k.kind.tag.take 2 := by
  cases backend with
  | redis => exact absurd rfl h
  | _ =>
    cases k with
    | _ => rfl

variable {backend : Backend} {k k' : StoreKey}

theorem place_of_ne_redis (hPrefix : Bytes) (h : backend ≠ .redis) (k : StoreKey) :
    k.place hPrefix backend = (none, k.key backend) := by
  cases backend with
  | redis => exact absurd rfl h
  | _ => rfl

theorem place_eq_iff {hPrefix : Bytes} :
    k.place hPrefix backend = k'.place hPrefix backend ↔ k.kind = k'.kind ∧ k.key backend = k'.key backend := by
  by_cases hredis : backend = .redis
  · subst hredis
    rw [place, place, Prod.mk.injEq, Option.some.injEq, List.append_cancel_left_eq]
    refine and_congr_left' ⟨fun h => kind_of_take_tag (by rw [h]), congrArg Kind.tag⟩
  · rw [place_of_ne_redis hPrefix hredis, place_of_ne_redis hPrefix hredis, Prod.mk.injEq]
    refine ⟨fun h => ⟨kind_of_take_tag ?_, h.2⟩, fun h => ⟨rfl, h.2⟩⟩
    rw [← take_key hredis k, ← take_key hredis k', h.2]

theorem place_of_shifted (hPrefix : Bytes) (backend : Backend) (h : Shifted k k') :
    k.place hPrefix backend = k'.place hPrefix backend ∧ k ≠ k' := by
  obtain ⟨c, middle, filter⟩ := h
  refine ⟨place_eq_iff.mpr ⟨rfl, subscriptionKey_eq_iff.mpr ?_⟩, fun heq => ?_⟩
  · rw [List.append_assoc, List.cons_append]
  · have hlen := congrArg List.length (StoreKey.subscription.inj heq).1
    rw [List.length_append, List.length_cons] at hlen
    omega

/-- Two records have the same place in a store only if they are the same, but for two subscriptions of which
one carries a colon over from its filter to the client id of the other. -/
theorem place_injective_iff (hPrefix : Bytes) (backend : Backend) (k k' : StoreKey) :
    (k.place hPrefix backend = k'.place hPrefix backend → k = k') ↔ ¬ (Shifted k k' ∨ Shifted k' k) := by
  constructor
  · rintro hinj (h | h)
    · obtain ⟨hplace, hne⟩ := place_of_shifted hPrefix backend h
      exact hne (hinj hplace)
    · obtain ⟨hplace, hne⟩ := place_of_shifted hPrefix backend h
      exact hne (hinj hplace.symm).symm
  · intro hnot hplace
    obtain ⟨hkind, hkey⟩ := place_eq_iff.mp hplace
    -- the tags leave the records of one kind
    cases k with
    | client id =>
      cases k' with
      | client id' => exact congrArg client (clientKey_injective backend hkey)
      | _ => cases hkind
    | subscription c f =>
      cases k' with
      | subscription c' f' =>
        rcases join_eq_join_iff.mp (subscriptionKey_eq_iff.mp hkey) with ⟨rfl, rfl⟩ | ⟨m, rfl, rfl⟩ | ⟨m, rfl, rfl⟩
        · rfl
        · exact absurd (.inl ⟨c, m, f'⟩) hnot
        · exact absurd (.inr ⟨c', m, f⟩) hnot
      | _ => cases hkind
    | retained topic =>
      cases k' with
      | retained topic' => exact congrArg retained (retainedKey_topic hkey)
      | _ => cases hkind
    | inflight c i =>
      cases k' with
      | inflight c' i' =>
        obtain ⟨rfl, rfl⟩ := inflightKey_injective hkey
        rfl
      | _ => cases hkind
    | sysInfo =>
      cases k' with
      | sysInfo => rfl
      | _ => cases hkind

/-- The subscription of client `a` to `b:c` and that of client `a:b` to `c` have one key. -/
theorem subscription_keys_collide :
    (∀ backend, subscriptionKey backend [97] [98, 58, 99] = subscriptionKey backend [97, 58, 98] [99]) ∧
      ¬ ∀ backend c f c' f', subscriptionKey backend c f = subscriptionKey backend c' f' → c = c' ∧ f = f' := by
  have hcollide : ∀ backend, subscriptionKey backend [97] [98, 58, 99] = subscriptionKey backend [97, 58, 98] [99] := by
    intro backend
    cases backend with
    | _ => rfl
  refine ⟨hcollide, fun hall => ?_⟩
  obtain ⟨hclient, -⟩ := hall .bolt _ _ _ _ (hcollide .bolt)
  exact absurd hclient (by decide)

end StoreKey
end Storage
end Mqtt
