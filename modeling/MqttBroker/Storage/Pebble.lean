import MqttBroker.Library.KeyRange
import MqttBroker.Storage.Keys

/-! The scans of the pebble store. It keeps its entries in the order of their keys, and the records of one kind
are read from the tag of the kind on, up to a bound that `keyUpperBound` makes of the tag. -/

namespace Mqtt
open KeyRange
namespace Storage

/-- The loop of `keyUpperBound`, from index `i - 1` down. -/
def raise (buf : Bytes) : Nat → Option Bytes
  | 0 => none
  | i + 1 =>
    let buf := buf.modify i (· + 1)
    if buf.getD i 0 ≠ 0 then some (buf.take (i + 1)) else raise buf i

/-- Nothing for `nil`. -/
def keyUpperBound (b : Bytes) : Option Bytes := raise b b.length

/-- A database: the entries in the order of their keys, and the iterators, of which it is assumed that they visit
the entries in the half-open range. -/
structure Pebble where
  entries : List (Bytes × Bytes)
  newIter : Bytes → Option Bytes → List (Bytes × Bytes)
  sorted : entries.Pairwise fun a b => a.1 < b.1
  visits : ∀ lowerBound upperBound,
    newIter lowerBound upperBound = entries.filter fun e => InRange lowerBound upperBound e.1

/-- What decoding needs to know of a type of records: the record of which no field is set, and what `json.Unmarshal`
makes of a record and a text. -/
structure Json (α : Type) where
  zero : α
  unmarshal : Bytes → α → Option α

def Json.unmarshalBinary {α : Type} (json : Json α) (data : Bytes) (d : α) : Option α :=
  if data.length = 0 then some d else json.unmarshal data d

def stored {α : Type} (json : Json α) (key : Bytes) : Option Pebble → List α
  | none => []
  | some db => (db.newIter key (keyUpperBound key)).filterMap fun e => json.unmarshalBinary e.2 json.zero

def storedClients (json : Json StoredClient) : Option Pebble → List StoredClient := stored json clientTag

def storedSubscriptions (json : Json StoredSubscription) : Option Pebble → List StoredSubscription :=
  stored json subscriptionTag

def storedRetainedMessages (json : Json Message) : Option Pebble → List Message := stored json retainedTag

def storedInflightMessages (json : Json Message) : Option Pebble → List Message := stored json inflightTag

/-! ### The bound -/

theorem covBy_add_one {c : UInt8} (h : c + 1 ≠ 0) : c ⋖ c + 1 := by
  have hc : c.toNat < 256 := c.toNat_lt
  have hne : (c + 1).toNat ≠ 0 := fun hzero => h (UInt8.toNat_inj.mp hzero)
  have hnext : (c + 1).toNat = (c.toNat + 1) % 256 := UInt8.toNat_add c 1
  refine ⟨UInt8.lt_iff_toNat_lt.mpr (by omega), fun x hlow hhigh => ?_⟩
  rw [UInt8.lt_iff_toNat_lt] at hlow hhigh
  omega

theorem not_lt_of_add_one {c : UInt8} (h : c + 1 = 0) (x : UInt8) : ¬ c < x := by
  have hc : c.toNat < 256 := c.toNat_lt
  have hx : x.toNat < 256 := x.toNat_lt
  have hnext : (c + 1).toNat = (c.toNat + 1) % 256 := UInt8.toNat_add c 1
  rw [h] at hnext
  change 0 = _ at hnext
  rw [UInt8.lt_iff_toNat_lt]
  omega

theorem raise_concat (q s : Bytes) (c : UInt8) : raise (q ++ [c] ++ s) (q ++ [c]).length =
    if c + 1 ≠ 0 then some (q ++ [c + 1]) else raise (q ++ (c + 1) :: s) q.length := by
  have hmodify : (q ++ [c] ++ s).modify q.length (· + 1) = q ++ (c + 1) :: s := by
    rw [List.modify_eq_take_cons_drop (by simp)]
    simp
  have hbyte : (q ++ (c + 1) :: s).getD q.length 0 = c + 1 := by simp
  have htake : (q ++ (c + 1) :: s).take (q.length + 1) = q ++ [c + 1] := List.take_length_add_append 1
  rw [List.length_append, List.length_singleton, raise, hmodify, hbyte, htake]

theorem delimits_raise (q : Bytes) : ∀ s, Delimits q (raise (q ++ s) q.length) := by
  induction q using List.reverseRecOn with
  | nil => exact fun _ => delimits_nil
  | append_singleton q c ih =>
    intro s
    rw [raise_concat]
    split
    · rename_i hne
      exact delimits_of_covBy q (covBy_add_one hne)
    · rename_i hzero
      exact (ih _).concat_greatest (not_lt_of_add_one (not_not.mp hzero))

theorem delimits_keyUpperBound (b : Bytes) : Delimits b (keyUpperBound b) := by
  have h := delimits_raise b []
  rw [List.append_nil] at h
  exact h

example : keyUpperBound [67, 255] = some [68] ∧ keyUpperBound [255, 255] = none := by decide

theorem newIter_eq (db : Pebble) (b : Bytes) : db.newIter b (keyUpperBound b) = db.entries.filter fun e => b <+: e.1 :=
  (db.visits _ _).trans (List.filter_congr fun e _ => decide_eq_decide.mpr (delimits_keyUpperBound b e.1))

theorem stored_eq {α : Type} (json : Json α) (key : Bytes) (db : Pebble) : stored json key (some db) =
    (db.entries.filter fun e => key <+: e.1).filterMap fun e => json.unmarshalBinary e.2 json.zero := by
  rw [stored, newIter_eq]

theorem tag_prefix_key (k : StoreKey) : k.kind.tag <+: k.key .pebble := by
  cases k with
  | client id => exact ⟨[95] ++ id, (List.append_assoc _ _ _).symm⟩
  | subscription | retained | inflight => exact ⟨_, rfl⟩
  | sysInfo => exact ⟨[], rfl⟩

/-- A scan for the records of a kind visits those and no others. -/
theorem mem_newIter_tag_iff {db : Pebble} {k : StoreKey} {data : Bytes} (h : (k.key .pebble, data) ∈ db.entries)
    (kind : Kind) : (k.key .pebble, data) ∈ db.newIter kind.tag (keyUpperBound kind.tag) ↔ k.kind = kind := by
  rw [newIter_eq, List.mem_filter, decide_eq_true_eq, and_iff_right h]
  constructor
  · rintro ⟨rest, hrest⟩
    have htag : 2 ≤ kind.tag.length := by cases kind <;> decide
    have hkey := @StoreKey.take_key .pebble nofun k
    rw [show k.key .pebble = kind.tag ++ rest from hrest.symm, List.take_append_of_le_length htag] at hkey
    exact StoreKey.kind_of_take_tag hkey.symm
  · rintro rfl
    exact tag_prefix_key k

def oneRecord : Pebble where
  entries := [((StoreKey.client []).key .pebble, [])]
  newIter lowerBound upperBound :=
    [((StoreKey.client []).key .pebble, [])].filter fun e => InRange lowerBound upperBound e.1
  sorted := List.pairwise_singleton _ _
  visits _ _ := rfl

theorem client_not_scanned : ((StoreKey.client []).key .pebble, []) ∉
    oneRecord.newIter subscriptionTag (keyUpperBound subscriptionTag) :=
  fun h => nomatch (mem_newIter_tag_iff (List.mem_singleton.mpr rfl) .subscription).mp h

/-- The bound that `keyUpperBound` makes of a text delimits the keys that start with it, and the methods that read
clients, subscriptions, retained and inflight messages return the records whose keys start with the tag. -/
theorem keyUpperBound_delimits :
    (∀ b k : Bytes, (b ≤ k ∧ (keyUpperBound b = none ∨ ∃ u, keyUpperBound b = some u ∧ k < u)) ↔ b <+: k) ∧
      ∀ (clients : Json StoredClient) (subscriptions : Json StoredSubscription) (messages : Json Message) (db : Pebble),
        storedClients clients (some db) = (db.entries.filter fun e => clientTag <+: e.1).filterMap
          (fun e => clients.unmarshalBinary e.2 clients.zero) ∧
        storedSubscriptions subscriptions (some db) = (db.entries.filter fun e => subscriptionTag <+: e.1).filterMap
          (fun e => subscriptions.unmarshalBinary e.2 subscriptions.zero) ∧
        storedRetainedMessages messages (some db) = (db.entries.filter fun e => retainedTag <+: e.1).filterMap
          (fun e => messages.unmarshalBinary e.2 messages.zero) ∧
        storedInflightMessages messages (some db) = (db.entries.filter fun e => inflightTag <+: e.1).filterMap
          (fun e => messages.unmarshalBinary e.2 messages.zero) := by
  refine ⟨fun b k => ?_, fun clients subscriptions messages db => ?_⟩
  · rw [← delimits_keyUpperBound b k]
    refine and_congr_right' ?_
    cases keyUpperBound b <;> simp
  · exact ⟨stored_eq _ _ db, stored_eq _ _ db, stored_eq _ _ db, stored_eq _ _ db⟩

end Storage
end Mqtt
