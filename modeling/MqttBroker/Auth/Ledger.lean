import MqttBroker.Auth.MatchTopic
import MqttBroker.Library.Iteration
import MqttBroker.Session.Client

/-! The auth ledger: users with a password and filters of their own, then rules for
everybody. The filters of a user or of a rule are a map, so each loop over them
goes through its entries in an order that is not specified. -/

namespace Mqtt.Auth
open FiniteMap

def star : UInt8 := 0x2A

/-- `RString.Matches`: the empty rule and `*` match everything, and a rule with a `*` behind its first
character matches what begins like it and is longer than that beginning. -/
def rmatches (rr a : Bytes) : Bool :=
  if rr = [] ∨ rr = [star] ∨ a = rr then true
  else
    match rr.idxOf? star with
    | some i => i > 0 && a.length > i && rr.take i == a.take i
    | none => false

abbrev Access := UInt8

def deny : Access := 0
def readOnly : Access := 1
def writeOnly : Access := 2
def readWrite : Access := 3

def grants (access : Access) (write : Bool) : Bool :=
  if write then access == writeOnly || access == readWrite else access == readOnly || access == readWrite

abbrev Filters := Map Bytes Access

structure UserRule where
  password : Bytes := []
  acl : Filters := ∅
  disallow : Bool := false

structure AuthRule where
  client : Bytes := []
  username : Bytes := []
  remote : Bytes := []
  password : Bytes := []
  allow : Bool := false

structure ACLRule where
  client : Bytes := []
  username : Bytes := []
  remote : Bytes := []
  filters : Filters := ∅

structure Ledger where
  users : Map Bytes UserRule := ∅
  auth : List AuthRule := []
  acl : List ACLRule := []

/-! ### Authentication -/

def AuthRule.applies (rule : AuthRule) (cl : Client) (pk : Packet) : Bool :=
  rmatches rule.client cl.id && rmatches rule.username cl.username && rmatches rule.password pk.connect.password &&
    rmatches rule.remote cl.remote

def UserRule.presented (u : UserRule) (pk : Packet) : Bool := u.password != [] && u.password == pk.connect.password

namespace Ledger

def authRules (l : Ledger) (cl : Client) (pk : Packet) : Nat × Bool :=
  (l.auth.zipIdx.findSome? fun (rule, n) => if rule.applies cl pk then some (n, rule.allow) else none).getD (0, false)

def authOk (l : Ledger) (cl : Client) (pk : Packet) : Nat × Bool :=
  match l.users.lookup cl.username with
  | some u => if u.presented pk then (0, !u.disallow) else l.authRules cl pk
  | none => l.authRules cl pk

def RulesAllow (l : Ledger) (cl : Client) (pk : Packet) : Prop :=
  ∃ rule, l.auth.find? (·.applies cl pk) = some rule ∧ rule.allow = true

theorem authRules_ok_iff (l : Ledger) (cl : Client) (pk : Packet) :
    (l.authRules cl pk).2 = true ↔ l.RulesAllow cl pk := by
  unfold authRules RulesAllow
  generalize l.auth = rules
  -- the index is where the rule stands and has no part in the answer
  suffices h : ∀ k, (((rules.zipIdx k).findSome? fun (rule, n) =>
      if rule.applies cl pk then some (n, rule.allow) else none).getD (0, false)).2 = true ↔
      ∃ rule, rules.find? (·.applies cl pk) = some rule ∧ rule.allow = true from h 0
  induction rules with
  | nil => simp
  | cons rule rules ih =>
    intro k
    rw [List.zipIdx_cons, List.findSome?_cons, List.find?_cons]
    cases hrule : rule.applies cl pk with
    | true => simp [hrule]
    | false => simpa [hrule] using ih (k + 1)

/-- A user is known by their own entry unless it does not apply and the rules for everybody let them in:
a user who is disallowed is let in if their password is not set or another one is presented, and so is a
user with a password of their own who presents another one. -/
theorem authOk_respects_user_iff (l : Ledger) (cl : Client) (pk : Packet) :
    (∀ u, l.users.lookup cl.username = some u →
      (u.disallow = true → (l.authOk cl pk).2 = false) ∧
        (u.password ≠ [] → (l.authOk cl pk).2 = true → pk.connect.password = u.password)) ↔
    ∀ u, l.users.lookup cl.username = some u → u.disallow = true ∨ u.password ≠ [] →
      (u.password ≠ [] ∧ pk.connect.password = u.password) ∨ ¬l.RulesAllow cl pk := by
  refine forall_congr' fun u => forall_congr' fun hu => ?_
  have hpresented : u.presented pk = true ↔ u.password ≠ [] ∧ pk.connect.password = u.password := by
    rw [UserRule.presented, Bool.and_eq_true, bne_iff_ne, beq_iff_eq, eq_comm (a := u.password)]
  have hok : l.authOk cl pk = if u.presented pk then (0, !u.disallow) else l.authRules cl pk := by
    rw [authOk, hu]
  by_cases hown : u.presented pk = true
  · rw [hok, if_pos hown]
    obtain ⟨-, hsame⟩ := hpresented.mp hown
    refine iff_of_true ⟨?_, fun _ _ => hsame⟩ fun _ => .inl (hpresented.mp hown)
    intro hdisallow
    rw [hdisallow]
    rfl
  · rw [hok, if_neg hown, ← authRules_ok_iff, or_iff_right (fun h => hown (hpresented.mpr h))]
    constructor
    · rintro ⟨hdisallowed, hsecret⟩ (hdisallow | hpassword) hrules
      · rw [hdisallowed hdisallow] at hrules
        cases hrules
      · exact hown (hpresented.mpr ⟨hpassword, hsecret hpassword hrules⟩)
    · intro h
      refine ⟨fun hdisallow => ?_, fun hpassword hrules => absurd hrules (h (.inr hpassword))⟩
      exact Bool.eq_false_iff.mpr (h (.inl hdisallow))

end Ledger

def suspending : Ledger :=
  { users := AList.singleton [0x75] { password := [0x70], disallow := true }
    auth := [{ remote := [0x6C], allow := true }] }

/-- The suspended user is let in with a wrong password. -/
theorem suspended_user_authenticates :
    suspending.users.lookup [0x75] = some { password := [0x70], disallow := true } ∧
      suspending.authOk { username := [0x75], remote := [0x6C] } { connect := { password := [0x71] } } = (0, true) := by
  exact ⟨rfl, rfl⟩

/-! ### Access to topics -/

/-- The loops of `ACLOk` over a map of filters: that of the user, and for each rule the one that looks for a
filter with the access and the one that looks for any filter. -/
inductive Site where
  | user
  | granted (n : Nat)
  | listed (n : Nat)

abbrev Orders := Iteration Site Bytes Access

def settles (topic : Bytes) (write : Bool) (x : Σ _ : Bytes, Access) : Option Bool :=
  if filterMatches x.1 topic then some (grants x.2 write) else none

namespace ACLRule

def applies (rule : ACLRule) (cl : Client) : Bool :=
  rmatches rule.client cl.id && rmatches rule.username cl.username && rmatches rule.remote cl.remote

/-- What rule number `n` says, if anything. -/
def check (e : Orders) (n : Nat) (rule : ACLRule) (cl : Client) (topic : Bytes) (write : Bool) : Option Bool :=
  if rule.applies cl then
    if size rule.filters = 0 then some true
    else if (e.order (.granted n) rule.filters).any fun x => grants x.2 write && filterMatches x.1 topic then some true
    else if (e.order (.listed n) rule.filters).any fun x => filterMatches x.1 topic then some false
    else none
  else none

theorem check_order (e e' : Orders) (n : Nat) (rule : ACLRule) (cl : Client) (topic : Bytes) (write : Bool) :
    rule.check e n cl topic write = rule.check e' n cl topic write := by
  unfold check
  rw [e.any_order, e.any_order, e'.any_order, e'.any_order]

end ACLRule

namespace Ledger

def userACL (e : Orders) (l : Ledger) (cl : Client) (topic : Bytes) (write : Bool) : Option Bool :=
  match l.users.lookup cl.username with
  | some u => (e.order .user u.acl).findSome? (settles topic write)
  | none => none

/-- `Ledger.ACLOk`, with the orders in which its loops go through the filters. -/
def aclOk (e : Orders) (l : Ledger) (cl : Client) (topic : Bytes) (write : Bool) : Nat × Bool :=
  match l.userACL e cl topic write with
  | some ok => (0, ok)
  | none => (l.acl.zipIdx.findSome? fun (rule, n) => (rule.check e n cl topic write).map (n, ·)).getD (0, true)

def Unanimous (l : Ledger) (cl : Client) (topic : Bytes) (write : Bool) : Prop :=
  ∀ u, l.users.lookup cl.username = some u → ∀ f a f' a', u.acl.lookup f = some a → u.acl.lookup f' = some a' →
    filterMatches f topic = true → filterMatches f' topic = true → grants a write = grants a' write

variable {cl : Client} {topic : Bytes} {write : Bool}

theorem userACL_order {l : Ledger} (h : l.Unanimous cl topic write)
    (e e' : Orders) : l.userACL e cl topic write = l.userACL e' cl topic write := by
  unfold userACL
  cases hu : l.users.lookup cl.username with
  | none => rfl
  | some u =>
    refine Iteration.findSome?_order e e' .user ?_
    rintro ⟨f, a⟩ ha ⟨f', a'⟩ ha' x y hx hy
    unfold settles at hx hy
    split at hx
    · rename_i hf
      split at hy
      · rename_i hf'
        cases hx
        cases hy
        exact h u hu f a f' a' (AList.mem_lookup_iff.mpr ha) (AList.mem_lookup_iff.mpr ha') hf hf'
      · cases hy
    · cases hx

theorem userACL_leading {l : Ledger} {u : UserRule} {f : Bytes}
    {a : Access} (hu : l.users.lookup cl.username = some u) (ha : u.acl.lookup f = some a)
    (hf : filterMatches f topic = true) :
    l.userACL (.leading f) cl topic write = some (grants a write) := by
  unfold userACL
  rw [hu]
  refine Iteration.findSome?_leading ha ?_
  rw [settles, if_pos hf]

/-- The answer depends on the orders exactly if two filters of the user match the topic and differ on the access:
then the one that comes first decides. -/
theorem aclOk_order_iff (l : Ledger) (cl : Client) (topic : Bytes) (write : Bool) :
    (∀ e e' : Orders, (l.aclOk e cl topic write).2 = (l.aclOk e' cl topic write).2) ↔ l.Unanimous cl topic write := by
  constructor
  · intro h u hu f a f' a' ha ha' hf hf'
    have hsame := h (.leading f) (.leading f')
    unfold aclOk at hsame
    rw [userACL_leading hu ha hf, userACL_leading hu ha' hf'] at hsame
    exact hsame
  · intro h e e'
    have hrules : (fun x : ACLRule × Nat => (x.1.check e x.2 cl topic write).map (x.2, ·)) =
        fun x => (x.1.check e' x.2 cl topic write).map (x.2, ·) := by
      funext x
      rw [ACLRule.check_order e e']
    unfold aclOk
    rw [userACL_order h e e']
    split
    · rfl
    · exact congrArg (fun d => ((l.acl.zipIdx.findSome? d).getD (0, true)).2) hrules

end Ledger

/-- A user with the filters `a/+`, denied, and `a/b`, for reading and writing. -/
def quarrelling : Ledger :=
  { users := AList.singleton [0x75]
      { acl := (AList.singleton [0x61, 0x2F, 0x2B] deny).insert [0x61, 0x2F, 0x62] readWrite } }

/-- Whether the user may read `a/b` depends on which filter comes first. -/
theorem aclOk_depends_on_order :
    (quarrelling.aclOk (.leading [0x61, 0x2F, 0x2B]) { username := [0x75] } [0x61, 0x2F, 0x62] false).2 = false ∧
      (quarrelling.aclOk (.leading [0x61, 0x2F, 0x62]) { username := [0x75] } [0x61, 0x2F, 0x62] false).2 = true := by
  decide +kernel

end Mqtt.Auth
