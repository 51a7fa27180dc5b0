import MqttBroker.Session.Cases
import MqttBroker.Session.Subscribing

/-! What a SUBSCRIBE is answered. The SUBACK has a reason code for each filter, and
the code says whether the filter was stored. The codes of an id that is in use are
not the ones that a client before MQTT 5 knows. -/

namespace Mqtt
open FiniteMap
namespace Session

variable {env : Env} {s b : Session} {pk : Packet} {sub : Subscription}

/-! ### The answer to a filter -/

structure Accepts (env : Env) (s : Session) (pk : Packet) (sub : Subscription) : Prop where
  free : s.client.inflight.get pk.packetID = none
  valid : isValidFilter sub.filter false = true
  shared : (sub.noLocal && isSharedFilter sub.filter) = false
  acl : env.onACLCheck s.client.id sub.filter false = true

/-- The subscription stands in the index and with the client, and the other ones are as they were. -/
structure Stored (sub : Subscription) (b a : Session) : Prop where
  index : ∀ at' client, a.server.topics.held at' client =
    if at' = address sub.filter ∧ client = b.client.id then some sub else b.server.topics.held at' client
  client : a.client.subscriptions = b.client.subscriptions.insert sub.filter sub

/-- The code of a filter agrees with what the server did with it, and `existed` with what the client held. -/
structure FilterAnswer (env : Env) (pk : Packet) (b : Session) (r : Subscription × UInt8 × Bool) (a : Session) :
    Prop where
  granted_iff : r.2.1 < 0x80 ↔ Accepts env b pk r.1
  stored : Accepts env b pk r.1 → Stored r.1 b a
  kept : ¬Accepts env b pk r.1 → a = b
  qos : r.2.1 < 0x80 → r.2.1 = min r.1.qos b.server.caps.maximumQos
  old : b.client.protocolVersion < 5 → ¬r.2.1 < 0x80 → r.2.1 = 0x80
  existed : r.2.1 < 0x80 → r.2.2 = (b.server.topics.held (address r.1.filter) b.client.id).isSome

def codeBound (version : UInt8) : UInt8 := if version < 5 then 3 else 0x80

def codeFor (version r : UInt8) : UInt8 :=
  if Code.grantedQos2.code < r && version < 5 then Code.unspecifiedError.code else r

variable {r version : UInt8} {x : TopicsIndex}

theorem grantedQos2_lt_iff : Code.grantedQos2.code < r ↔ ¬r < 3 := by
  have htwo : Code.grantedQos2.code.toNat = 2 := rfl
  have hthree : (3 : UInt8).toNat = 3 := rfl
  rw [UInt8.lt_iff_toNat_lt, UInt8.lt_iff_toNat_lt, htwo, hthree]
  omega

theorem codeFor_new (h : ¬version < 5) (r : UInt8) : codeFor version r = r := by
  refine if_neg ?_
  rw [Bool.and_eq_true, decide_eq_true_eq, decide_eq_true_eq]
  exact fun hboth => h hboth.2

theorem codeFor_old (h : version < 5) (r : UInt8) : codeFor version r = if r < 3 then r else 0x80 := by
  unfold codeFor
  by_cases hr : r < 3
  · rw [if_pos hr, if_neg]
    rw [Bool.and_eq_true, decide_eq_true_eq, grantedQos2_lt_iff]
    exact fun hboth => hboth.1 hr
  · rw [if_neg hr, if_pos]
    · rfl
    · rw [Bool.and_eq_true, decide_eq_true_eq, decide_eq_true_eq, grantedQos2_lt_iff]
      exact ⟨hr, h⟩

theorem codeFor_of_lt (h : r < codeBound version) : codeFor version r = r := by
  unfold codeBound at h
  by_cases hold : version < 5
  · rw [if_pos hold] at h
    rw [codeFor_old hold, if_pos h]
  · exact codeFor_new hold r

theorem not_codeFor_lt (h : ¬r < codeBound version) : ¬codeFor version r < 0x80 := by
  unfold codeBound at h
  by_cases hold : version < 5
  · rw [if_pos hold] at h
    rw [codeFor_old hold, if_neg h]
    decide
  · rw [if_neg hold] at h
    rw [codeFor_new hold]
    exact h

theorem codeBound_le (version : UInt8) : codeBound version ≤ 0x80 := by
  unfold codeBound
  split <;> decide

theorem codeFor_error {version r : UInt8} (h : ¬r < 0x80) : ¬codeFor version r < 0x80 :=
  not_codeFor_lt fun hlt => h (UInt8.lt_of_lt_of_le hlt (codeBound_le version))

theorem codeFor_eq_of_old (hold : version < 5) (h : ¬codeFor version r < 0x80) : codeFor version r = 0x80 := by
  rw [codeFor_old hold] at h ⊢
  split at h
  · rename_i hr
    exact absurd (UInt8.lt_trans hr (by decide)) h
  · rename_i hr
    exact if_neg hr

theorem subscribeFilter_answers (env : Env) (b : Session) (pk : Packet) (sub : Subscription) :
    (b.client.inflight.get pk.packetID ≠ none ∧
        b.subscribeFilter env (b.requestCode pk) sub = (Code.packetIdentifierInUse.code, false, b)) ∨
      (b.client.inflight.get pk.packetID = none ∧ ¬Accepts env b pk sub ∧ ∃ r, ¬r < 0x80 ∧
        b.subscribeFilter env (b.requestCode pk) sub = (codeFor b.client.protocolVersion r, false, b)) ∨
      Accepts env b pk sub ∧
        b.subscribeFilter env (b.requestCode pk) sub =
          (codeFor b.client.protocolVersion (min sub.qos b.server.caps.maximumQos),
            (b.addSubscription sub).1, (b.addSubscription sub).2) := by
  unfold requestCode
  cases hget : b.client.inflight.get pk.packetID with
  | some taken => exact .inl ⟨by simp, rfl⟩
  | none =>
    refine .inr ?_
    unfold subscribeFilter
    cases hvalid : isValidFilter sub.filter false with
    | false =>
      refine .inl ⟨rfl, fun h => ?_, Code.topicFilterInvalid.code, by decide, rfl⟩
      rw [h.valid] at hvalid
      cases hvalid
    | true =>
      cases hshared : sub.noLocal && isSharedFilter sub.filter with
      | true =>
        refine .inl ⟨rfl, fun h => ?_, Code.protocolViolationInvalidSharedNoLocal.code, by decide, rfl⟩
        rw [h.shared] at hshared
        cases hshared
      | false =>
        cases hacl : env.onACLCheck b.client.id sub.filter false with
        | false =>
          refine .inl ⟨rfl, fun h => ?_, _, ?_, rfl⟩
          · rw [h.acl] at hacl
            cases hacl
          · split <;> decide
        | true => exact .inr ⟨⟨hget, hvalid, hshared, hacl⟩, rfl⟩

theorem stored_addSubscription (b : Session) (sub : Subscription) : Stored sub b (b.addSubscription sub).2 :=
  ⟨TopicsIndex.held_subscribe b.server.topics b.client.id sub, rfl⟩

theorem existed_addSubscription (b : Session) (sub : Subscription) :
    (b.addSubscription sub).1 = (b.server.topics.held (address sub.filter) b.client.id).isSome := by
  have hnew : (b.server.topics.subscribe b.client.id sub).1 =
      (b.server.topics.held (address sub.filter) b.client.id).isNone := by rw [TopicsIndex.subscribe_eq]
  show (!(b.server.topics.subscribe b.client.id sub).1) = _
  rw [hnew]
  cases b.server.topics.held (address sub.filter) b.client.id <;> rfl

def answerTo (env : Env) (b : Session) (pk : Packet) (sub : Subscription) : Subscription × UInt8 × Bool :=
  (sub, (b.subscribeFilter env (b.requestCode pk) sub).1, (b.subscribeFilter env (b.requestCode pk) sub).2.1)

/-- The answer can be given: an old client has no code for an id in use, nor for a QoS above 2. -/
def Expressible (env : Env) (b : Session) (pk : Packet) (sub : Subscription) : Prop :=
  (b.client.protocolVersion < 5 → b.client.inflight.get pk.packetID = none) ∧
    (Accepts env b pk sub → min sub.qos b.server.caps.maximumQos < codeBound b.client.protocolVersion)

theorem filterAnswer_iff (env : Env) (b : Session) (pk : Packet) (sub : Subscription) :
    FilterAnswer env pk b (b.answerTo env pk sub) (b.subscribeFilter env (b.requestCode pk) sub).2.2 ↔
      Expressible env b pk sub := by
  unfold answerTo
  obtain ⟨htaken, hone⟩ | ⟨hfree, hnot, r, hr, hone⟩ | ⟨haccepts, hone⟩ := subscribeFilter_answers env b pk sub
  · have hnot : ¬Accepts env b pk sub := fun h => htaken h.free
    have herror : ¬Code.packetIdentifierInUse.code < 0x80 := by decide
    rw [hone]
    constructor
    · intro h
      refine ⟨fun hold => ?_, fun haccepts => absurd haccepts hnot⟩
      have hcode : Code.packetIdentifierInUse.code = 0x80 := h.old hold herror
      exact absurd hcode (by decide)
    · rintro ⟨hold, -⟩
      exact
        { granted_iff := iff_of_false herror hnot
          stored := fun haccepts => absurd haccepts hnot
          kept := fun _ => rfl
          qos := fun hlt => absurd hlt herror
          old := fun hlt _ => absurd (hold hlt) htaken
          existed := fun hlt => absurd hlt herror }
  · have herror := @codeFor_error b.client.protocolVersion r hr
    rw [hone]
    refine iff_of_true ?_ ⟨fun _ => hfree, fun haccepts => absurd haccepts hnot⟩
    exact
      { granted_iff := iff_of_false herror hnot
        stored := fun haccepts => absurd haccepts hnot
        kept := fun _ => rfl
        qos := fun hlt => absurd hlt herror
        old := fun hold => codeFor_eq_of_old hold
        existed := fun hlt => absurd hlt herror }
  · rw [hone]
    constructor
    · intro h
      refine ⟨fun _ => haccepts.free, fun _ => ?_⟩
      by_contra hbound
      exact not_codeFor_lt hbound (h.granted_iff.mpr haccepts)
    · rintro ⟨-, hbound⟩
      have hcode := codeFor_of_lt (hbound haccepts)
      exact
        { granted_iff := iff_of_true (by
            show codeFor _ _ < 0x80
            rw [hcode]
            exact UInt8.lt_of_lt_of_le (hbound haccepts) (codeBound_le _)) haccepts
          stored := fun _ => stored_addSubscription b sub
          kept := fun hnot => absurd haccepts hnot
          qos := fun _ => hcode
          old := fun hold => codeFor_eq_of_old hold
          existed := fun _ => existed_addSubscription b sub }

/-! ### The answers to a request -/

def comesTo (env : Env) (s : Session) (pk : Packet) (i : ℕ) : Session :=
  (subscribeFilters env (s.requestCode pk) s (pk.filters.take i)).2

def answersTo (env : Env) (s : Session) (pk : Packet) : List (Subscription × UInt8 × Bool) :=
  (subscribeFilters env (s.requestCode pk) s pk.filters).1

theorem getElem?_subscribeFilters (env : Env) (code : Code) (subs : List Subscription) : ∀ (s : Session) (i : ℕ),
    (subscribeFilters env code s subs).1[i]? = subs[i]?.map fun sub =>
      (sub, ((subscribeFilters env code s (subs.take i)).2.subscribeFilter env code sub).1,
        ((subscribeFilters env code s (subs.take i)).2.subscribeFilter env code sub).2.1) := by
  induction subs with
  | nil => exact fun s i => rfl
  | cons sub subs ih =>
    intro s i
    rw [subscribeFilters_cons]
    cases i with
    | zero => rfl
    | succ i => exact ih _ i

theorem subscribeFilters_take_succ (env : Env) (code : Code) (subs : List Subscription) :
    ∀ (s : Session) (i : ℕ) (sub : Subscription), subs[i]? = some sub →
      (subscribeFilters env code s (subs.take (i + 1))).2 =
        ((subscribeFilters env code s (subs.take i)).2.subscribeFilter env code sub).2.2 := by
  induction subs with
  | nil => exact fun s i sub h => absurd h (by simp)
  | cons first subs ih =>
    intro s i sub h
    cases i with
    | zero =>
      cases h
      rfl
    | succ i => exact ih _ i sub h

theorem indexes_comesTo (i : ℕ) : Indexes s (s.comesTo env pk i) := indexes_subscribeFilters _ _ s

theorem requestCode_comesTo (i : ℕ) : (s.comesTo env pk i).requestCode pk = s.requestCode pk := by
  obtain ⟨_, _, _, -, h⟩ := @indexes_comesTo env s pk i
  rw [h]
  rfl

theorem getElem?_answersTo (i : ℕ) :
    (s.answersTo env pk)[i]? = pk.filters[i]?.map fun sub => (s.comesTo env pk i).answerTo env pk sub := by
  unfold answersTo answerTo
  rw [getElem?_subscribeFilters, requestCode_comesTo]
  rfl

theorem comesTo_succ {i : ℕ} (h : pk.filters[i]? = some sub) :
    s.comesTo env pk (i + 1) =
      ((s.comesTo env pk i).subscribeFilter env ((s.comesTo env pk i).requestCode pk) sub).2.2 := by
  rw [requestCode_comesTo]
  exact subscribeFilters_take_succ env _ _ s i sub h

theorem expressible_comesTo (i : ℕ) : Expressible env (s.comesTo env pk i) pk sub ↔ Expressible env s pk sub := by
  obtain ⟨_, _, _, -, h⟩ := @indexes_comesTo env s pk i
  have haccepts : Accepts env (s.comesTo env pk i) pk sub ↔ Accepts env s pk sub := by
    rw [h]
    exact ⟨fun h => ⟨h.free, h.valid, h.shared, h.acl⟩, fun h => ⟨h.free, h.valid, h.shared, h.acl⟩⟩
  unfold Expressible
  rw [haccepts, h]

theorem map_fst_subscribeFilters (env : Env) (code : Code) (subs : List Subscription) : ∀ s : Session,
    (subscribeFilters env code s subs).1.map (fun r => r.1) = subs := by
  induction subs with
  | nil => exact fun s => rfl
  | cons sub subs ih =>
    intro s
    rw [subscribeFilters_cons, List.map_cons, ih]

theorem filterAnswers_iff (env : Env) (s : Session) (pk : Packet) :
    (∀ i r, (s.answersTo env pk)[i]? = some r →
        FilterAnswer env pk (s.comesTo env pk i) r (s.comesTo env pk (i + 1))) ↔
      ∀ sub ∈ pk.filters, Expressible env s pk sub := by
  constructor
  · intro h sub hsub
    obtain ⟨i, hi⟩ := List.mem_iff_getElem?.mp hsub
    have hanswer : (s.answersTo env pk)[i]? = some ((s.comesTo env pk i).answerTo env pk sub) := by
      rw [getElem?_answersTo, hi]
      rfl
    have hright := h i _ hanswer
    rw [comesTo_succ hi, filterAnswer_iff, expressible_comesTo] at hright
    exact hright
  · intro h i r hr
    rw [getElem?_answersTo, Option.map_eq_some_iff] at hr
    obtain ⟨sub, hi, rfl⟩ := hr
    rw [comesTo_succ hi, filterAnswer_iff, expressible_comesTo]
    exact h sub (List.mem_of_getElem? hi)

/-! ### Retained messages -/

/-- The subscription and the message of each call of `publishToClient` for a filter, by its answer. -/
def retainedCalls (x : TopicsIndex) (r : Subscription × UInt8 × Bool) : List (Subscription × Packet) :=
  if r.2.1 < 0x80 ∧ isSharedFilter r.1.filter = false ∧
      (r.1.retainHandling = 0 ∨ r.1.retainHandling = 1 ∧ r.2.2 = false) then
    (x.messages r.1.filter).map fun pkv => ({ r.1 with fwdRetainedFlag := true }, pkv)
  else []

def publishRetained (env : Env) (s : Session) (call : Subscription × Packet) : Session :=
  match s.publishToClient env call.1 call.2 with
  | (some _, s) => s
  | (none, s) => s.emit (.retainPublished call.2)

theorem topics_publishRetained (call : Subscription × Packet) :
    (s.publishRetained env call).server.topics = s.server.topics := by
  have hpub : (s.publishToClient env call.1 call.2).2.server.topics = s.server.topics := by
    obtain ⟨_, _, _, _, _, _, -, -, h⟩ := @delivers_publishToClient env s call.2 call.1
    rw [h]
  unfold publishRetained
  generalize s.publishToClient env call.1 call.2 = sent at hpub
  obtain ⟨err, t⟩ := sent
  cases err <;> exact hpub

theorem topics_foldl_publishRetained (calls : List (Subscription × Packet)) : ∀ s : Session,
    (calls.foldl (publishRetained env) s).server.topics = s.server.topics := by
  induction calls with
  | nil => exact fun s => rfl
  | cons call calls ih => exact fun s => (ih _).trans (topics_publishRetained call)

theorem handling_iff {n : UInt8} (h : n ≤ 2) (existed : Bool) :
    ((n = 1 && existed) || n = 2) = true ↔ ¬(n = 0 ∨ n = 1 ∧ existed = false) := by
  obtain rfl | rfl | rfl := le_two_cases h
  · decide +revert
  · decide +revert
  · decide +revert

theorem publishRetainedToClient_eq (r : Subscription × UInt8 × Bool) (hgranted : r.2.1 < 0x80)
    (hhandling : r.1.retainHandling ≤ 2) (s : Session) :
    s.publishRetainedToClient env r.1 r.2.2 = (retainedCalls s.server.topics r).foldl (publishRetained env) s := by
  unfold publishRetainedToClient retainedCalls
  cases hshared : isSharedFilter r.1.filter with
  | true =>
    rw [if_pos rfl, if_neg fun h => Bool.noConfusion h.2.1]
    rfl
  | false =>
    rw [if_neg Bool.false_ne_true]
    by_cases hasks : r.1.retainHandling = 0 ∨ r.1.retainHandling = 1 ∧ r.2.2 = false
    · rw [if_neg fun h => (handling_iff hhandling _).mp h hasks, if_pos ⟨hgranted, rfl, hasks⟩, List.foldl_map]
      rfl
    · rw [if_pos ((handling_iff hhandling _).mpr hasks), if_neg fun h => hasks h.2.2]
      rfl

theorem retainedCalls_of_refused {r : Subscription × UInt8 × Bool} (h : ¬r.2.1 < 0x80) : retainedCalls x r = [] :=
  if_neg fun hcalls => h hcalls.1

theorem foldl_publishRetainedToClient (results : List (Subscription × UInt8 × Bool)) :
    ∀ t : Session, t.server.topics = x → (∀ r ∈ results, r.1.retainHandling ≤ 2) →
      results.foldl (fun s r =>
          if Code.unspecifiedError.code ≤ r.2.1 then s else s.publishRetainedToClient env r.1 r.2.2) t =
        (results.flatMap (retainedCalls x)).foldl (publishRetained env) t := by
  induction results with
  | nil => exact fun t _ _ => rfl
  | cons r results ih =>
    intro t htopics hhandling
    obtain ⟨hfirst, hrest⟩ := List.forall_mem_cons.mp hhandling
    rw [List.foldl_cons, List.flatMap_cons, List.foldl_append]
    by_cases hgranted : r.2.1 < 0x80
    · have hcode : ¬Code.unspecifiedError.code ≤ r.2.1 := UInt8.not_le.mpr hgranted
      have hstep : (if Code.unspecifiedError.code ≤ r.2.1 then t else t.publishRetainedToClient env r.1 r.2.2) =
          (retainedCalls x r).foldl (publishRetained env) t := by
        rw [if_neg hcode, publishRetainedToClient_eq r hgranted hfirst, htopics]
      rw [hstep]
      exact ih _ ((topics_foldl_publishRetained _ t).trans htopics) hrest
    · have hcode : Code.unspecifiedError.code ≤ r.2.1 := UInt8.not_lt.mp hgranted
      rw [if_pos hcode, retainedCalls_of_refused hgranted]
      exact ih t htopics hrest

/-! ### The request -/

def codesTo (env : Env) (s : Session) (pk : Packet) : Bytes := (s.answersTo env pk).map fun r => r.2.1

def suback (env : Env) (s : Session) (pk : Packet) : Packet :=
  requestAck pk .suback (s.requestCode pk) (s.codesTo env pk)

def acknowledged (env : Env) (s : Session) (pk : Packet) : Session :=
  let t := (s.comesTo env pk pk.filters.length).emit (.subscribed pk (s.codesTo env pk))
  t.emit (.wrote (t.outgoing env (s.suback env pk)) [])

/-- The SUBACK has the code of each filter in order, the codes are right, and the client is sent the retained
messages of the granted filters that ask for them. -/
structure AnsweredByFilter (env : Env) (s : Session) (pk : Packet) : Prop where
  filters : (s.answersTo env pk).map (fun r => r.1) = pk.filters
  each : ∀ i r, (s.answersTo env pk)[i]? = some r →
    FilterAnswer env pk (s.comesTo env pk i) r (s.comesTo env pk (i + 1))
  result : s.processSubscribe env pk =
    (none, ((s.answersTo env pk).flatMap (retainedCalls (s.comesTo env pk pk.filters.length).server.topics)).foldl
      (publishRetained env) (s.acknowledged env pk))

theorem subscribeFilters_eq (env : Env) (s : Session) (pk : Packet) :
    subscribeFilters env (s.requestCode pk) s pk.filters =
      (s.answersTo env pk, s.comesTo env pk pk.filters.length) := by
  unfold comesTo
  rw [List.take_length]
  rfl

theorem writePacket_suback (hconn : s.client.conn = true) (hw : ¬ Fails env s (s.suback env pk)) :
    ((s.comesTo env pk pk.filters.length).emit (.subscribed pk (s.codesTo env pk))).writePacket env
        (s.suback env pk) = (none, s.acknowledged env pk) := by
  have hindexes := @indexes_comesTo env s pk pk.filters.length
  unfold acknowledged
  generalize s.comesTo env pk pk.filters.length = t at hindexes
  obtain ⟨topics, info, subscriptions, -, rfl⟩ := hindexes
  obtain ⟨-, -, hwritten⟩ | ⟨-, hnot, -⟩ | ⟨hfails, -⟩ := writePacketOn_cases env (emit { s with
      client := { s.client with subscriptions := subscriptions }
      server := { s.server with topics := topics, info := info } } (.subscribed pk (s.codesTo env pk))) []
      (s.suback env pk)
  · exact hwritten
  · rw [show s.client.conn = false from hnot] at hconn
    cases hconn
  · exact absurd hfails hw

theorem processSubscribe_eq (hhandling : ∀ sub ∈ pk.filters, sub.retainHandling ≤ 2) (hsame : env.onSubscribe pk = pk)
    (hconn : s.client.conn = true) (hw : ¬ Fails env s (s.suback env pk)) :
    s.processSubscribe env pk =
      (none, ((s.answersTo env pk).flatMap (retainedCalls (s.comesTo env pk pk.filters.length).server.topics)).foldl
        (publishRetained env) (s.acknowledged env pk)) := by
  have hanswers : ∀ r ∈ s.answersTo env pk, r.1.retainHandling ≤ 2 := by
    intro r hr
    have hmem : r.1 ∈ (s.answersTo env pk).map (fun r => r.1) := List.mem_map_of_mem hr
    unfold answersTo at hmem
    rw [map_fst_subscribeFilters] at hmem
    exact hhandling _ hmem
  have hwritten := writePacket_suback hconn hw
  unfold suback codesTo at hwritten
  unfold processSubscribe
  dsimp only
  rw [hsame, subscribeFilters_eq]
  dsimp only
  rw [hwritten]
  dsimp only
  exact congrArg (Prod.mk none) (foldl_publishRetainedToClient _ _ rfl hanswers)

/-- A SUBSCRIBE is answered filter by filter exactly if the client can be told each answer. -/
theorem answered_by_filter_iff (env : Env) (s : Session) (pk : Packet)
    (hhandling : ∀ sub ∈ pk.filters, sub.retainHandling ≤ 2) (hsame : env.onSubscribe pk = pk)
    (hconn : s.client.conn = true) (hw : ¬ Fails env s (s.suback env pk)) :
    AnsweredByFilter env s pk ↔ ∀ sub ∈ pk.filters, Expressible env s pk sub := by
  rw [← filterAnswers_iff]
  constructor
  · exact fun h => h.each
  · exact fun heach => ⟨map_fst_subscribeFilters _ _ _ s, heach, processSubscribe_eq hhandling hsame hconn hw⟩

def subscribing : Packet :=
  { packetID := 1, fixedHeader := { type := .subscribe, qos := 1 }, filters := [{ filter := [0x61], qos := 1 }] }

def unburdened : Session := { client := { protocolVersion := 4 } }

def burdened : Session :=
  { client :=
      { protocolVersion := 4
        inflight := Inflight.new.put { packetID := 1, fixedHeader := { type := .publish, qos := 1 } } } }

theorem unburdened_answered :
    AnsweredByFilter (.encoding 0) unburdened subscribing ∧ unburdened.codesTo (.encoding 0) subscribing = [1] := by
  refine ⟨(answered_by_filter_iff _ _ _ ?_ rfl rfl (by decide +kernel)).mpr ?_, rfl⟩
  · decide
  · intro sub hsub
    rw [List.mem_singleton.mp hsub]
    exact ⟨fun _ => rfl, fun _ => by decide⟩

/-- A client of MQTT 3.1.1 gets the code 0x91, which its version does not have. -/
theorem burdened_not_answered :
    subscribing.subscribeValidate = .success ∧ (∀ sub ∈ subscribing.filters, sub.retainHandling ≤ 2) ∧
      ¬ Fails (.encoding 0) burdened (burdened.suback (.encoding 0) subscribing) ∧
      burdened.codesTo (.encoding 0) subscribing = [0x91] ∧ ¬AnsweredByFilter (.encoding 0) burdened subscribing := by
  refine ⟨by decide, by decide, by decide +kernel, rfl, fun h => ?_⟩
  have hfirst := h.each 0 ({ filter := [0x61], qos := 1 }, 0x91, false) rfl
  have hcode : (0x91 : UInt8) = 0x80 := hfirst.old (by decide) (by decide)
  exact absurd hcode (by decide)

end Session
end Mqtt
