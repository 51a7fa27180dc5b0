import MqttBroker.Storage.Messages
import MqttBroker.Topics.Retained

/-! The records of a retained message: the entry of its topic, the retained path of the topic's particle,
and the count in the server's information. `retainMessage` keeps the three together. The sweep for expired
messages removes the entry alone, so that the particles and the count go on as if there had been no sweep. -/

namespace Mqtt
open FiniteMap
namespace Session

def clearExpiredRetainedMessages (now : Int) (s : Session) : Session :=
  { s with server := { s.server with
    topics := Storage.clearExpiredRetainedMessages s.server.caps now s.server.topics } }

inductive RetainCall where
  | retain (pk : Packet)
  | sweep (now : Int)

namespace RetainCall

def run (s : Session) : RetainCall → Session
  | retain pk => s.retainMessage pk
  | sweep now => s.clearExpiredRetainedMessages now

def Named : RetainCall → Prop
  | retain pk => pk.topicName ≠ []
  | sweep _ => True

def isRetain : RetainCall → Bool
  | retain _ => true
  | sweep _ => false

def Sets (caps : Capabilities) (topic : Bytes) : RetainCall → Prop
  | retain pk => caps.retainAvailable ≠ 0 ∧ pk.ignore = false ∧ pk.topicName = topic
  | sweep _ => False

def expires (caps : Capabilities) (pk : Packet) : RetainCall → Bool
  | retain _ => false
  | sweep now => Storage.isRetainedExpired caps now pk

end RetainCall

/-- No message that is stored and that no later call replaces or clears is found expired by a later sweep. -/
def Unswept (caps : Capabilities) (calls : List RetainCall) : Prop :=
  ∀ front pk back, calls = front ++ .retain pk :: back → (RetainCall.retain pk).Sets caps pk.topicName →
    pk.payload ≠ [] → (∀ call ∈ back, ¬ call.Sets caps pk.topicName) → ∀ call ∈ back, call.expires caps pk = false

def started (client : Client) (caps : Capabilities) : Session := { client := client, server := { caps := caps } }

/-- The three records of the retained messages agree, and every particle leads to a retained message. -/
structure BooksAgree (server : Shared) : Prop where
  marked_iff : ∀ t, (t ≠ [] ∧ ∃ path, (server.topics.particle path).retainPath = t) ↔ t ∈ server.topics.retained
  path_eq : ∀ path, (server.topics.particle path).retainPath ≠ [] →
    path = levels (server.topics.particle path).retainPath
  count_eq : server.info.retained = size server.topics.retained
  alive : ∀ path, path ≠ [] → (server.topics.seek path).isSome = true →
    ∃ t ∈ server.topics.retained, path <+: levels t

/-! ### One call -/

variable {s u : Session} {t : Tables} {pk : Packet}

theorem retainMessage_of_refused (h : s.server.caps.retainAvailable = 0 ∨ pk.ignore = true) : s.retainMessage pk = s :=
  if_pos h

theorem retainMessage_server (h : ¬ (s.server.caps.retainAvailable = 0 ∨ pk.ignore = true)) :
    (s.retainMessage pk).server.topics = (s.server.topics.retainMessage (pk.copy false)).2 ∧
      (s.retainMessage pk).server.info.retained = size (s.retainMessage pk).server.topics.retained := by
  unfold retainMessage
  rw [if_neg h]
  exact ⟨rfl, rfl⟩

theorem retainMessage_caps : (s.retainMessage pk).server.caps = s.server.caps := by
  unfold retainMessage
  split
  · rfl
  · rfl

theorem root_retainMessage {x y : TopicsIndex} (h : x.root = y.root) (pk : Packet) :
    (x.retainMessage pk).2.root = (y.retainMessage pk).2.root := by
  unfold TopicsIndex.retainMessage
  dsimp only
  split
  · show x.root.alter _ _ _ = y.root.alter _ _ _
    rw [h]
  · show (x.root.alter _ _ _).trim _ _ = (y.root.alter _ _ _).trim _ _
    rw [h]

theorem mem_retainMessage (x : TopicsIndex) (pk : Packet) (topic : Bytes) :
    topic ∈ (x.retainMessage pk).2.retained ↔
      topic = pk.topicName ∧ pk.payload.length > 0 ∨ topic ≠ pk.topicName ∧ topic ∈ x.retained := by
  rw [← AList.lookup_isSome, TopicsIndex.lookup_retainMessage]
  by_cases htopic : topic = pk.topicName
  · rw [if_pos htopic]
    by_cases hpayload : pk.payload.length > 0
    · simp [htopic, hpayload]
    · simp [htopic, hpayload]
  · rw [if_neg htopic, AList.lookup_isSome]
    simp [htopic]

theorem clearExpired_eq (now : Int) :
    (s.clearExpiredRetainedMessages now).server.topics.root = s.server.topics.root ∧
      ∀ topic, topic ∈ (s.clearExpiredRetainedMessages now).server.topics.retained →
        topic ∈ s.server.topics.retained := by
  refine List.foldlRecOn (motive := fun x : TopicsIndex => x.root = s.server.topics.root ∧
    ∀ topic, topic ∈ x.retained → topic ∈ s.server.topics.retained) _ _ ⟨rfl, fun _ h => h⟩ ?_
  rintro x ⟨hroot, hsubset⟩ e -
  unfold Storage.clearExpiredRetained
  split
  · exact ⟨hroot, fun topic h => hsubset topic (AList.mem_erase.mp h).2⟩
  · exact ⟨hroot, hsubset⟩

/-! ### The server without the sweeps -/

/-- The server has the particles of one on which the same calls ran without the sweeps, and a part of its
messages; if it has them all, the count is right. -/
structure Shadows (s u : Session) (t : Tables) : Prop where
  caps : s.server.caps = u.server.caps
  root : s.server.topics.root = u.server.topics.root
  subset : ∀ topic, topic ∈ s.server.topics.retained → topic ∈ u.server.topics.retained
  named : [] ∉ u.server.topics.retained
  retains : u.server.topics.Retains
  consistent : Consistent u.server.topics t
  bare : t.subscriptions = ∅ ∧ t.shared = ∅ ∧ t.inlineSubscriptions = ∅
  count : (∀ topic, topic ∈ u.server.topics.retained → topic ∈ s.server.topics.retained) →
    s.server.info.retained = size s.server.topics.retained

theorem shadows_started (client : Client) (caps : Capabilities) :
    Shadows (started client caps) (started client caps) {} where
  caps := rfl
  root := rfl
  subset _ h := h
  named := AList.notMem_empty _
  retains := TopicsIndex.retains_new
  consistent := consistent_new
  bare := ⟨rfl, rfl, rfl⟩
  count _ := rfl

theorem Shadows.retain (h : Shadows s u t) (hnamed : pk.topicName ≠ []) :
    ∃ t', Shadows (s.retainMessage pk) (u.retainMessage pk) t' := by
  by_cases hrefused : s.server.caps.retainAvailable = 0 ∨ pk.ignore = true
  · rw [retainMessage_of_refused hrefused, retainMessage_of_refused (h.caps ▸ hrefused)]
    exact ⟨t, h⟩
  obtain ⟨htopics, hinfo⟩ := retainMessage_server hrefused
  obtain ⟨htopics', -⟩ := retainMessage_server (s := u) (h.caps ▸ hrefused)
  have hbare : (t.apply (.retainMessage (pk.copy false))).subscriptions = ∅ ∧
      (t.apply (.retainMessage (pk.copy false))).shared = ∅ ∧
      (t.apply (.retainMessage (pk.copy false))).inlineSubscriptions = ∅ := by
    unfold Tables.apply
    dsimp only
    split
    · exact h.bare
    · exact h.bare
  -- the count is set anew from the messages that are there
  refine ⟨t.apply (.retainMessage (pk.copy false)), ?_, ?_, ?_, ?_, ?_, ?_, hbare, fun _ => hinfo⟩
  · rw [retainMessage_caps, retainMessage_caps, h.caps]
  · rw [htopics, htopics']
    exact root_retainMessage h.root _
  · intro topic htopic
    rw [htopics, mem_retainMessage] at htopic
    rw [htopics', mem_retainMessage]
    exact htopic.imp_right fun ⟨hne, hmem⟩ => ⟨hne, h.subset topic hmem⟩
  · intro hmem
    rw [htopics', mem_retainMessage] at hmem
    rcases hmem with ⟨heq, -⟩ | ⟨-, hmem⟩
    · exact hnamed heq.symm
    · exact h.named hmem
  · rw [htopics']
    exact h.retains.retainMessage _
  · rw [htopics']
    exact @Consistent.run (.retainMessage (pk.copy false)) _ _ h.consistent hnamed

theorem Shadows.sweep (h : Shadows s u t) (now : Int) : Shadows (s.clearExpiredRetainedMessages now) u t := by
  obtain ⟨hroot, hsubset⟩ := clearExpired_eq (s := s) now
  refine ⟨h.caps, hroot.trans h.root, fun topic hmem => h.subset topic (hsubset topic hmem), h.named, h.retains,
    h.consistent, h.bare, fun hall => ?_⟩
  -- if nothing is missing after the sweep, it has removed nothing
  have hsame : ∀ topic, topic ∈ s.server.topics.retained ↔
      topic ∈ (s.clearExpiredRetainedMessages now).server.topics.retained :=
    fun topic => ⟨fun hmem => hall topic (h.subset topic hmem), hsubset topic⟩
  have hcount := h.count fun topic hmem => hsubset topic (hall topic hmem)
  rw [size_eq_of_mem_iff hsame] at hcount
  exact hcount

theorem Shadows.run (calls : List RetainCall) (hnamed : ∀ call ∈ calls, call.Named) (h : Shadows s u t) :
    ∃ t', Shadows (calls.foldl RetainCall.run s) ((calls.filter RetainCall.isRetain).foldl RetainCall.run u) t' := by
  induction calls generalizing s u t with
  | nil => exact ⟨t, h⟩
  | cons call calls ih =>
    have hrest : ∀ call ∈ calls, call.Named := fun call hcall => hnamed call (List.mem_cons_of_mem _ hcall)
    cases call with
    | retain pk =>
      obtain ⟨t', ht'⟩ := h.retain (hnamed (.retain pk) List.mem_cons_self)
      exact ih hrest ht'
    | sweep now => exact ih hrest (h.sweep now)

/-! ### Whether the records agree -/

theorem Shadows.particle (h : Shadows s u t) (path : List Bytes) :
    s.server.topics.particle path = u.server.topics.particle path := by
  unfold TopicsIndex.particle
  rw [h.root]

theorem Shadows.marked_iff (h : Shadows s u t) (topic : Bytes) :
    (topic ≠ [] ∧ ∃ path, (s.server.topics.particle path).retainPath = topic) ↔ topic ∈ u.server.topics.retained := by
  constructor
  · rintro ⟨hne, path, rfl⟩
    rw [h.particle] at hne ⊢
    have hmessage := ((h.consistent.retainPath path).resolve_left hne).2
    rw [← h.consistent.retained] at hmessage
    exact AList.lookup_isSome.mp (Option.isSome_iff_ne_none.mpr hmessage)
  · intro hmem
    have hne : topic ≠ [] := fun heq => h.named (heq ▸ hmem)
    exact ⟨hne, levels topic, by rw [h.particle]; exact h.retains.kept hmem hne⟩

theorem Shadows.alive (h : Shadows s u t) {path : List Bytes} (hne : path ≠ [])
    (hseek : (s.server.topics.seek path).isSome = true) :
    ∃ topic ∈ u.server.topics.retained, path <+: levels topic := by
  obtain ⟨k, path, rfl⟩ := List.exists_cons_of_ne_nil hne
  unfold TopicsIndex.seek at hseek
  rw [h.root] at hseek
  -- without subscriptions only a message can keep a particle
  obtain ⟨hsubscriptions, hshared, hinline⟩ := h.bare
  obtain ⟨rest, hholds⟩ := h.consistent.holdsAt hseek
  unfold Tables.HoldsAt at hholds
  rw [hsubscriptions, hshared, hinline] at hholds
  rcases hholds with ⟨client, hnone⟩ | ⟨group, client, hnone⟩ | ⟨id, hnone⟩ | ⟨topic, hlevels, hmessage⟩
  · exact absurd rfl hnone
  · exact absurd rfl hnone
  · exact absurd rfl hnone
  · rw [← h.consistent.retained] at hmessage
    refine ⟨topic, AList.lookup_isSome.mp (Option.isSome_iff_ne_none.mpr hmessage), ?_⟩
    rw [hlevels]
    exact List.prefix_append _ _

theorem Shadows.agree_iff (h : Shadows s u t) : BooksAgree s.server ↔
    ∀ topic, topic ∈ u.server.topics.retained → topic ∈ s.server.topics.retained := by
  constructor
  · intro hbooks topic hmem
    exact (hbooks.marked_iff topic).mp ((h.marked_iff topic).mpr hmem)
  · intro hall
    refine ⟨fun topic => (h.marked_iff topic).trans ⟨hall topic, h.subset topic⟩, ?_, h.count hall, ?_⟩
    · intro path hne
      rw [h.particle] at hne ⊢
      exact (h.retains.path hne).symm
    · intro path hne hseek
      obtain ⟨topic, hmem, hpath⟩ := h.alive hne hseek
      exact ⟨topic, hall topic hmem, hpath⟩

/-! ### The message of a topic -/

variable {caps : Capabilities} {topic : Bytes} {calls : List RetainCall}

theorem lookup_of_sets (hsets : (RetainCall.retain pk).Sets s.server.caps topic) :
    (s.retainMessage pk).server.topics.retained.lookup topic =
      if pk.payload.length > 0 then some (pk.copy false) else none := by
  obtain ⟨havailable, hignore, rfl⟩ := hsets
  rw [(retainMessage_server (by simp [havailable, hignore])).1, TopicsIndex.lookup_retainMessage]
  exact if_pos rfl

theorem lookup_of_not_sets (hsets : ¬ (RetainCall.retain pk).Sets s.server.caps topic) :
    (s.retainMessage pk).server.topics.retained.lookup topic = s.server.topics.retained.lookup topic := by
  by_cases hrefused : s.server.caps.retainAvailable = 0 ∨ pk.ignore = true
  · rw [retainMessage_of_refused hrefused]
  · rw [(retainMessage_server hrefused).1, TopicsIndex.lookup_retainMessage]
    rw [not_or, Bool.not_eq_true] at hrefused
    exact if_neg fun heq => hsets ⟨hrefused.1, hrefused.2, heq.symm⟩

theorem caps_foldl (calls : List RetainCall) (s : Session) :
    (calls.foldl RetainCall.run s).server.caps = s.server.caps := by
  refine List.foldlRecOn (motive := fun u : Session => u.server.caps = s.server.caps) calls _ rfl ?_
  intro u hu call _
  cases call with
  | retain pk => exact retainMessage_caps.trans hu
  | sweep now => exact hu

theorem lookup_foldl_none (hcalls : ∀ call ∈ calls, ¬ call.Sets s.server.caps topic)
    (hnone : s.server.topics.retained.lookup topic = none) :
    (calls.foldl RetainCall.run s).server.topics.retained.lookup topic = none := by
  induction calls generalizing s with
  | nil => exact hnone
  | cons call calls ih =>
    obtain ⟨hcall, hrest⟩ := List.forall_mem_cons.mp hcalls
    cases call with
    | retain pk =>
      have hcaps : (s.retainMessage pk).server.caps = s.server.caps := retainMessage_caps
      exact ih (s := s.retainMessage pk) (hcaps ▸ hrest) ((lookup_of_not_sets hcall).trans hnone)
    | sweep now =>
      refine ih (s := s.clearExpiredRetainedMessages now) hrest ?_
      rw [AList.lookup_eq_none] at hnone ⊢
      exact fun hmem => hnone ((clearExpired_eq now).2 topic hmem)

/-- A topic that no call sets keeps its message until a sweep finds it expired. -/
theorem lookup_foldl (hcalls : ∀ call ∈ calls, ¬ call.Sets s.server.caps topic) {p : Packet}
    (hlookup : s.server.topics.retained.lookup topic = some p) :
    (calls.foldl RetainCall.run s).server.topics.retained.lookup topic ≠ none ↔
      ∀ call ∈ calls, call.expires s.server.caps p = false := by
  induction calls generalizing s with
  | nil => simp [hlookup]
  | cons call calls ih =>
    obtain ⟨hcall, hrest⟩ := List.forall_mem_cons.mp hcalls
    rw [List.foldl_cons, List.forall_mem_cons]
    cases call with
    | retain pk =>
      have hcaps : (s.retainMessage pk).server.caps = s.server.caps := retainMessage_caps
      have hkept := @ih (s.retainMessage pk) (hcaps ▸ hrest) ((lookup_of_not_sets hcall).trans hlookup)
      rw [hcaps] at hkept
      exact hkept.trans (and_iff_right rfl).symm
    | sweep now =>
      have hswept := Storage.lookup_clearExpiredRetainedMessages s.server.caps now hlookup
      by_cases hexpired : Storage.isRetainedExpired s.server.caps now p = true
      · rw [if_pos hexpired] at hswept
        refine iff_of_false (fun h => h ?_) fun h => Bool.false_ne_true (h.1.symm.trans hexpired)
        exact lookup_foldl_none (s := s.clearExpiredRetainedMessages now) hrest hswept
      · rw [if_neg hexpired] at hswept
        have hkept := @ih (s.clearExpiredRetainedMessages now) hrest hswept
        exact hkept.trans (and_iff_right (Bool.eq_false_iff.mpr hexpired)).symm

theorem exists_last_sets (h : ∃ call ∈ calls, call.Sets caps topic) :
    ∃ front pk back, calls = front ++ .retain pk :: back ∧ (RetainCall.retain pk).Sets caps topic ∧
      ∀ call ∈ back, ¬ call.Sets caps topic := by
  induction calls with
  | nil => exact absurd h (by simp)
  | cons call calls ih =>
    by_cases hlater : ∃ call ∈ calls, call.Sets caps topic
    · obtain ⟨front, pk, back, rfl, hsets, hback⟩ := ih hlater
      exact ⟨call :: front, pk, back, rfl, hsets, hback⟩
    · obtain ⟨call', hmem, hsets⟩ := h
      rcases List.mem_cons.mp hmem with rfl | hmem
      · cases call' with
        | retain pk => exact ⟨[], pk, calls, rfl, hsets, fun call hcall h => hlater ⟨call, hcall, h⟩⟩
        | sweep now => exact hsets.elim
      · exact absurd ⟨call', hmem, hsets⟩ hlater

theorem mem_of_last {front back : List RetainCall} (hsets : (RetainCall.retain pk).Sets s.server.caps topic)
    (hback : ∀ call ∈ back, ¬ call.Sets s.server.caps topic) :
    topic ∈ ((front ++ .retain pk :: back).foldl RetainCall.run s).server.topics.retained ↔
      pk.payload ≠ [] ∧ ∀ call ∈ back, call.expires s.server.caps pk = false := by
  have hcaps := caps_foldl front s
  rw [List.foldl_append, List.foldl_cons]
  generalize front.foldl RetainCall.run s = v at hcaps
  rw [← hcaps] at hsets hback ⊢
  have hstored := lookup_of_sets hsets
  have hcaps' : (RetainCall.run v (.retain pk)).server.caps = v.server.caps := retainMessage_caps
  rw [← hcaps'] at hback
  rw [← AList.lookup_isSome, Option.isSome_iff_ne_none]
  by_cases hpayload : pk.payload = []
  · rw [hpayload] at hstored
    exact iff_of_false (fun h => h (lookup_foldl_none hback hstored)) fun h => h.1 hpayload
  · rw [if_pos (List.length_pos_iff.mpr hpayload)] at hstored
    have hkept := lookup_foldl hback hstored
    rw [hcaps'] at hkept
    have hsame : ∀ call : RetainCall, call.expires v.server.caps (pk.copy false) = call.expires v.server.caps pk :=
      fun call => by cases call <;> rfl
    simp only [hsame] at hkept
    exact hkept.trans (and_iff_right hpayload).symm

/-- The records agree exactly if no sweep removes a message that no later call replaces or clears. -/
theorem booksAgree_iff (client : Client) (caps : Capabilities) (calls : List RetainCall)
    (hnamed : ∀ call ∈ calls, call.Named) :
    BooksAgree (calls.foldl RetainCall.run (started client caps)).server ↔ Unswept caps calls := by
  obtain ⟨t, h⟩ := (shadows_started client caps).run calls hnamed
  rw [h.agree_iff]
  constructor
  · rintro hall front pk back rfl hsets hpayload hback
    refine ((mem_of_last hsets hback).mp (hall pk.topicName ?_)).2
    rw [List.filter_append, List.filter_cons_of_pos (p := RetainCall.isRetain) rfl]
    refine (mem_of_last (s := started client caps) hsets fun call hcall =>
      hback call (List.mem_of_mem_filter hcall)).mpr ⟨hpayload, fun call hcall => ?_⟩
    cases call with
    | retain pk => rfl
    | sweep now => exact absurd (List.mem_filter.mp hcall).2 Bool.false_ne_true
  · intro hunswept topic hmem
    by_cases hnone : ∃ call ∈ calls, call.Sets caps topic
    · obtain ⟨front, pk, back, rfl, hsets, hback⟩ := exists_last_sets hnone
      obtain rfl := hsets.2.2
      rw [List.filter_append, List.filter_cons_of_pos (p := RetainCall.isRetain) rfl] at hmem
      have hpayload := ((mem_of_last (s := started client caps) hsets fun call hcall =>
        hback call (List.mem_of_mem_filter hcall)).mp hmem).1
      exact (mem_of_last hsets hback).mpr ⟨hpayload, hunswept front pk back rfl hsets hpayload hback⟩
    · rw [← AList.lookup_isSome, lookup_foldl_none (s := started client caps)
        (fun call hcall hsets => hnone ⟨call, List.mem_of_mem_filter hcall, hsets⟩) rfl] at hmem
      cases hmem

def expiringMessage : Packet :=
  { topicName := [97], payload := [1], protocolVersion := 5, expiry := 5,
    fixedHeader := { type := .publish, retain := true } }

/-- A message that was swept away and published again. -/
theorem booksAgree_replaced :
    BooksAgree ([.retain expiringMessage, .sweep 10, .retain expiringMessage].foldl RetainCall.run
      (started {} {})).server := by
  refine (booksAgree_iff {} {} _ ?_).mpr ?_
  · simp [RetainCall.Named, expiringMessage]
  · intro front pk back hcalls hsets _ hback
    -- the first message is replaced, and the second is the last call
    rcases front with _ | ⟨_, _ | ⟨_, _ | ⟨_, front⟩⟩⟩
    · obtain ⟨hpk, rfl⟩ := List.cons.inj hcalls
      cases hpk
      exact absurd hsets (hback (.retain expiringMessage) (by simp))
    · cases hcalls
    · cases hcalls
      exact fun _ hcall => absurd hcall List.not_mem_nil
    · simp at hcalls

/-- After the sweep the topic `a` has no message, but a particle, and counts as one. -/
theorem swept_message_leaves_particle :
    let server := ([.retain expiringMessage, .sweep 10].foldl RetainCall.run (started {} {})).server
    server.topics.retained.lookup [97] = none ∧ (server.topics.particle [[97]]).retainPath = [97] ∧
      server.info.retained = 1 ∧ ¬ BooksAgree server := by
  intro server
  have hgone : server.topics.retained.lookup [97] = none := by decide +kernel
  have hmarked : (server.topics.particle [[97]]).retainPath = [97] := by decide +kernel
  refine ⟨hgone, hmarked, by decide +kernel, fun hbooks => ?_⟩
  have hmem := (hbooks.marked_iff [97]).mp ⟨List.cons_ne_nil _ _, _, hmarked⟩
  rw [← AList.lookup_isSome, hgone] at hmem
  cases hmem

end Session
end Mqtt
