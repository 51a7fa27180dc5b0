import MqttBroker.Topics.Levels

/-! The topic matching of the auth ledger. It goes through filter and topic level
by level and collects what the wildcards stand for. A filter that has come to its
end matches whatever levels are left of the topic, so a filter without `#` also
matches the topics below the ones it names. -/

namespace Mqtt.Auth

/-- The loop of `MatchTopic` over the parts, from some index on. -/
def matchTopicLoop : List Bytes → List Bytes → List Bytes → List Bytes × Bool
  | [], _, elements => (elements, true)
  | _ :: _, [], elements => (elements, false)
  | f :: filterParts, t :: topicParts, elements =>
    if f = [plus] then matchTopicLoop filterParts topicParts (elements ++ [t])
    else if f = [hash] then (elements ++ [[slash].intercalate (t :: topicParts)], true)
    else if f ≠ t then (elements, false)
    else matchTopicLoop filterParts topicParts elements

def matchTopic (filter topic : Bytes) : List Bytes × Bool := matchTopicLoop (levels filter) (levels topic) []

def filterMatches (r a : Bytes) : Bool := (matchTopic r a).2

/-! ### What a match is -/

def LevelMatches (f t : Bytes) : Prop := f = [plus] ∨ f = t

instance (f t : Bytes) : Decidable (LevelMatches f t) := inferInstanceAs (Decidable (_ ∨ _))

/-- Every filter level before the first `#` stands against a level of the topic and matches it, and
either a `#` has a level left for it or filter and topic have the same number of levels. -/
def Matches (f t : List Bytes) : Prop :=
  List.Forall₂ LevelMatches (f.take (f.idxOf [hash])) (t.take (f.idxOf [hash])) ∧
    if [hash] ∈ f then f.idxOf [hash] < t.length else f.length = t.length

instance (f t : List Bytes) : Decidable (Matches f t) := inferInstanceAs (Decidable (_ ∧ ite _ _ _))

/-- The topic levels at the places of `+`, and for `#` the remaining levels joined. -/
def captured (f t : List Bytes) : List Bytes :=
  (((f.take (f.idxOf [hash])).zip t).filter fun x => x.1 = [plus]).map Prod.snd ++
    if [hash] ∈ f then [[slash].intercalate (t.drop (f.idxOf [hash]))] else []

/-- The filter has no `#` and matches the first levels of a topic that has more. -/
def Overruns (f t : List Bytes) : Prop :=
  [hash] ∉ f ∧ f.length < t.length ∧ List.Forall₂ LevelMatches f (t.take f.length)

instance (f t : List Bytes) : Decidable (Overruns f t) := inferInstanceAs (Decidable (_ ∧ _ ∧ _))

section Recursion
variable {f t : Bytes} {fs ts : List Bytes}

theorem matches_nil : Matches [] ts ↔ ts = [] := by
  simp [Matches, eq_comm]

theorem not_matches_cons_nil : ¬Matches (f :: fs) [] := by
  rintro ⟨hlevels, hend⟩
  by_cases hf : f = [hash]
  · rw [if_pos (hf ▸ List.mem_cons_self)] at hend
    exact Nat.not_lt_zero _ hend
  · rw [List.idxOf_cons_ne _ hf, List.take_succ_cons, List.take_nil] at hlevels
    cases hlevels

theorem matches_hash : Matches ([hash] :: fs) (t :: ts) := by
  refine ⟨?_, ?_⟩
  · rw [List.idxOf_cons_self]
    exact .nil
  · rw [if_pos List.mem_cons_self, List.idxOf_cons_self]
    exact Nat.succ_pos _

theorem matches_cons (hf : f ≠ [hash]) : Matches (f :: fs) (t :: ts) ↔ LevelMatches f t ∧ Matches fs ts := by
  have hmem : [hash] ∈ f :: fs ↔ [hash] ∈ fs := by
    rw [List.mem_cons, or_iff_right (Ne.symm hf)]
  unfold Matches
  rw [List.idxOf_cons_ne _ hf, List.take_succ_cons, List.take_succ_cons, List.forall₂_cons]
  simp only [hmem, List.length_cons, Nat.succ_lt_succ_iff, Nat.succ_inj]
  rw [and_assoc]

theorem overruns_nil : Overruns [] ts ↔ ts ≠ [] := by
  simp [Overruns, List.length_pos_iff]

theorem not_overruns_cons_nil : ¬Overruns (f :: fs) [] := fun h => Nat.not_lt_zero _ h.2.1

theorem overruns_cons (hf : f ≠ [hash]) : Overruns (f :: fs) (t :: ts) ↔ LevelMatches f t ∧ Overruns fs ts := by
  have hmem : [hash] ∈ f :: fs ↔ [hash] ∈ fs := by
    rw [List.mem_cons, or_iff_right (Ne.symm hf)]
  unfold Overruns
  rw [List.length_cons, List.take_succ_cons, List.forall₂_cons]
  simp only [hmem, List.length_cons, Nat.succ_lt_succ_iff]
  tauto

theorem Overruns.not_matches {f t : List Bytes} (h : Overruns f t) : ¬Matches f t := by
  rintro ⟨-, hend⟩
  rw [if_neg h.1] at hend
  exact Nat.ne_of_lt h.2.1 hend

theorem captured_nil : captured [] ts = [] := rfl

theorem captured_hash : captured ([hash] :: fs) ts = [[slash].intercalate ts] := by
  unfold captured
  rw [List.idxOf_cons_self, if_pos List.mem_cons_self]
  rfl

theorem captured_cons (hf : f ≠ [hash]) :
    captured (f :: fs) (t :: ts) = (if f = [plus] then [t] else []) ++ captured fs ts := by
  have hmem : [hash] ∈ f :: fs ↔ [hash] ∈ fs := by
    rw [List.mem_cons, or_iff_right (Ne.symm hf)]
  unfold captured
  rw [List.idxOf_cons_ne _ hf, List.take_succ_cons, List.zip_cons_cons, List.filter_cons, ← List.append_assoc]
  simp only [hmem, List.drop_succ_cons]
  split <;> rename_i hplus
  · rw [if_pos (of_decide_eq_true hplus)]
    rfl
  · rw [if_neg (fun h => hplus (decide_eq_true h))]
    rfl

end Recursion

theorem matchTopicLoop_matched (f t acc : List Bytes) :
    (matchTopicLoop f t acc).2 = true ↔ Matches f t ∨ Overruns f t := by
  fun_induction matchTopicLoop f t acc with
  | case1 t acc =>
    rw [matches_nil, overruns_nil]
    exact iff_of_true rfl (em _)
  | case2 acc f fs =>
    refine iff_of_false Bool.false_ne_true ?_
    rintro (h | h)
    · exact not_matches_cons_nil h
    · exact not_overruns_cons_nil h
  | case3 acc fs t ts ih =>
    have hne : [plus] ≠ [hash] := by decide
    rw [ih, matches_cons hne, overruns_cons hne, ← and_or_left]
    exact (and_iff_right (.inl rfl)).symm
  | case4 acc fs t ts =>
    exact iff_of_true rfl (.inl matches_hash)
  | case5 acc f fs t ts hplus hhash hne =>
    refine iff_of_false Bool.false_ne_true ?_
    rw [matches_cons hhash, overruns_cons hhash, ← and_or_left]
    rintro ⟨h | h, -⟩
    · exact hplus h
    · exact hne h
  | case6 acc f fs t ts hplus hhash heq ih =>
    rw [ih, matches_cons hhash, overruns_cons hhash, ← and_or_left]
    exact (and_iff_right (.inr (not_not.mp heq))).symm

theorem matchTopicLoop_elements {f t acc : List Bytes} (h : (matchTopicLoop f t acc).2 = true) :
    (matchTopicLoop f t acc).1 = acc ++ captured f t := by
  fun_induction matchTopicLoop f t acc with
  | case1 t acc => rw [captured_nil, List.append_nil]
  | case2 acc f fs => exact absurd h Bool.false_ne_true
  | case3 acc fs t ts ih =>
    rw [ih h, captured_cons (by decide), if_pos rfl, List.append_assoc]
  | case4 acc fs t ts => rw [captured_hash]
  | case5 acc f fs t ts hplus hhash hne => exact absurd h Bool.false_ne_true
  | case6 acc f fs t ts hplus hhash heq ih =>
    rw [ih h, captured_cons hhash, if_neg hplus, List.nil_append]

/-- A filter without `#` that runs out of levels before its topic is the only one that is matched wrongly:
then the answer should be no, and in every other case answer and elements are right. -/
theorem matchTopic_exact_iff (filter topic : Bytes) :
    (((matchTopic filter topic).2 = true ↔ Matches (levels filter) (levels topic)) ∧
      ((matchTopic filter topic).2 = true →
        (matchTopic filter topic).1 = captured (levels filter) (levels topic))) ↔
    ¬Overruns (levels filter) (levels topic) := by
  have helements : (matchTopic filter topic).2 = true →
      (matchTopic filter topic).1 = captured (levels filter) (levels topic) := by
    intro h
    exact matchTopicLoop_elements h
  have hmatched : (matchTopic filter topic).2 = true ↔
      Matches (levels filter) (levels topic) ∨ Overruns (levels filter) (levels topic) :=
    matchTopicLoop_matched _ _ _
  constructor
  · rintro ⟨hexact, -⟩ hover
    have hmatches := hexact.mp (hmatched.mpr (.inr hover))
    exact hover.not_matches hmatches
  · intro hover
    refine ⟨hmatched.trans (or_iff_left hover), helements⟩

/-- The filter `a` and the topic `a/b`: they have different numbers of levels, and the answer is a match. -/
theorem matchTopic_below_filter :
    (matchTopic [0x61] [0x61, 0x2F, 0x62]).2 = true ∧ ¬Matches (levels [0x61]) (levels [0x61, 0x2F, 0x62]) := by
  decide

end Mqtt.Auth
