import MqttBroker.Topics.Visits

/-! The grammar of topic filters, and what `IsValidFilter` tests of it. The test looks for
`#` anywhere but in the last byte and for the parts of a shared filter; it does not look
at `+`, at what stands before `#` in its level, or whether share name and filter are empty. -/

namespace Mqtt
open TopicsIndex

/-! ### Levels and separators -/

theorem exists_of_levels_cons_cons {s f g : Bytes} {rest : List Bytes} (h : levels s = f :: g :: rest) :
    ∃ t, s = f ++ slash :: t ∧ slash ∉ f ∧ levels t = g :: rest := by
  cases hi : s.idxOf? slash with
  | none =>
    rw [levels_of_idxOf?_eq_none hi] at h
    cases h
  | some stop =>
    rw [levels_of_idxOf?_eq_some hi] at h
    obtain ⟨hf, hrest⟩ := List.cons.inj h
    obtain ⟨hlt, hat, hbefore⟩ := List.idxOf?_eq_some_iff.mp hi
    refine ⟨s.drop (stop + 1), ?_, ?_, hrest⟩
    · rw [← hf, ← hat, ← List.drop_eq_getElem_cons hlt, List.take_append_drop]
    · rw [← hf]
      intro hmem
      obtain ⟨i, hi, heq⟩ := List.getElem_of_mem hmem
      rw [List.length_take] at hi
      rw [List.getElem_take] at heq
      exact hbefore i (by omega) heq

theorem eq_flatMap_of_levels {s last : Bytes} {front : List Bytes} (h : levels s = front ++ [last]) :
    s = front.flatMap (· ++ [slash]) ++ last := by
  induction front generalizing s with
  | nil =>
    cases hi : s.idxOf? slash with
    | none =>
      rw [levels_of_idxOf?_eq_none hi] at h
      exact (List.cons.inj h).1
    | some stop =>
      rw [levels_of_idxOf?_eq_some hi] at h
      exact absurd (List.cons.inj h).2 (levels_ne_nil _)
  | cons f front ih =>
    cases hfront : front ++ [last] with
    | nil => exact absurd hfront (by simp)
    | cons g rest =>
      rw [List.cons_append, hfront] at h
      obtain ⟨t, hs, -, ht⟩ := exists_of_levels_cons_cons h
      rw [← hfront] at ht
      rw [hs, List.flatMap_cons, List.append_assoc, List.append_assoc, ← ih ht]
      rfl

theorem mem_level_of_mem {s : Bytes} {x : UInt8} (hx : x ∈ s) (hne : x ≠ slash) : ∃ l ∈ levels s, x ∈ l := by
  have hsplit := eq_flatMap_of_levels (List.dropLast_append_getLast (levels_ne_nil s)).symm
  rw [hsplit, List.mem_append] at hx
  rcases hx with hx | hx
  · obtain ⟨l, hl, hxl⟩ := List.mem_flatMap.mp hx
    rcases List.mem_append.mp hxl with hxl | hslash
    · exact ⟨l, List.dropLast_subset _ hl, hxl⟩
    · exact absurd (List.mem_singleton.mp hslash) hne
  · exact ⟨_, List.getLast_mem (levels_ne_nil s), hx⟩

/-! ### The grammar -/

/-- `#` is the whole of the last level wherever it stands, and `+` the whole of its level. -/
structure Wildcards (s : Bytes) : Prop where
  hash_last : ∀ {front back : List Bytes} {l : Bytes}, levels s = front ++ l :: back → hash ∈ l → l = [hash] ∧ back = []
  plus_whole : ∀ l ∈ levels s, plus ∈ l → l = [plus]

structure IsTopicFilter (s : Bytes) : Prop where
  ne_nil : s ≠ []
  wildcards : Wildcards s
  share : isSharedFilter s = true → ∃ first name filter, s = first ++ slash :: (name ++ slash :: filter) ∧
    slash ∉ first ∧ name ≠ [] ∧ slash ∉ name ∧ plus ∉ name ∧ hash ∉ name ∧ filter ≠ [] ∧ Wildcards filter

/-- A wildcard is alone in its level, and share name and filter are not empty. -/
structure WellShaped (s : Bytes) : Prop where
  alone : ∀ l ∈ levels s, (plus ∈ l → l = [plus]) ∧ (hash ∈ l → l = [hash])
  named : isSharedFilter s = true → ∀ {first name : Bytes} {rest : List Bytes}, levels s = first :: name :: rest →
    name ≠ [] ∧ rest ≠ [[]]

/-- A `#` stands at most in the last byte and a share name is followed by a filter and has no wildcard, but a wildcard
is not alone in its level, or share name or filter are empty. -/
structure AcceptedWrongly (s : Bytes) : Prop where
  ne_nil : s ≠ []
  hash_last : hash ∉ s.dropLast
  shared : isSharedFilter s = true → ∃ (first name : Bytes) (rest : List Bytes), levels s = first :: name :: rest ∧
    rest ≠ [] ∧ plus ∉ name ∧ hash ∉ name
  misshapen : ¬ WellShaped s

variable {s : Bytes}

theorem back_eq_nil_of_hash (hhash : hash ∉ s.dropLast) {front back : List Bytes} {l : Bytes}
    (hlevels : levels s = front ++ l :: back) (hl : hash ∈ l) : back = [] := by
  by_contra hback
  have hpos := List.length_pos_iff.mpr hback
  have hat : (levels s)[front.length]? = some l := by
    rw [hlevels, List.getElem?_append_right (Nat.le_refl _), Nat.sub_self]
    rfl
  have hlt : front.length + 1 < (levels s).length := by
    rw [hlevels, List.length_append, List.length_cons]
    omega
  exact hhash (subset_dropLast_of_level hat hlt hl)

theorem Wildcards.hash_notMem_dropLast (h : Wildcards s) : hash ∉ s.dropLast := by
  intro hmem
  obtain ⟨l, hl, hhash⟩ := mem_level_of_mem (List.dropLast_subset _ hmem) (by decide)
  obtain ⟨front, back, hlevels⟩ := List.append_of_mem hl
  obtain ⟨rfl, rfl⟩ := h.hash_last hlevels hhash
  have hsplit := eq_flatMap_of_levels hlevels
  rw [hsplit, List.dropLast_concat] at hmem
  obtain ⟨l', hl', hin⟩ := List.mem_flatMap.mp hmem
  obtain ⟨front', back', hfront⟩ := List.append_of_mem hl'
  rcases List.mem_append.mp hin with hin | hslash
  · rw [hfront, List.append_assoc, List.cons_append] at hlevels
    have hback := (h.hash_last hlevels hin).2
    exact absurd hback (by simp)
  · exact absurd (List.mem_singleton.mp hslash) (by decide)

theorem Wildcards.of_append {t : Bytes} (h : Wildcards s) (front : List Bytes)
    (hlevels : levels s = front ++ levels t) :
    Wildcards t where
  hash_last {front' back l} ht hl := by
    rw [ht, ← List.append_assoc] at hlevels
    exact h.hash_last hlevels hl
  plus_whole l hl := h.plus_whole l (by rw [hlevels]; exact List.mem_append_right _ hl)

theorem wildcards_of_valid (hvalid : isValidFilter s false = true) (hshape : WellShaped s) : Wildcards s where
  hash_last {front back l} hlevels hl := by
    have hmem : l ∈ levels s := by
      rw [hlevels]
      exact List.mem_append_right _ List.mem_cons_self
    exact ⟨(hshape.alone l hmem).2 hl, back_eq_nil_of_hash (isValidFilter_iff.mp hvalid).2.1 hlevels hl⟩
  plus_whole l hl := (hshape.alone l hl).1

theorem IsTopicFilter.valid (h : IsTopicFilter s) : isValidFilter s false = true := by
  refine isValidFilter_iff.mpr ⟨h.ne_nil, h.wildcards.hash_notMem_dropLast, fun hshared => ?_⟩
  obtain ⟨first, name, filter, rfl, hfirst, -, hname, hplus, hhash, -, -⟩ := h.share hshared
  refine ⟨first, name, levels filter, ?_, levels_ne_nil filter, hplus, hhash⟩
  rw [levels_append_slash hfirst, levels_append_slash hname]

theorem IsTopicFilter.wellShaped (h : IsTopicFilter s) : WellShaped s where
  alone l hl := by
    refine ⟨h.wildcards.plus_whole l hl, fun hhash => ?_⟩
    obtain ⟨front, back, hlevels⟩ := List.append_of_mem hl
    exact (h.wildcards.hash_last hlevels hhash).1
  named hshared {first' name' rest'} hlevels := by
    obtain ⟨first, name, filter, rfl, hfirst, hne, hname, -, -, hfilter, -⟩ := h.share hshared
    rw [levels_append_slash hfirst, levels_append_slash hname] at hlevels
    obtain ⟨-, hlevels⟩ := List.cons.inj hlevels
    obtain ⟨rfl, rfl⟩ := List.cons.inj hlevels
    refine ⟨hne, fun hempty => hfilter ?_⟩
    exact levels_injective hempty

theorem WellShaped.isTopicFilter (hshape : WellShaped s) (hvalid : isValidFilter s false = true) : IsTopicFilter s := by
  have hwild := wildcards_of_valid hvalid hshape
  obtain ⟨hne, -, hshare⟩ := isValidFilter_iff.mp hvalid
  refine ⟨hne, hwild, fun hshared => ?_⟩
  obtain ⟨first, name, rest, hlevels, hrest, hplus, hhash⟩ := hshare hshared
  obtain ⟨hname, hempty⟩ := hshape.named hshared hlevels
  obtain ⟨t, hs, hfirst, ht⟩ := exists_of_levels_cons_cons hlevels
  obtain ⟨third, rest', rfl⟩ := List.exists_cons_of_ne_nil hrest
  obtain ⟨filter, rfl, hslash, hfilter⟩ := exists_of_levels_cons_cons ht
  refine ⟨first, name, filter, hs, hfirst, hname, hslash, hplus, hhash, ?_, ?_⟩
  · rintro rfl
    exact hempty hfilter.symm
  · refine hwild.of_append [first, name] ?_
    rw [hlevels, hfilter]
    rfl

/-- `IsValidFilter` decides the grammar exactly for the texts that are not accepted wrongly. -/
theorem isValidFilter_exact_iff (s : Bytes) :
    (isValidFilter s false = true ↔ IsTopicFilter s) ↔ ¬ AcceptedWrongly s := by
  constructor
  · intro hexact hwrong
    have hvalid := isValidFilter_iff.mpr ⟨hwrong.ne_nil, hwrong.hash_last, hwrong.shared⟩
    exact hwrong.misshapen (hexact.mp hvalid).wellShaped
  · intro hright
    refine ⟨fun hvalid => ?_, fun h => h.valid⟩
    have hshape : WellShaped s := by
      by_contra hshape
      obtain ⟨hne, hhash, hshare⟩ := isValidFilter_iff.mp hvalid
      exact hright ⟨hne, hhash, hshare, hshape⟩
    exact hshape.isTopicFilter hvalid

/-- The filter `a+` is accepted. -/
theorem embedded_plus_accepted : ¬ ∀ s : Bytes, isValidFilter s false = true ↔ IsTopicFilter s := by
  intro h
  have hfilter := (h [0x61, 0x2B]).mp (by decide)
  have hwhole := hfilter.wildcards.plus_whole [0x61, 0x2B] (by decide) (by decide)
  exact absurd hwhole (by decide)

end Mqtt
