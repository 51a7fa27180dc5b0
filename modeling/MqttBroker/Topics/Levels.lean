import MqttBroker.Wire.Packet

/-! Topic levels. The source cuts levels out of a topic one at a time, by depth;
the levels are the parts between the separators. -/

namespace Mqtt

def slash : UInt8 := 0x2F
def plus : UInt8 := 0x2B
def hash : UInt8 := 0x23
def dollar : UInt8 := 0x24

/-- `SharePrefix`, the text `$SHARE`. -/
def sharePrefix : Bytes := [0x24, 0x53, 0x48, 0x41, 0x52, 0x45]

/-- `SysPrefix`, the text `$SYS`. -/
def sysPrefix : Bytes := [0x24, 0x53, 0x59, 0x53]

/-- `strings.EqualFold` against a text in ASCII capitals. The letter S also folds with the
long s U+017F, whose encoding is C5 BF. -/
def equalFold : Bytes → Bytes → Bool
  | [], [] => true
  | 0xC5 :: 0xBF :: s, 0x53 :: upper => equalFold s upper
  | b :: s, u :: upper => (b == u || 0x41 ≤ u && u ≤ 0x5A && b == u + 0x20) && equalFold s upper
  | _, _ => false

/-- The level between the separators `d` and `d + 1`, and whether another level follows; past the
last level it is the last one again. -/
def isolateParticle (filter : Bytes) : Nat → Bytes × Bool
  | 0 =>
    match filter.idxOf? slash with
    | some stop => (filter.take stop, true)
    | none => (filter, false)
  | d + 1 =>
    match filter.idxOf? slash with
    | some stop => isolateParticle (filter.drop (stop + 1)) d
    | none => (filter, false)

def levels (topic : Bytes) : List Bytes := topic.splitOn slash

theorem levels_ne_nil (topic : Bytes) : levels topic ≠ [] := List.splitOnP_ne_nil _ _

theorem levels_injective : Function.Injective levels := by
  intro s t h
  have hjoin : [slash].intercalate (levels s) = [slash].intercalate (levels t) := congrArg _ h
  rw [levels, levels, List.intercalate_splitOn, List.intercalate_splitOn] at hjoin
  exact hjoin

variable {s topic : Bytes}

theorem levels_of_idxOf?_eq_none (h : s.idxOf? slash = none) : levels s = [s] := by
  refine List.splitOnP_eq_singleton fun x hx => ?_
  have hne : slash ∉ s := List.idxOf?_eq_none_iff.mp h
  exact beq_false_of_ne fun heq => hne (heq ▸ hx)

theorem levels_append_slash {t : Bytes} (hs : slash ∉ s) : levels (s ++ slash :: t) = s :: levels t := by
  refine List.splitOnP_append_cons_of_forall_mem (fun b hb => ?_) slash (by simp) t
  exact beq_false_of_ne fun h => hs (h ▸ hb)

theorem levels_of_idxOf?_eq_some {stop : Nat} (h : s.idxOf? slash = some stop) :
    levels s = s.take stop :: levels (s.drop (stop + 1)) := by
  obtain ⟨hlt, hat, hbefore⟩ := List.idxOf?_eq_some_iff.mp h
  have hsplit : s = s.take stop ++ slash :: s.drop (stop + 1) := by
    rw [← hat, ← List.drop_eq_getElem_cons hlt, List.take_append_drop]
  have hfirst : slash ∉ s.take stop := by
    intro hx
    obtain ⟨i, hi, hslash⟩ := List.getElem_of_mem hx
    rw [List.length_take] at hi
    rw [List.getElem_take] at hslash
    exact hbefore i (by omega) hslash
  conv_lhs => rw [hsplit]
  exact levels_append_slash hfirst

theorem isolateParticle_eq (s : Bytes) (d : Nat) :
    isolateParticle s d =
      (((levels s)[d]?).getD ((levels s).getLast (levels_ne_nil s)), decide (d + 1 < (levels s).length)) := by
  induction d generalizing s with
  | zero =>
    rw [isolateParticle]
    split
    · rename_i stop h
      simp [levels_of_idxOf?_eq_some h, List.length_pos_iff, levels_ne_nil]
    · rename_i h
      simp [levels_of_idxOf?_eq_none h]
  | succ d ih =>
    rw [isolateParticle]
    split
    · rename_i stop h
      simp [ih, levels_of_idxOf?_eq_some h, List.getLast_cons, levels_ne_nil]
    · rename_i h
      simp [levels_of_idxOf?_eq_none h]

/-- The levels that a walk from depth `d` visits, as the loops of `set` and `seek` do. -/
def levelsFrom (topic : Bytes) (d : Nat) : List Bytes :=
  (isolateParticle topic d).1 ::
    if (isolateParticle topic d).2 then levelsFrom topic (d + 1) else []
termination_by (levels topic).length - d
decreasing_by
  rename_i h
  rw [isolateParticle_eq, decide_eq_true_eq] at h
  omega

theorem levelsFrom_ne_nil {d : Nat} : levelsFrom topic d ≠ [] := by
  rw [levelsFrom]
  exact List.cons_ne_nil _ _

theorem levelsFrom_eq_drop {d : Nat} (h : d < (levels topic).length) : levelsFrom topic d = (levels topic).drop d := by
  induction hn : (levels topic).length - d generalizing d with
  | zero => omega
  | succ n ih =>
    rw [levelsFrom, isolateParticle_eq, List.getElem?_eq_getElem h, Option.getD_some,
      List.drop_eq_getElem_cons h]
    by_cases hd : d + 1 < (levels topic).length
    · rw [if_pos (by simpa using hd), ih hd (by omega)]
    · rw [if_neg (by simpa using hd), List.drop_eq_nil_of_le (by omega)]

theorem levelsFrom_zero (topic : Bytes) : levelsFrom topic 0 = levels topic := by
  rw [levelsFrom_eq_drop (List.length_pos_iff.mpr (levels_ne_nil topic)), List.drop_zero]

def isSharedFilter (filter : Bytes) : Bool := equalFold (isolateParticle filter 0).1 sharePrefix

def isValidFilter (filter : Bytes) (forPublish : Bool) : Bool :=
  if !forPublish && filter.isEmpty then false
  else if forPublish && filter.length ≥ sysPrefix.length && equalFold (filter.take sysPrefix.length) sysPrefix then
    false
  else if forPublish && (filter.contains plus || filter.contains hash) then false
  else if filter.contains hash && filter.idxOf hash != filter.length - 1 then false
  else
    let (first, hasNext) := isolateParticle filter 0
    if !hasNext && equalFold first sharePrefix then false
    else if hasNext && equalFold first sharePrefix then
      let (group, hasNext) := isolateParticle filter 1
      if !hasNext then false
      else if group.contains plus || group.contains hash then false
      else true
    else true

theorem hash_before_last_iff (s : Bytes) :
    (s.contains hash && s.idxOf hash != s.length - 1) = true ↔ hash ∈ s.dropLast := by
  rw [Bool.and_eq_true, List.contains_iff_mem, bne_iff_ne]
  constructor
  · rintro ⟨hmem, hne⟩
    have hlt := List.idxOf_lt_length_iff.mpr hmem
    rw [List.dropLast_eq_take]
    have hat : (s.take (s.length - 1))[s.idxOf hash]? = some hash := by
      rw [List.getElem?_take_of_lt (by omega), List.getElem?_eq_getElem hlt, List.getElem_idxOf hlt]
    exact List.mem_of_getElem? hat
  · intro hmem
    have hlt := List.succ_idxOf_lt_length_of_mem_dropLast hmem
    exact ⟨List.dropLast_subset _ hmem, by omega⟩

theorem isValidFilter_iff : isValidFilter s false = true ↔
    s ≠ [] ∧ hash ∉ s.dropLast ∧ (isSharedFilter s = true → ∃ first name rest,
      levels s = first :: name :: rest ∧ rest ≠ [] ∧ plus ∉ name ∧ hash ∉ name) := by
  have hshared : isSharedFilter s = equalFold (isolateParticle s 0).1 sharePrefix := rfl
  rw [hshared]
  by_cases hnil : s = []
  · subst hnil
    exact iff_of_false (by decide) fun h => h.1 rfl
  unfold isValidFilter
  rw [if_neg (by simp [hnil]), if_neg (by simp), if_neg (by simp)]
  by_cases hhash : hash ∈ s.dropLast
  · rw [if_pos ((hash_before_last_iff s).mpr hhash)]
    exact iff_of_false (by decide) fun h => h.2.1 hhash
  rw [if_neg (mt (hash_before_last_iff s).mp hhash)]
  dsimp only
  cases hfold : equalFold (isolateParticle s 0).1 sharePrefix with
  | false =>
    rw [Bool.and_false, Bool.and_false]
    exact iff_of_true rfl ⟨hnil, hhash, fun h => absurd h (by decide)⟩
  | true =>
    have hnext (d : Nat) : (isolateParticle s d).2 = decide (d + 1 < (levels s).length) := by rw [isolateParticle_eq]
    rw [Bool.and_true, Bool.and_true, hnext 0, hnext 1]
    by_cases hlong : 2 < (levels s).length
    · obtain ⟨first, name, rest, hlevels, hrest⟩ : ∃ first name rest, levels s = first :: name :: rest ∧ rest ≠ [] := by
        rcases hlevels : levels s with _ | ⟨first, _ | ⟨name, rest⟩⟩
        · exact absurd hlevels (levels_ne_nil s)
        · rw [hlevels] at hlong
          exact absurd hlong (by simp)
        · refine ⟨first, name, rest, rfl, ?_⟩
          rintro rfl
          rw [hlevels] at hlong
          exact absurd hlong (by simp)
      have hgroup : (isolateParticle s 1).1 = name := by
        rw [isolateParticle_eq]
        simp [hlevels]
      rw [hgroup, decide_eq_true (show 0 + 1 < (levels s).length by omega), decide_eq_true (show 1 + 1 < _ from hlong)]
      simp [hnil, hhash, hlevels, hrest]
    · rw [decide_eq_false (show ¬ 1 + 1 < _ from hlong)]
      refine iff_of_false (by simp) ?_
      rintro ⟨-, -, hshare⟩
      obtain ⟨first, name, rest, hlevels, hrest, -⟩ := hshare rfl
      have hpos := List.length_pos_iff.mpr hrest
      rw [hlevels, List.length_cons, List.length_cons] at hlong
      omega

end Mqtt
