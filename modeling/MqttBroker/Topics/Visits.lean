import MqttBroker.Topics.Messages
import Mathlib.Data.List.TakeDrop

/-! The retained messages of a filter are read off the particles visited, in
order, and these are the particles on the paths that the filter collects. -/

namespace Mqtt
open FiniteMap
namespace TopicsIndex
variable {retained : Map Bytes Packet} {filter : Bytes} {d : Nat} {n : ParticleTrie}

def WildKey (filter : Bytes) (d : Nat) : Prop :=
  (isolateParticle filter d).1 = [plus] ∨ (isolateParticle filter d).1 = [hash]

def visitChild (filter : Bytes) (d : Nat) (k : Bytes) (c : ParticleTrie) : List (List Bytes × Particle) :=
  if d = 0 ∧ k = sysPrefix then []
  else
    (if (isolateParticle filter d).2 then [] else [([k], c.value)]) ++
      if (isolateParticle filter d).2 ∨ (isolateParticle filter d).1 = [hash] then
        (visited filter (d + 1) c).map fun e => (k :: e.1, e.2)
      else []

theorem visited_wild (h : WildKey filter d) :
    visited filter d n = n.children.flatMap fun e => visitChild filter d e.1 e.2 := by
  unfold WildKey at h
  rw [visited, if_pos h]
  exact List.flatMap_subtype (g := fun e => visitChild filter d e.1 e.2) (fun _ _ => rfl) |>.trans
    (by rw [List.unattach_attach])

theorem visited_literal (h : ¬ WildKey filter d) :
    visited filter d n = match n.child? (isolateParticle filter d).1 with
      | some p =>
        if (isolateParticle filter d).2 then
          (visited filter (d + 1) p).map fun e => ((isolateParticle filter d).1 :: e.1, e.2)
        else [([(isolateParticle filter d).1], p.value)]
      | none => [] := by
  unfold WildKey at h
  rw [visited, if_neg h]
  split <;> split <;> simp_all

theorem isolateParticle_last (h : (isolateParticle filter d).2 = false) :
    (isolateParticle filter d).1 = (levels filter).getLast (levels_ne_nil filter) := by
  rw [isolateParticle_eq, decide_eq_false_iff_not] at h
  rw [isolateParticle_eq]
  dsimp only
  rcases Nat.lt_or_ge d (levels filter).length with hd | hd
  · rw [List.getElem?_eq_getElem hd, Option.getD_some, List.getLast_eq_getElem]
    congr 1
    omega
  · rw [List.getElem?_eq_none hd, Option.getD_none]

theorem wildLast_iff (h : (isolateParticle filter d).2 = false) : wildLast filter = true ↔ WildKey filter d := by
  rw [wildLast, WildKey, isolateParticle_last h, List.getLast?_eq_some_getLast (levels_ne_nil filter)]
  simp

theorem foldl_eq_append_flatMap {α β : Type} {l : List α} {f : List β → α → List β} {g : α → List β}
    (h : ∀ a ∈ l, ∀ acc, f acc a = acc ++ g a) (acc : List β) : l.foldl f acc = acc ++ l.flatMap g := by
  induction l generalizing acc with
  | nil => simp
  | cons a l ih =>
    rw [List.foldl_cons, h a List.mem_cons_self, ih (fun b hb => h b (List.mem_cons_of_mem _ hb)),
      List.flatMap_cons, List.append_assoc]

theorem appendRetained_eq (topic : Bytes) (pks : List Packet) :
    appendRetained retained topic pks = pks ++ (retained.lookup topic).toList := by
  rw [appendRetained]
  cases retained.lookup topic <;> simp

theorem appendRetained_wild (hk : WildKey filter d) (p : Particle) (pks : List Packet) :
    (if !(isolateParticle filter d).2 && p.retainPath != [] then appendRetained retained p.retainPath pks
      else pks) =
      pks ++ (if (isolateParticle filter d).2 then [] else [(([] : List Bytes), p)]).filterMap fun e =>
        retrieve retained filter e.2 := by
  cases hnext : (isolateParticle filter d).2 with
  | true => simp
  | false =>
    have hlast : wildLast filter = true := (wildLast_iff hnext).mpr hk
    by_cases hp : p.retainPath = []
    · simp [retrieve, hlast, hp]
    · have hret : retrieve retained filter p = retained.lookup p.retainPath := by
        simp [retrieve, hp]
      simp only [Bool.not_false, Bool.true_and, bne_iff_ne, ne_eq, hp, not_false_eq_true, if_true,
        Bool.false_eq_true, if_false, List.filterMap_cons, List.filterMap_nil, hret, appendRetained_eq]
      cases retained.lookup p.retainPath <;> rfl

theorem scanMessages_eq (hf : filter ≠ []) (hr : size retained ≠ 0) (hw : containsWildcard filter = true)
    (pks : List Packet) :
    scanMessages retained filter d n pks =
      pks ++ (visited filter d n).filterMap fun e => retrieve retained filter e.2 := by
  induction hn : sizeOf n using Nat.strong_induction_on generalizing d n pks with
  | h m ih =>
    have hguard : (filter.isEmpty || size retained == 0) = false := by simp [hf, hr]
    rw [scanMessages, hguard, hw]
    simp only [Bool.false_eq_true, if_false, Bool.not_true]
    by_cases hk : WildKey filter d
    · have hwild := hk
      unfold WildKey at hk
      rw [if_pos hk, visited_wild hwild, List.filterMap_flatMap]
      have hchild : ∀ a ∈ n.children.attach, ∀ acc : List Packet,
          (if d = 0 ∧ a.1.1 = sysPrefix then acc
            else
              if (isolateParticle filter d).2 ∨ (isolateParticle filter d).1 = [hash] then
                scanMessages retained filter (d + 1) a.1.2
                  (if !(isolateParticle filter d).2 && a.1.2.value.retainPath != [] then
                    appendRetained retained a.1.2.value.retainPath acc else acc)
              else
                if !(isolateParticle filter d).2 && a.1.2.value.retainPath != [] then
                  appendRetained retained a.1.2.value.retainPath acc else acc) =
            acc ++ (visitChild filter d a.1.1 a.1.2).filterMap fun e => retrieve retained filter e.2 := by
        rintro ⟨⟨k, c⟩, hmem⟩ - acc
        have hsize : sizeOf c < m := hn ▸ Trie.sizeOf_lt_of_mem hmem
        dsimp only
        rw [visitChild, appendRetained_wild hwild]
        split
        · simp
        · have hself : ((if (isolateParticle filter d).2 then [] else [(([] : List Bytes), c.value)]).filterMap
              fun e => retrieve retained filter e.2) =
              (if (isolateParticle filter d).2 then [] else [([k], c.value)]).filterMap
                fun e => retrieve retained filter e.2 := by
            cases (isolateParticle filter d).2 <;> rfl
          rw [List.filterMap_append, hself]
          split
          · rw [ih (sizeOf c) hsize _ rfl, List.append_assoc, List.filterMap_map]
            rfl
          · simp
      rw [foldl_eq_append_flatMap hchild]
      congr 1
      exact List.flatMap_subtype (fun _ _ => rfl) |>.trans (by rw [List.unattach_attach])
    · have hlit := hk
      unfold WildKey at hk
      rw [if_neg hk, visited_literal hlit]
      cases hc : n.child? (isolateParticle filter d).1 with
      | none => simp
      | some p =>
        have hsize : sizeOf p < m := hn ▸ Trie.sizeOf_lt_of_mem (Trie.mem_of_child? hc)
        dsimp only
        cases hnext : (isolateParticle filter d).2 with
        | true =>
          simp only [if_true, ih (sizeOf p) hsize pks rfl, List.filterMap_map]
          rfl
        | false =>
          have hlast : wildLast filter = false := by
            rw [← Bool.not_eq_true, wildLast_iff hnext]
            exact hlit
          have hret : retrieve retained filter p.value = retained.lookup p.value.retainPath := by
            simp [retrieve, hlast]
          simp only [Bool.false_eq_true, if_false, List.filterMap_cons, List.filterMap_nil, hret,
            appendRetained_eq]
          cases retained.lookup p.value.retainPath <;> rfl

/-! ### Which particles are visited -/

def HashLast (filter : Bytes) : Prop :=
  ∀ d, (isolateParticle filter d).2 = true → (isolateParticle filter d).1 ≠ [hash]

theorem levelsFrom_next (h : (isolateParticle filter d).2 = true) :
    levelsFrom filter d = (isolateParticle filter d).1 :: levelsFrom filter (d + 1) := by
  rw [levelsFrom, if_pos h]

theorem levelsFrom_end (h : (isolateParticle filter d).2 = false) :
    levelsFrom filter d = [(isolateParticle filter d).1] := by
  rw [levelsFrom, if_neg (by rw [h]; decide)]

theorem levelsFrom_past (h : (isolateParticle filter d).2 = false) :
    levelsFrom filter (d + 1) = [(isolateParticle filter d).1] := by
  have hnext : (isolateParticle filter (d + 1)).2 = false := by
    rw [isolateParticle_eq, decide_eq_false_iff_not] at h ⊢
    omega
  rw [levelsFrom_end hnext, isolateParticle_last hnext, isolateParticle_last h]

variable {path : List Bytes}

theorem collects_cons_iff {f : Bytes} {fs : List Bytes} (hfs : fs ≠ []) :
    Collects (f :: fs) path ↔ ∃ k ks, path = k :: ks ∧ (f = k ∨ f = [plus]) ∧ Collects fs ks := by
  constructor
  · intro h
    cases h with
    | last => exact absurd rfl hfs
    | step hk h => exact ⟨_, _, rfl, hk, h⟩
    | wild => exact absurd rfl hfs
  · rintro ⟨k, ks, rfl, hk, h⟩
    cases ks with
    | nil => cases h
    | cons l ls => exact .step hk h

theorem collects_singleton_iff {f : Bytes} :
    Collects [f] path ↔ ∃ k ks, path = k :: ks ∧ (f = [hash] ∨ ((f = k ∨ f = [plus]) ∧ ks = [])) := by
  constructor
  · intro h
    cases h with
    | last hk => exact ⟨_, _, rfl, .inr ⟨hk, rfl⟩⟩
    | step hk h => cases h
    | wild => exact ⟨_, _, rfl, .inl rfl⟩
  · rintro ⟨k, ks, rfl, rfl | ⟨hk, rfl⟩⟩
    · exact .wild _ _
    · exact .last hk

theorem mem_visitChild_iff {p : Particle} {k : Bytes} {c : ParticleTrie} :
    (path, p) ∈ visitChild filter d k c ↔ ¬ (d = 0 ∧ k = sysPrefix) ∧
      (((isolateParticle filter d).2 = false ∧ path = [k] ∧ p = c.value) ∨
        (((isolateParticle filter d).2 = true ∨ (isolateParticle filter d).1 = [hash]) ∧
          ∃ ks, path = k :: ks ∧ (ks, p) ∈ visited filter (d + 1) c)) := by
  rw [visitChild]
  split
  · rename_i h
    simp [h]
  · rename_i h
    rw [List.mem_append]
    refine ⟨fun hm => ⟨h, ?_⟩, fun hm => ?_⟩
    · rcases hm with hm | hm
      · left
        cases hnext : (isolateParticle filter d).2 with
        | true => simp [hnext] at hm
        | false => simpa [hnext] using hm
      · right
        split at hm
        · rename_i hdeep
          obtain ⟨⟨ks, q⟩, hq, heq⟩ := List.mem_map.mp hm
          obtain ⟨rfl, rfl⟩ := Prod.mk.inj heq
          exact ⟨hdeep, ks, rfl, hq⟩
        · cases hm
    · rcases hm.2 with ⟨hnext, rfl, rfl⟩ | ⟨hdeep, ks, rfl, hq⟩
      · left
        simp [hnext]
      · right
        rw [if_pos hdeep]
        exact List.mem_map.mpr ⟨(ks, p), hq, rfl⟩

/-- The particle on a path that the filter collects, the top level `$SYS` below a wildcard excepted. -/
def OnPath (filter : Bytes) (d : Nat) (n : ParticleTrie) (path : List Bytes) (p : Particle) : Prop :=
  Collects (levelsFrom filter d) path ∧ (∃ c, n.find? path = some c ∧ c.value = p) ∧
    ¬ (d = 0 ∧ WildKey filter d ∧ path.head? = some sysPrefix)

theorem onPath_ne_nil {p : Particle} : ¬ OnPath filter d n [] p := by
  rintro ⟨hc, -⟩
  generalize levelsFrom filter d = fs at hc
  cases hc

theorem onPath_cons {k : Bytes} {ks : List Bytes} {p : Particle} :
    OnPath filter d n (k :: ks) p ↔ Collects (levelsFrom filter d) (k :: ks) ∧
      ¬ (d = 0 ∧ WildKey filter d ∧ k = sysPrefix) ∧
        ∃ c, n.child? k = some c ∧ ∃ c', c.find? ks = some c' ∧ c'.value = p := by
  unfold OnPath
  rw [Trie.find?_cons]
  cases n.child? k <;> simp [and_comm]

theorem onPath_succ {p : Particle} : OnPath filter (d + 1) n path p ↔
    Collects (levelsFrom filter (d + 1)) path ∧ ∃ c, n.find? path = some c ∧ c.value = p := by
  simp [OnPath]

theorem onPath_next (hnext : (isolateParticle filter d).2 = true) {k : Bytes} {ks : List Bytes}
    {p : Particle} :
    OnPath filter d n (k :: ks) p ↔
      ((isolateParticle filter d).1 = k ∨ (isolateParticle filter d).1 = [plus]) ∧
        ¬ (d = 0 ∧ WildKey filter d ∧ k = sysPrefix) ∧
        ∃ c, n.child? k = some c ∧ OnPath filter (d + 1) c ks p := by
  simp only [onPath_cons, onPath_succ]
  rw [levelsFrom_next hnext, collects_cons_iff levelsFrom_ne_nil]
  constructor
  · rintro ⟨⟨_, _, heq, hk, hc⟩, hsys, c, hchild, hfind⟩
    cases heq
    exact ⟨hk, hsys, c, hchild, hc, hfind⟩
  · rintro ⟨hk, hsys, c, hchild, hc, hfind⟩
    exact ⟨⟨k, ks, rfl, hk, hc⟩, hsys, c, hchild, hfind⟩

/-- A path that enters a child at the last level of the filter goes on only below `#`, where the walk sees the last
level again. -/
theorem onPath_end (hnext : (isolateParticle filter d).2 = false) {k : Bytes} {ks : List Bytes}
    {p : Particle} :
    OnPath filter d n (k :: ks) p ↔
      ¬ (d = 0 ∧ WildKey filter d ∧ k = sysPrefix) ∧ ∃ c, n.child? k = some c ∧
        ((ks = [] ∧ p = c.value ∧ ((isolateParticle filter d).1 = k ∨ WildKey filter d)) ∨
          ((isolateParticle filter d).1 = [hash] ∧ OnPath filter (d + 1) c ks p)) := by
  simp only [onPath_cons, onPath_succ]
  rw [levelsFrom_end hnext, levelsFrom_past hnext, collects_singleton_iff]
  constructor
  · rintro ⟨⟨_, _, heq, hc⟩, hsys, c, hchild, c', hfind, rfl⟩
    cases heq
    refine ⟨hsys, c, hchild, ?_⟩
    cases ks with
    | nil =>
      have hself : c = c' := by simpa using hfind
      exact .inl ⟨rfl, by rw [hself], or_assoc.mp (hc.imp_right And.left).symm⟩
    | cons l ls =>
      have hhash : (isolateParticle filter d).1 = [hash] := hc.resolve_right fun h => by cases h.2
      exact .inr ⟨hhash, by rw [hhash]; exact .wild _ _, c', hfind, rfl⟩
  · rintro ⟨hsys, c, hchild, ⟨rfl, rfl, hkey⟩ | ⟨hhash, -, hfind⟩⟩
    · exact ⟨⟨k, [], rfl, (or_assoc.mpr hkey).symm.imp_right (⟨·, rfl⟩)⟩, hsys, c, hchild, c, by simp, rfl⟩
    · exact ⟨⟨k, ks, rfl, .inl hhash⟩, hsys, c, hchild, hfind⟩

theorem nil_notMem_visited {p : Particle} : ([], p) ∉ visited filter d n := by
  by_cases hk : WildKey filter d
  · rw [visited_wild hk, List.mem_flatMap]
    rintro ⟨⟨k, c⟩, -, hv⟩
    obtain ⟨-, ⟨-, hpath, -⟩ | ⟨-, ks, hpath, -⟩⟩ := mem_visitChild_iff.mp hv <;> cases hpath
  · rw [visited_literal hk]
    cases n.child? (isolateParticle filter d).1 with
    | none => exact List.not_mem_nil
    | some c => cases (isolateParticle filter d).2 <;> simp

section Cons
variable {k : Bytes} {ks : List Bytes} {p : Particle}

theorem mem_visited_wild (hk : WildKey filter d) (hkeys : n.KeysNodup) :
    (k :: ks, p) ∈ visited filter d n ↔ ∃ c, n.child? k = some c ∧ (k :: ks, p) ∈ visitChild filter d k c := by
  rw [visited_wild hk, List.mem_flatMap]
  constructor
  · rintro ⟨⟨k', c⟩, hc, hv⟩
    have hkey : k = k' := by
      obtain ⟨-, ⟨-, hpath, -⟩ | ⟨-, ks', hpath, -⟩⟩ := mem_visitChild_iff.mp hv
      · exact (List.cons.inj hpath).1
      · exact (List.cons.inj hpath).1
    subst hkey
    exact ⟨c, (Trie.child?_eq_some_iff hkeys.nodup).mpr hc, hv⟩
  · rintro ⟨c, hc, hv⟩
    exact ⟨(k, c), Trie.mem_of_child? hc, hv⟩

theorem mem_visited_literal (hk : ¬ WildKey filter d) :
    (k :: ks, p) ∈ visited filter d n ↔ (isolateParticle filter d).1 = k ∧ ∃ c, n.child? k = some c ∧
      if (isolateParticle filter d).2 then (ks, p) ∈ visited filter (d + 1) c else ks = [] ∧ p = c.value := by
  rw [visited_literal hk]
  constructor
  · intro h
    cases hc : n.child? (isolateParticle filter d).1 with
    | none =>
      rw [hc] at h
      cases h
    | some c =>
      rw [hc] at h
      cases hnext : (isolateParticle filter d).2 with
      | true =>
        simp only [hnext, if_true, List.mem_map, Prod.mk.injEq, List.cons.injEq] at h
        obtain ⟨⟨ks', q⟩, hv, ⟨hkey, rfl⟩, rfl⟩ := h
        exact ⟨hkey, c, hkey ▸ hc, hv⟩
      | false =>
        simp only [hnext, Bool.false_eq_true, if_false, List.mem_singleton, Prod.mk.injEq,
          List.cons.injEq] at h
        obtain ⟨⟨hkey, rfl⟩, rfl⟩ := h
        exact ⟨hkey.symm, c, hkey ▸ hc, rfl, rfl⟩
  · rintro ⟨rfl, c, hc, h⟩
    rw [hc]
    cases hnext : (isolateParticle filter d).2 with
    | true =>
      rw [hnext, if_pos rfl] at h
      exact List.mem_map.mpr ⟨(ks, p), h, rfl⟩
    | false =>
      rw [hnext, if_neg (by decide)] at h
      obtain ⟨rfl, rfl⟩ := h
      exact List.mem_singleton.mpr rfl

end Cons

theorem mem_visited_iff (hlast : HashLast filter) (hkeys : n.KeysNodup) {p : Particle} :
    (path, p) ∈ visited filter d n ↔ OnPath filter d n path p := by
  induction path generalizing d n with
  | nil => exact iff_of_false nil_notMem_visited onPath_ne_nil
  | cons k ks ih =>
    have hbelow : ∀ {c}, n.child? k = some c →
        ((ks, p) ∈ visited filter (d + 1) c ↔ OnPath filter (d + 1) c ks p) := fun hc =>
      ih (hkeys.child hc)
    by_cases hk : WildKey filter d
    · have hsys : (d = 0 ∧ WildKey filter d ∧ k = sysPrefix) ↔ (d = 0 ∧ k = sysPrefix) := by
        simp [hk]
      rw [mem_visited_wild hk hkeys]
      cases hnext : (isolateParticle filter d).2 with
      | true =>
        have hplus : (isolateParticle filter d).1 = [plus] := hk.resolve_right (hlast d hnext)
        rw [onPath_next hnext, hsys]
        constructor
        · rintro ⟨c, hc, hv⟩
          obtain ⟨hs, ⟨hend, -⟩ | ⟨-, ks', hpath, hv⟩⟩ := mem_visitChild_iff.mp hv
          · rw [hnext] at hend
            cases hend
          · cases hpath
            exact ⟨.inr hplus, hs, c, hc, (hbelow hc).mp hv⟩
        · rintro ⟨-, hs, c, hc, hv⟩
          exact ⟨c, hc, mem_visitChild_iff.mpr ⟨hs, .inr ⟨.inl hnext, ks, rfl, (hbelow hc).mpr hv⟩⟩⟩
      | false =>
        rw [onPath_end hnext, hsys]
        constructor
        · rintro ⟨c, hc, hv⟩
          obtain ⟨hs, ⟨-, hpath, hp⟩ | ⟨hdeep, ks', hpath, hv⟩⟩ := mem_visitChild_iff.mp hv
          · exact ⟨hs, c, hc, .inl ⟨(List.cons.inj hpath).2, hp, .inr hk⟩⟩
          · have hhash := hdeep.resolve_left (by rw [hnext]; decide)
            cases hpath
            exact ⟨hs, c, hc, .inr ⟨hhash, (hbelow hc).mp hv⟩⟩
        · rintro ⟨hs, c, hc, ⟨rfl, hp, -⟩ | ⟨hhash, hv⟩⟩
          · exact ⟨c, hc, mem_visitChild_iff.mpr ⟨hs, .inl ⟨hnext, rfl, hp⟩⟩⟩
          · exact ⟨c, hc, mem_visitChild_iff.mpr ⟨hs, .inr ⟨.inr hhash, ks, rfl, (hbelow hc).mpr hv⟩⟩⟩
    · have hwild : (isolateParticle filter d).1 ≠ [plus] ∧ (isolateParticle filter d).1 ≠ [hash] :=
        not_or.mp hk
      have hsys : ¬ (d = 0 ∧ WildKey filter d ∧ k = sysPrefix) := fun h => hk h.2.1
      rw [mem_visited_literal hk]
      cases hnext : (isolateParticle filter d).2 with
      | true =>
        rw [onPath_next hnext, and_iff_right hsys]
        constructor
        · rintro ⟨hkey, c, hc, hv⟩
          exact ⟨.inl hkey, c, hc, (hbelow hc).mp hv⟩
        · rintro ⟨hkey, c, hc, hv⟩
          exact ⟨hkey.resolve_right hwild.1, c, hc, (hbelow hc).mpr hv⟩
      | false =>
        rw [onPath_end hnext, and_iff_right hsys]
        constructor
        · rintro ⟨hkey, c, hc, hnil, hp⟩
          exact ⟨c, hc, .inl ⟨hnil, hp, .inl hkey⟩⟩
        · rintro ⟨c, hc, ⟨hnil, hp, hkey⟩ | ⟨hhash, -⟩⟩
          · exact ⟨hkey.resolve_right hk, c, hc, hnil, hp⟩
          · exact absurd hhash hwild.2

theorem nodup_visited (hkeys : n.KeysNodup) : ((visited filter d n).map Prod.fst).Nodup := by
  induction hn : sizeOf n using Nat.strong_induction_on generalizing d n with
  | h m ih =>
    have hbelow : ∀ {k c}, (k, c) ∈ n.children →
        (((visited filter (d + 1) c).map fun e => (k :: e.1, e.2)).map Prod.fst).Nodup := by
      intro k c hmem
      have hchild := (Trie.child?_eq_some_iff hkeys.nodup).mpr hmem
      have hnodup := ih (sizeOf c) (hn ▸ Trie.sizeOf_lt_of_mem hmem) (d := d + 1) (hkeys.child hchild) rfl
      have hcons : ((visited filter (d + 1) c).map fun e => (k :: e.1, e.2)).map Prod.fst =
          ((visited filter (d + 1) c).map Prod.fst).map (List.cons k) := by
        rw [List.map_map, List.map_map]
        rfl
      rw [hcons]
      exact hnodup.map fun _ _ h => (List.cons.inj h).2
    by_cases hk : WildKey filter d
    · rw [visited_wild hk, List.map_flatMap, List.nodup_flatMap]
      constructor
      · rintro ⟨k, c⟩ hmem
        unfold visitChild
        split
        · exact List.nodup_nil
        · rw [List.map_append, List.nodup_append]
          refine ⟨by split <;> simp, by split <;> [exact hbelow hmem; exact List.nodup_nil], ?_⟩
          intro a ha b hb hab
          have hself : a = [k] := by
            split at ha <;> simp at ha
            exact ha
          have hnil : ∃ p, ([], p) ∈ visited filter (d + 1) c := by
            subst hab
            rw [hself] at hb
            split at hb <;> simp at hb
            exact hb
          obtain ⟨p, hp⟩ := hnil
          exact nil_notMem_visited hp
      · have hheads : ∀ {k c path}, path ∈ (visitChild filter d k c).map Prod.fst → path.head? = some k := by
          intro k c path hpath
          obtain ⟨⟨path, p⟩, hv, rfl⟩ := List.mem_map.mp hpath
          obtain ⟨-, ⟨-, rfl, -⟩ | ⟨-, ks, rfl, -⟩⟩ := mem_visitChild_iff.mp hv
          · rfl
          · rfl
        have hdistinct : n.children.Pairwise fun e e' => e.1 ≠ e'.1 := List.pairwise_map.mp hkeys.nodup
        refine hdistinct.imp fun {e e'} hne path h h' => hne ?_
        exact Option.some.inj ((hheads h).symm.trans (hheads h'))
    · rw [visited_literal hk]
      cases hc : n.child? (isolateParticle filter d).1 with
      | none => exact List.nodup_nil
      | some c =>
        cases (isolateParticle filter d).2 with
        | true => exact hbelow (Trie.mem_of_child? hc)
        | false => exact List.nodup_singleton _

/-! ### Filters that the broker accepts -/

theorem subset_dropLast_of_level {s l : Bytes} {d : Nat} (hl : (levels s)[d]? = some l)
    (hd : d + 1 < (levels s).length) : l ⊆ s.dropLast := by
  induction d generalizing s with
  | zero =>
    cases hi : s.idxOf? slash with
    | none =>
      rw [levels_of_idxOf?_eq_none hi] at hd
      exact absurd hd (by simp)
    | some stop =>
      have hlt : stop < s.length := (List.idxOf?_eq_some_iff.mp hi).1
      rw [levels_of_idxOf?_eq_some hi, List.getElem?_cons_zero, Option.some.injEq] at hl
      rw [← hl, List.dropLast_eq_take]
      exact (List.take_sublist_take_left (by omega)).subset
  | succ d ih =>
    cases hi : s.idxOf? slash with
    | none =>
      rw [levels_of_idxOf?_eq_none hi] at hd
      exact absurd hd (by simp)
    | some stop =>
      rw [levels_of_idxOf?_eq_some hi, List.length_cons] at hd
      rw [levels_of_idxOf?_eq_some hi, List.getElem?_cons_succ] at hl
      have hrest := ih hl (by omega)
      rw [List.dropLast_drop_eq_drop_dropLast] at hrest
      exact List.Subset.trans hrest (List.drop_subset _ _)

theorem hashLast_of_isValidFilter (h : isValidFilter filter false = true) : HashLast filter := by
  intro d hnext hkey
  have hend : hash ∉ filter.dropLast := (isValidFilter_iff.mp h).2.1
  rw [isolateParticle_eq, decide_eq_true_eq] at hnext
  have hl : (levels filter)[d]? = some [hash] := by
    rw [isolateParticle_eq] at hkey
    dsimp only at hkey
    rw [List.getElem?_eq_getElem (by omega), Option.getD_some] at hkey
    rw [List.getElem?_eq_getElem (by omega), hkey]
  exact hend (subset_dropLast_of_level hl hnext (List.mem_singleton_self hash))

end TopicsIndex
end Mqtt
