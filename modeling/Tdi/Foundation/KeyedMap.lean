import Mathlib

/-!
# Ordered maps whose values carry their own key

A registry stores each value under the key the value itself reports. Two loops
fill such a registry from a list: one skips a value whose key is taken, the
other aborts on it. Both are folds of a single insertion, so a lookup after
either loop is a search of the list for the first value with that key.
-/
namespace Tdi.Foundation

open Std

variable {K N α : Type*} [Ord K] [TransOrd K]

/-- A finite ordered map in which every value sits under its own key. -/
structure KeyedMap (key : α → K) where
  toMap : ExtTreeMap K α
  keyed : ∀ k a, toMap[k]? = some a → key a = k

namespace KeyedMap

variable {key : α → K}

def empty : KeyedMap key := ⟨∅, by simp⟩

def get? (m : KeyedMap key) (k : K) : Option α := m.toMap[k]?

def keys (m : KeyedMap key) : List K := m.toMap.keys

def values (m : KeyedMap key) : List α := m.toMap.toList.map Prod.snd

@[simp] theorem get?_empty (k : K) : (empty : KeyedMap key).get? k = none := by
  simp [empty, get?]

theorem key_of_get? {m : KeyedMap key} {k : K} {a : α} (h : m.get? k = some a) : key a = k :=
  m.keyed k a h

theorem keys_nodup (m : KeyedMap key) : m.keys.Nodup := by
  refine m.toMap.ordered_keys.imp fun {a b} hlt he => ?_
  subst he
  rw [compare_self] at hlt
  cases hlt

variable [LawfulEqOrd K]

/-- Store a value under its key unless the key is already taken. -/
def add (m : KeyedMap key) (a : α) : KeyedMap key where
  toMap := m.toMap.insertIfNew (key a) a
  keyed := by
    intro k b hb
    rw [ExtTreeMap.getElem?_insertIfNew] at hb
    split_ifs at hb with h
    · cases hb
      exact LawfulEqCmp.eq_of_compare h.1
    · exact m.keyed k b hb

/-- The loop that skips repeated keys. -/
def addAll (m : KeyedMap key) (l : List α) : KeyedMap key := l.foldl add m

/-- Store a value, or report that its key is taken. -/
def addUnique? (m : KeyedMap key) (a : α) : Option (KeyedMap key) :=
  match m.get? (key a) with
  | some _ => none
  | none => some (m.add a)

/-- The loop that aborts on a repeated key. -/
def addAllUnique? (m : KeyedMap key) (l : List α) : Option (KeyedMap key) :=
  l.foldlM addUnique? m

/-- An earlier value keeps its place; the new one only fills a free key. -/
theorem get?_add [DecidableEq K] (m : KeyedMap key) (a : α) (k : K) :
    (m.add a).get? k = (m.get? k).or (if key a = k then some a else none) := by
  simp only [get?, add, ExtTreeMap.getElem?_insertIfNew, LawfulEqCmp.compare_eq_iff_eq,
    ExtTreeMap.mem_iff_isSome_getElem?]
  by_cases hk : key a = k
  · subst hk
    cases m.toMap[key a]? <;> simp
  · simp [hk]

theorem mem_keys {m : KeyedMap key} {k : K} : k ∈ m.keys ↔ (m.get? k).isSome = true := by
  rw [keys, get?, ExtTreeMap.mem_keys, ExtTreeMap.mem_iff_isSome_getElem?]

theorem mem_values {m : KeyedMap key} {a : α} : a ∈ m.values ↔ m.get? (key a) = some a := by
  simp only [values, List.mem_map, Prod.exists, exists_eq_right, get?,
    ExtTreeMap.mem_toList_iff_getElem?_eq_some]
  constructor
  · rintro ⟨k, hk⟩
    rwa [m.keyed k a hk]
  · exact fun h => ⟨_, h⟩

section Loops

variable [DecidableEq K]

/-- After the skipping loop, a free key holds the first listed value with that key. -/
theorem get?_addAll (m : KeyedMap key) (l : List α) (k : K) :
    (m.addAll l).get? k = (m.get? k).or (l.find? fun a => key a = k) := by
  induction l generalizing m with
  | nil => simp [addAll]
  | cons a l ih =>
    have hstep : m.addAll (a :: l) = (m.add a).addAll l := rfl
    rw [hstep, ih, get?_add, List.find?_cons]
    by_cases hk : key a = k <;> cases m.get? k <;> simp [hk]

@[simp] theorem get?_addAll_empty (l : List α) (k : K) :
    ((empty : KeyedMap key).addAll l).get? k = l.find? fun a => key a = k := by
  simp [get?_addAll]

theorem mem_keys_addAll_empty {l : List α} {k : K} :
    k ∈ ((empty : KeyedMap key).addAll l).keys ↔ k ∈ l.map key := by
  simp [mem_keys, List.find?_isSome]

theorem mem_of_get?_addAll_empty {l : List α} {k : K} {a : α}
    (h : ((empty : KeyedMap key).addAll l).get? k = some a) : a ∈ l := by
  rw [get?_addAll_empty] at h
  exact List.mem_of_find?_eq_some h

/-- With distinct keys every listed value is stored. -/
theorem get?_addAll_empty_of_nodup {l : List α} (h : (l.map key).Nodup) {a : α} (ha : a ∈ l) :
    ((empty : KeyedMap key).addAll l).get? (key a) = some a := by
  rw [get?_addAll_empty]
  induction l with
  | nil => cases ha
  | cons b l ih =>
    obtain ⟨hb, hl⟩ := List.nodup_cons.mp h
    rcases List.mem_cons.mp ha with rfl | ha
    · simp
    · have hne : key b ≠ key a := fun he => hb (he ▸ List.mem_map_of_mem ha)
      rw [List.find?_cons_of_neg (by simpa using hne)]
      exact ih hl ha

theorem mem_of_mem_values_addAll_empty {l : List α} {a : α}
    (h : a ∈ ((empty : KeyedMap key).addAll l).values) : a ∈ l :=
  mem_of_get?_addAll_empty (mem_values.mp h)

/-- What is stored is what is listed exactly when no two listed values share a key. -/
theorem mem_values_addAll_empty_iff {l : List α} :
    (∀ a, a ∈ ((empty : KeyedMap key).addAll l).values ↔ a ∈ l) ↔
      ∀ a ∈ l, ∀ b ∈ l, key a = key b → a = b := by
  constructor
  · intro h a ha b hb hkey
    have hstored := mem_values.mp ((h a).mpr ha)
    have hstored' := mem_values.mp ((h b).mpr hb)
    rw [hkey, hstored'] at hstored
    exact (Option.some_inj.mp hstored).symm
  · intro h a
    refine ⟨mem_of_mem_values_addAll_empty, fun ha => ?_⟩
    have hkey : key a ∈ ((empty : KeyedMap key).addAll l).keys :=
      mem_keys_addAll_empty.mpr (List.mem_map_of_mem ha)
    obtain ⟨b, hb⟩ := Option.isSome_iff_exists.mp (mem_keys.mp hkey)
    have hab : b = a := h b (mem_of_get?_addAll_empty hb) a ha (key_of_get? hb)
    rw [mem_values, hb, hab]

/-- The aborting loop fails exactly when a key is taken already or listed twice. -/
theorem addAllUnique?_eq_none_iff (m : KeyedMap key) (l : List α) :
    m.addAllUnique? l = none ↔
      ¬ ((l.map key).Nodup ∧ ∀ a ∈ l, m.get? (key a) = none) := by
  induction l generalizing m with
  | nil => simp [addAllUnique?]
  | cons a l ih =>
    cases ha : m.get? (key a) with
    | some b => simp [addAllUnique?, addUnique?, ha]
    | none =>
      have hstep : m.addAllUnique? (a :: l) = (m.add a).addAllUnique? l := by
        simp [addAllUnique?, addUnique?, ha]
      have hfree : ∀ b, (m.add a).get? (key b) = none ↔ key a ≠ key b ∧ m.get? (key b) = none := by
        intro b
        rw [get?_add]
        by_cases hk : key a = key b <;> cases m.get? (key b) <;> simp [hk]
      rw [hstep, ih]
      simp only [hfree, List.map_cons, List.nodup_cons, List.mem_map, List.mem_cons,
        forall_eq_or_imp, ha, true_and, not_exists, not_and, forall_and]
      grind

variable (key) in
theorem addAllUnique?_empty_eq_none_iff (l : List α) :
    (empty : KeyedMap key).addAllUnique? l = none ↔ ¬ (l.map key).Nodup := by
  simp [addAllUnique?_eq_none_iff]

omit [DecidableEq K] in
/-- When the aborting loop succeeds it has done what the skipping loop does. -/
theorem eq_addAll_of_addAllUnique? {m m' : KeyedMap key} {l : List α}
    (h : m.addAllUnique? l = some m') : m' = m.addAll l := by
  induction l generalizing m with
  | nil => simpa [addAllUnique?, addAll] using h.symm
  | cons a l ih =>
    cases ha : m.get? (key a) with
    | some b => simp [addAllUnique?, addUnique?, ha] at h
    | none =>
      refine ih (m := m.add a) ?_
      simpa [addAllUnique?, addUnique?, ha] using h

end Loops

section Index

variable [Ord N] [TransOrd N] [LawfulEqOrd N] (name : α → N)

/-- A second map over the same values, filled in key order; a later value with
the same name replaces the earlier one. -/
def index (m : KeyedMap key) : ExtTreeMap N α :=
  m.values.foldl (fun acc a => acc.insert (name a) a) ∅

private theorem getElem?_foldl_insert {l : List α} {acc : ExtTreeMap N α} {s : N} {a : α}
    (h : (l.foldl (fun acc a => acc.insert (name a) a) acc)[s]? = some a) :
    (a ∈ l ∧ name a = s) ∨ acc[s]? = some a := by
  induction l generalizing acc with
  | nil => exact Or.inr h
  | cons b l ih =>
    rcases ih h with ⟨hm, hn⟩ | hb
    · exact Or.inl ⟨List.mem_cons_of_mem _ hm, hn⟩
    · rw [ExtTreeMap.getElem?_insert] at hb
      split_ifs at hb with hs
      · cases hb
        exact Or.inl ⟨List.mem_cons_self, LawfulEqCmp.eq_of_compare hs⟩
      · exact Or.inr hb

/-- Every entry of the index is an element of the map with that name. -/
theorem of_getElem?_index {m : KeyedMap key} {s : N} {a : α} (h : (m.index name)[s]? = some a) :
    name a = s ∧ m.get? (key a) = some a := by
  rcases getElem?_foldl_insert name h with ⟨hm, hn⟩ | hb
  · exact ⟨hn, mem_values.mp hm⟩
  · simp at hb

end Index

end KeyedMap
end Tdi.Foundation
