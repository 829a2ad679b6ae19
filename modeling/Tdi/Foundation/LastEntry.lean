import Mathlib

/-!
# Maps filled by assignments

A list of assignments `m[k] = v` that are made one after the other leaves each
key with the value assigned to it last. Where every key is assigned once, the
order of the assignments does not show in the map.
-/
namespace Tdi.Foundation

open Std

variable {K V : Type*} [DecidableEq K]

/-- The value that is assigned to a key last. -/
def lastValue (entries : List (K × V)) (k : K) : Option V :=
  entries.findSomeRev? fun e => if e.1 = k then some e.2 else none

@[simp] theorem lastValue_nil (k : K) : lastValue ([] : List (K × V)) k = none := rfl

theorem lastValue_append (l l' : List (K × V)) (k : K) :
    lastValue (l ++ l') k = (lastValue l' k).or (lastValue l k) := by
  simp [lastValue]

theorem lastValue_concat (l : List (K × V)) (e : K × V) (k : K) :
    lastValue (l ++ [e]) k = if e.1 = k then some e.2 else lastValue l k := by
  rw [lastValue_append, lastValue]
  split_ifs with h <;> simp [h]

theorem mem_of_lastValue {l : List (K × V)} {k : K} {v : V} (h : lastValue l k = some v) :
    (k, v) ∈ l := by
  induction l using List.reverseRecOn with
  | nil => simp at h
  | append_singleton l e ih =>
    rw [lastValue_concat] at h
    split_ifs at h with he
    · cases h
      simp [← he]
    · exact List.mem_append_left _ (ih h)

theorem lastValue_isSome_iff {l : List (K × V)} {k : K} :
    (lastValue l k).isSome = true ↔ k ∈ l.map Prod.fst := by
  induction l using List.reverseRecOn with
  | nil => simp
  | append_singleton l e ih =>
    rw [lastValue_concat, List.map_append, List.mem_append, ← ih]
    split_ifs with he
    · simp [he]
    · simp [Ne.symm he]

/-- A key that is assigned once has the value of its only assignment. -/
theorem lastValue_eq_some_iff {l : List (K × V)} (hl : (l.map Prod.fst).Nodup) {k : K} {v : V} :
    lastValue l k = some v ↔ (k, v) ∈ l := by
  constructor
  · exact mem_of_lastValue
  · intro hmem
    have hkey : (lastValue l k).isSome = true :=
      lastValue_isSome_iff.mpr (List.mem_map_of_mem hmem)
    obtain ⟨v', hv'⟩ := Option.isSome_iff_exists.mp hkey
    have heq := List.inj_on_of_nodup_map hl (mem_of_lastValue hv') hmem rfl
    rw [hv', (Prod.mk.injEq ..).mp heq |>.2]

theorem lastValue_perm {l l' : List (K × V)} (hl : (l.map Prod.fst).Nodup) (h : l.Perm l')
    (k : K) : lastValue l k = lastValue l' k := by
  have hl' : (l'.map Prod.fst).Nodup := (h.map Prod.fst).nodup hl
  ext v
  rw [lastValue_eq_some_iff hl, lastValue_eq_some_iff hl', h.mem_iff]

section Maps

variable [Ord K] [TransOrd K] [LawfulEqOrd K] {m : ExtTreeMap K V}

theorem getElem?_insertMany (m : ExtTreeMap K V) (l : List (K × V)) (k : K) :
    (m.insertMany l)[k]? = (lastValue l k).or m[k]? := by
  induction l using List.reverseRecOn with
  | nil => simp
  | append_singleton l e ih =>
    rw [ExtTreeMap.insertMany_append, lastValue_concat, ExtTreeMap.insertMany_list_singleton,
      ExtTreeMap.getElem?_insert, ih]
    simp only [LawfulEqCmp.compare_eq_iff_eq]
    split_ifs <;> rfl

/-- Assignments to distinct keys can be made in any order. -/
theorem insertMany_perm {l l' : List (K × V)} (hl : (l.map Prod.fst).Nodup) (h : l.Perm l') :
    m.insertMany l = m.insertMany l' := by
  ext k v
  rw [getElem?_insertMany, getElem?_insertMany, lastValue_perm hl h]

/-- Assignments leave a map as it is exactly when each key keeps its value. -/
theorem insertMany_eq_self_iff {l : List (K × V)} :
    m.insertMany l = m ↔ ∀ k v, lastValue l k = some v → m[k]? = some v := by
  constructor
  · intro h k v hv
    rw [← h, getElem?_insertMany, hv]
    rfl
  · intro h
    ext k v
    rw [getElem?_insertMany]
    cases hk : lastValue l k with
    | none => rfl
    | some w => rw [h k w hk]; rfl

end Maps
end Tdi.Foundation
