import Tdi.Foundation.Dict
import Tdi.Foundation.KeyedMap
import Tdi.Foundation.LastEntry

/-!
# Dictionaries that are filled in a loop

A dictionary that is made of a list leads from each key to what the list has under it
last, and so does the index of a keyed map over its values. A loop that assigns under the
keys it goes through changes the values in their places.
-/
namespace Tdi.Foundation

namespace Dict

variable {α β : Type*}

def mapVals (f : String → α → β) (d : Dict α) : Dict β where
  entries := d.entries.map fun p => (p.1, f p.1 p.2)
  nodup := by
    have hkeys : (d.entries.map fun p => (p.1, f p.1 p.2)).map Prod.fst =
        d.entries.map Prod.fst := by
      rw [List.map_map]
      rfl
    rw [hkeys]
    exact d.nodup

theorem get?_mapVals (f : String → α → β) (d : Dict α) (k : String) :
    (d.mapVals f).get? k = (d.get? k).map (f k) := by
  ext w
  rw [get?_eq_some_iff, Option.map_eq_some_iff]
  constructor
  · intro h
    obtain ⟨p, hp, he⟩ := List.mem_map.mp h
    cases he
    exact ⟨p.2, get?_of_mem hp, rfl⟩
  · intro h
    obtain ⟨v, hv, he⟩ := h
    rw [← he]
    exact List.mem_map.mpr ⟨(k, v), get?_eq_some_iff.mp hv, rfl⟩

theorem get?_ofList (l : List (String × α)) (k : String) :
    (ofList l).get? k = lastValue l k := by
  induction l using List.reverseRecOn with
  | nil => rfl
  | append_singleton l e ih =>
    have hset : ofList (l ++ [e]) = (ofList l).set e.1 e.2 := by simp [ofList]
    rw [hset, get?_set, lastValue_concat, ih]
    simp only [eq_comm]

theorem entries_ofList_eq_nil_iff {l : List (String × α)} : (ofList l).entries = [] ↔ l = [] := by
  constructor
  · intro h
    by_contra hne
    obtain ⟨p, hp⟩ := List.exists_mem_of_ne_nil l hne
    have hsome := lastValue_isSome_iff.mpr (List.mem_map_of_mem (f := Prod.fst) hp)
    rw [← get?_ofList, get?, h] at hsome
    cases hsome
  · intro h
    rw [h]
    rfl

theorem entries_set_of_mem {d : Dict α} {k : String} (hk : k ∈ d.keys) (v : α) :
    (d.set k v).entries = d.entries.map fun p => if p.1 = k then (k, v) else p :=
  if_pos hk

theorem mapVals_set (f : String → α → β) (d : Dict α) (k : String) (v : α) :
    (d.set k v).mapVals f = (d.mapVals f).set k (f k v) := by
  have hkeys : (d.mapVals f).keys = d.keys := by simp [keys, mapVals]
  apply ext
  by_cases hk : k ∈ d.keys
  · rw [entries_set_of_mem (hkeys ▸ hk)]
    simp only [mapVals, entries_set_of_mem hk, List.map_map]
    apply List.map_congr_left
    intro p _
    by_cases hp : p.1 = k <;> simp [hp]
  · rw [entries_set_of_not_mem (hkeys ▸ hk)]
    simp [mapVals, entries_set_of_not_mem hk]

/-- Assign the entries in turn. -/
def setAll (d : Dict α) (l : List (String × α)) : Dict α := l.foldl (fun d p => d.set p.1 p.2) d

theorem setAll_append (d : Dict α) (l l' : List (String × α)) :
    d.setAll (l ++ l') = (d.setAll l).setAll l' :=
  List.foldl_append

theorem mapVals_setAll (f : String → α → β) (d : Dict α) (l : List (String × α)) :
    (d.setAll l).mapVals f = (d.mapVals f).setAll (l.map fun p => (p.1, f p.1 p.2)) := by
  induction l generalizing d with
  | nil => rfl
  | cons p l ih =>
    change ((d.set p.1 p.2).setAll l).mapVals f = _
    rw [ih, mapVals_set]
    rfl

theorem mapVals_ofList (f : String → α → β) (l : List (String × α)) :
    (ofList l).mapVals f = ofList (l.map fun p => (p.1, f p.1 p.2)) :=
  mapVals_setAll f .empty l

variable {γ : Type*}

/-- The loop has come to the entries after `done`. -/
theorem entries_foldl_set_own (g h : String → γ → α) {l : List (String × γ)}
    {done : List (String × α)} {d : Dict α}
    (hd : d.entries = done ++ l.map fun p => (p.1, g p.1 p.2)) :
    (l.foldl (fun d' p => d'.set p.1 (h p.1 p.2)) d).entries =
      done ++ l.map fun p => (p.1, h p.1 p.2) := by
  induction l generalizing done d with
  | nil => exact hd
  | cons p l ih =>
    have hset := entries_set_of_split hd (h p.1 p.2)
    have hnext : (d.set p.1 (h p.1 p.2)).entries =
        (done ++ [(p.1, h p.1 p.2)]) ++ l.map fun p => (p.1, g p.1 p.2) := by
      simp [hset]
    rw [List.foldl_cons, ih hnext]
    simp

/-- A loop over a dictionary changes the values in another one with its keys. -/
theorem foldl_set_mapVals (g h : String → γ → α) (d : Dict γ) :
    d.entries.foldl (fun d' p => d'.set p.1 (h p.1 p.2)) (d.mapVals g) = d.mapVals h := by
  have hstart : (d.mapVals g).entries = [] ++ d.entries.map fun p => (p.1, g p.1 p.2) := rfl
  apply ext
  exact entries_foldl_set_own g h hstart

end Dict

namespace KeyedMap

open Std

variable {K N α : Type*} [Ord K] [TransOrd K] {key : α → K}

theorem map_key_values [LawfulEqOrd K] (m : KeyedMap key) : m.values.map key = m.keys := by
  have hkeys : m.keys = m.toMap.toList.map Prod.fst := ExtTreeMap.map_fst_toList_eq_keys.symm
  rw [hkeys, values, List.map_map]
  apply List.map_congr_left
  intro p hp
  exact m.keyed p.1 p.2 (ExtTreeMap.mem_toList_iff_getElem?_eq_some.mp hp)

theorem get?_eq_lastValue [LawfulEqOrd K] [DecidableEq K] (m : KeyedMap key) (k : K) :
    m.get? k = lastValue (m.values.map fun a => (key a, a)) k := by
  have hnodup : ((m.values.map fun a => (key a, a)).map Prod.fst).Nodup := by
    rw [List.map_map]
    exact m.map_key_values ▸ m.keys_nodup
  ext a
  rw [lastValue_eq_some_iff hnodup, List.mem_map]
  constructor
  · intro h
    have hkey := key_of_get? h
    exact ⟨a, mem_values.mpr (hkey ▸ h), by rw [hkey]⟩
  · intro h
    obtain ⟨b, hb, he⟩ := h
    cases he
    exact mem_values.mp hb

variable [Ord N] [TransOrd N] [LawfulEqOrd N] [DecidableEq N] (name : α → N)

omit [Ord K] [TransOrd K] in
theorem getElem?_foldl_insert_empty {β : Type*} (value : α → β) (l : List α) (s : N) :
    (l.foldl (fun m a => m.insert (name a) (value a)) (∅ : ExtTreeMap N β))[s]? =
      lastValue (l.map fun a => (name a, value a)) s := by
  induction l using List.reverseRecOn with
  | nil => simp
  | append_singleton l a ih =>
    rw [List.foldl_append, List.foldl_cons, List.foldl_nil, ExtTreeMap.getElem?_insert, ih,
      List.map_append, List.map_singleton, lastValue_concat]
    simp only [LawfulEqCmp.compare_eq_iff_eq]

/-- Of values with one name the index has the last. -/
theorem getElem?_index_eq_lastValue (m : KeyedMap key) (s : N) :
    (m.index name)[s]? = lastValue (m.values.map fun a => (name a, a)) s :=
  getElem?_foldl_insert_empty name id m.values s

end KeyedMap

variable {K V : Type*} [DecidableEq K]

theorem lastValue_map {W : Type*} (f : V → W) (l : List (K × V)) (k : K) :
    lastValue (l.map fun p => (p.1, f p.2)) k = (lastValue l k).map f := by
  induction l using List.reverseRecOn with
  | nil => rfl
  | append_singleton l e ih =>
    rw [List.map_append, List.map_singleton, lastValue_concat, lastValue_concat, ih]
    split_ifs <;> rfl

/-- In an ascending list the last value with a name is the greatest. -/
theorem lastValue_eq_some_iff_of_pairwise {r : V → V → Prop} [Std.Asymm r] {name : V → K}
    {l : List V} (hl : l.Pairwise r) {k : K} {v : V} :
    lastValue (l.map fun v => (name v, v)) k = some v ↔
      v ∈ l ∧ name v = k ∧ ∀ w ∈ l, name w = k → w = v ∨ r w v := by
  induction l using List.reverseRecOn with
  | nil => simp
  | append_singleton l e ih =>
    obtain ⟨hl, -, hlast⟩ := List.pairwise_append.mp hl
    rw [List.map_append, List.map_singleton, lastValue_concat]
    split_ifs with hk
    · constructor
      · intro h
        cases h
        refine ⟨by simp, hk, fun w hw _ => ?_⟩
        rcases List.mem_append.mp hw with hw | hw
        · exact .inr (hlast w hw e (by simp))
        · exact .inl (List.mem_singleton.mp hw)
      · intro h
        obtain ⟨hv, -, hmax⟩ := h
        rcases List.mem_append.mp hv with hv | hv
        · have hve : r v e := hlast v hv e (by simp)
          rcases hmax e (by simp) hk with he | hev
          · rw [he]
          · exact absurd hve (Std.Asymm.asymm e v hev)
        · rw [List.mem_singleton.mp hv]
    · rw [ih hl]
      simp only [List.mem_append, List.mem_singleton]
      grind

end Tdi.Foundation
