import Tdi.Foundation.Dict

/-!
# A namespace with a scope on top

The names of a scope are assigned in a namespace and deleted when another scope takes
its place. What stood under such a name before is lost, so below the scope there is
nothing under its names. A deletion that does not find its name ends the loop, and the
names before it are gone.
-/
namespace Tdi.Foundation

variable {V : Type*}

theorem Dict.get?_of_not_mem {d : Dict V} {k : String} (hk : k ∉ d.keys) : d.get? k = none := by
  rw [Option.eq_none_iff_forall_not_mem]
  intro v hv
  exact hk (mem_keys_iff.mpr ⟨v, hv⟩)

structure Layers (V : Type*) where
  below : String → Option V
  scope : Dict V
  separate : ∀ k ∈ scope.keys, below k = none

namespace Layers

theorem separate_empty (f : String → Option V) : ∀ k ∈ (Dict.empty : Dict V).keys, f k = none := by
  intro k hk
  cases hk

/-- No scope has been entered. -/
def ground (f : String → Option V) : Layers V := ⟨f, .empty, separate_empty f⟩

def visible (l : Layers V) (k : String) : Option V := (l.scope.get? k).or (l.below k)

theorem separate_enter (f : String → Option V) (scope : Dict V) :
    ∀ k ∈ scope.keys, (if k ∈ scope.keys then none else f k) = none := by
  intro k hk
  exact if_pos hk

/-- The scope is replaced by another, which takes its names away from what is below. -/
def enter (l : Layers V) (scope : Dict V) : Layers V :=
  ⟨fun k => if k ∈ scope.keys then none else l.below k, scope, separate_enter l.below scope⟩

@[simp] theorem scope_enter (l : Layers V) (scope : Dict V) : (l.enter scope).scope = scope := rfl

theorem below_enter (l : Layers V) (scope : Dict V) (k : String) :
    (l.enter scope).below k = if k ∈ scope.keys then none else l.below k := rfl

theorem visible_of_not_mem {l : Layers V} {k : String} (hk : k ∉ l.scope.keys) :
    l.visible k = l.below k := by
  rw [visible, Dict.get?_of_not_mem hk, Option.none_or]

theorem visible_of_mem {l : Layers V} {k : String} (hk : k ∈ l.scope.keys) :
    l.visible k = l.scope.get? k := by
  obtain ⟨v, hv⟩ := Dict.mem_keys_iff.mp hk
  rw [visible, hv, Option.some_or]

end Layers

namespace Dict

/-- Assign the entries of a scope in turn. -/
def assignAll (d scope : Dict V) : Dict V := scope.entries.foldl (fun d p => d.set p.1 p.2) d

theorem get?_foldl_set {l : List (String × V)} (hl : (l.map Prod.fst).Nodup) (d : Dict V)
    (k : String) :
    (l.foldl (fun d p => d.set p.1 p.2) d).get? k = (l.lookup k).or (d.get? k) := by
  induction l generalizing d with
  | nil => rfl
  | cons p l ih =>
    obtain ⟨k', v⟩ := p
    rw [List.map_cons, List.nodup_cons] at hl
    rw [List.foldl_cons, ih hl.2, get?_set, List.lookup_cons]
    by_cases hk : k = k'
    · have hlookup : l.lookup k = none := by
        rw [List.lookup_eq_none_iff]
        rintro ⟨k'', w⟩ hw
        rw [bne_iff_ne]
        intro heq
        rw [← hk, heq] at hl
        exact hl.1 (List.mem_map.mpr ⟨(k'', w), hw, rfl⟩)
      simp [hk, hk ▸ hlookup]
    · simp [hk, beq_eq_false_iff_ne.mpr hk]

theorem get?_assignAll (d scope : Dict V) (k : String) :
    (d.assignAll scope).get? k = (scope.get? k).or (d.get? k) :=
  get?_foldl_set scope.nodup d k

/-- Delete the names in turn, up to the first that is not there. -/
def delAll (d : Dict V) : List String → Dict V × Option String
  | [] => (d, none)
  | k :: ks => if k ∈ d.keys then delAll (d.erase k) ks else (d, some k)

theorem delAll_snd_eq_none_iff {ks : List String} (hks : ks.Nodup) (d : Dict V) :
    (d.delAll ks).2 = none ↔ ∀ k ∈ ks, k ∈ d.keys := by
  induction ks generalizing d with
  | nil => simp [delAll]
  | cons k ks ih =>
    rw [List.nodup_cons] at hks
    rw [delAll, List.forall_mem_cons]
    split_ifs with hk
    · rw [ih hks.2]
      constructor
      · intro h
        exact ⟨hk, fun k' hk' => (mem_keys_erase.mp (h k' hk')).1⟩
      · rintro ⟨-, h⟩ k' hk'
        exact mem_keys_erase.mpr ⟨h k' hk', ne_of_mem_of_not_mem hk' hks.1⟩
    · simp [hk]

/-- A name is gone, if it was one of those to delete, or it is as it was. -/
theorem get?_delAll (d : Dict V) (ks : List String) (k : String) :
    (d.delAll ks).1.get? k = d.get? k ∨ k ∈ ks ∧ (d.delAll ks).1.get? k = none := by
  induction ks generalizing d with
  | nil => exact .inl rfl
  | cons k' ks ih =>
    rw [delAll]
    split_ifs with hk'
    · rcases ih (d.erase k') with h | ⟨hk, h⟩
      · rw [h, get?_erase]
        split_ifs with heq
        · exact .inr ⟨by simp [heq], rfl⟩
        · exact .inl rfl
      · exact .inr ⟨by simp [hk], h⟩
    · exact .inl rfl

theorem get?_delAll_of_not_mem (d : Dict V) {ks : List String} {k : String} (hk : k ∉ ks) :
    (d.delAll ks).1.get? k = d.get? k :=
  (get?_delAll d ks k).resolve_right fun h => hk h.1

/-- Names that are all there are all deleted. -/
theorem get?_delAll_of_mem {d : Dict V} {ks : List String} (h : (d.delAll ks).2 = none)
    {k : String} (hk : k ∈ ks) : (d.delAll ks).1.get? k = none := by
  induction ks generalizing d with
  | nil => cases hk
  | cons k' ks ih =>
    rw [delAll] at h ⊢
    split_ifs at h ⊢ with hk'
    rcases List.mem_cons.mp hk with rfl | hk
    · rcases get?_delAll (d.erase k) ks k with hsame | ⟨-, hnone⟩
      · rw [hsame, get?_erase, if_pos rfl]
      · exact hnone
    · exact ih h hk

/-- What is missing stays missing. -/
theorem not_mem_keys_delAll {d : Dict V} (ks : List String) {k : String} (hk : k ∉ d.keys) :
    k ∉ (d.delAll ks).1.keys := by
  rw [mem_keys_iff] at hk ⊢
  rcases get?_delAll d ks k with h | ⟨-, h⟩
  · rwa [h]
  · simp [h]

end Dict

/-- The namespace is what is visible of the layers. -/
def Shows (d : Dict V) (l : Layers V) : Prop := ∀ k, d.get? k = l.visible k

namespace Shows

variable {d : Dict V} {l : Layers V}

theorem ground (d : Dict V) : Shows d (.ground d.get?) := fun _ => rfl

theorem mem_keys (h : Shows d l) {k : String} (hk : k ∈ l.scope.keys) : k ∈ d.keys := by
  obtain ⟨v, hv⟩ := Dict.mem_keys_iff.mp hk
  rw [Dict.mem_keys_iff, h k, Layers.visible_of_mem hk]
  exact ⟨v, hv⟩

theorem delAll_ok (h : Shows d l) : (d.delAll l.scope.keys).2 = none :=
  (Dict.delAll_snd_eq_none_iff l.scope.nodup d).mpr fun _ hk => h.mem_keys hk

/-- Deleting the names of the scope uncovers what is below. -/
theorem get?_delAll (h : Shows d l) (k : String) :
    (d.delAll l.scope.keys).1.get? k = l.below k := by
  by_cases hk : k ∈ l.scope.keys
  · rw [Dict.get?_delAll_of_mem h.delAll_ok hk, l.separate k hk]
  · rw [Dict.get?_delAll_of_not_mem d hk, h k, Layers.visible_of_not_mem hk]

/-- The names of the old scope are deleted, and those of the new one are assigned. -/
theorem enter (h : Shows d l) (scope : Dict V) :
    Shows ((d.delAll l.scope.keys).1.assignAll scope) (l.enter scope) := by
  intro k
  rw [Dict.get?_assignAll, h.get?_delAll]
  by_cases hk : k ∈ scope.keys
  · rw [Layers.visible_of_mem hk]
    obtain ⟨v, hv⟩ := Dict.mem_keys_iff.mp hk
    simp [hv]
  · rw [Dict.get?_of_not_mem hk, Layers.visible_of_not_mem hk, Option.none_or,
      Layers.below_enter, if_neg hk]

theorem leave (h : Shows d l) : Shows (d.delAll l.scope.keys).1 (l.enter .empty) := by
  have hnone := h.enter .empty
  rwa [Dict.assignAll, Dict.empty, List.foldl_nil] at hnone

end Shows

end Tdi.Foundation
