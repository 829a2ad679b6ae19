import Mathlib

/-!
# Trees whose objects have names

An object has a name, a label and children in a list. A path is the list of the
names on the way down. It may lead to several objects as long as siblings share a
name. Where no two siblings do, a path leads to one object at most.
-/
namespace Tdi.Foundation

variable {ν α ε : Type*}

inductive NamedTree (ν α : Type*) where
  | mk (name : ν) (label : α) (children : List (NamedTree ν α))

namespace NamedTree

def name : NamedTree ν α → ν
  | mk name _ _ => name

def label : NamedTree ν α → α
  | mk _ label _ => label

def children : NamedTree ν α → List (NamedTree ν α)
  | mk _ _ children => children

def withChildren (x : NamedTree ν α) (children : List (NamedTree ν α)) : NamedTree ν α :=
  mk x.name x.label children

@[simp] theorem name_mk (k : ν) (a : α) (l : List (NamedTree ν α)) : (mk k a l).name = k := rfl

@[simp] theorem label_mk (k : ν) (a : α) (l : List (NamedTree ν α)) : (mk k a l).label = a := rfl

@[simp] theorem children_mk (k : ν) (a : α) (l : List (NamedTree ν α)) :
    (mk k a l).children = l := rfl

@[simp] theorem children_withChildren (x : NamedTree ν α) (l : List (NamedTree ν α)) :
    (x.withChildren l).children = l := rfl

/-- The path leads from the first object down to the second. -/
inductive Leads : NamedTree ν α → List ν → NamedTree ν α → Prop
  | here (x) : Leads x [] x
  | down {x c q y} : c ∈ x.children → Leads c q y → Leads x (c.name :: q) y

/-- The children of every object have different names. -/
def Distinct (x : NamedTree ν α) : Prop :=
  ∀ p y, Leads x p y → (y.children.map name).Nodup

theorem leads_nil_iff {x y : NamedTree ν α} : Leads x [] y ↔ y = x := by
  constructor
  · intro h
    cases h
    rfl
  · rintro rfl
    exact .here y

theorem leads_cons_iff {x y : NamedTree ν α} {k : ν} {q : List ν} :
    Leads x (k :: q) y ↔ ∃ c ∈ x.children, c.name = k ∧ Leads c q y := by
  constructor
  · intro h
    cases h with
    | down hc hy => exact ⟨_, hc, rfl, hy⟩
  · rintro ⟨c, hc, rfl, hy⟩
    exact .down hc hy

theorem leads_append_iff {x z : NamedTree ν α} {q r : List ν} :
    Leads x (q ++ r) z ↔ ∃ y, Leads x q y ∧ Leads y r z := by
  induction q generalizing x with
  | nil => simp [leads_nil_iff]
  | cons k q ih =>
    simp only [List.cons_append, leads_cons_iff, ih]
    constructor
    · rintro ⟨c, hc, hk, y, hy, hz⟩
      exact ⟨y, ⟨c, hc, hk, hy⟩, hz⟩
    · rintro ⟨y, ⟨c, hc, hk, hy⟩, hz⟩
      exact ⟨c, hc, hk, y, hy, hz⟩

/-- The last name on a path is the name of the object. -/
theorem Leads.name_mem {x y : NamedTree ν α} {p : List ν} (h : Leads x p y) (hp : p ≠ []) :
    y.name ∈ p := by
  induction h with
  | here => exact absurd rfl hp
  | @down x c q y hc hy ih =>
    cases q with
    | nil =>
      rw [leads_nil_iff.mp hy]
      simp
    | cons k q => exact List.mem_cons_of_mem _ (ih (List.cons_ne_nil k q))

theorem distinct_iff {x : NamedTree ν α} :
    x.Distinct ↔ (x.children.map name).Nodup ∧ ∀ c ∈ x.children, c.Distinct := by
  constructor
  · intro h
    exact ⟨h [] x (.here x), fun c hc p y hy => h _ y (.down hc hy)⟩
  · rintro ⟨hnodup, hchildren⟩ p y hy
    cases hy with
    | here => exact hnodup
    | down hc hy => exact hchildren _ hc _ y hy

theorem distinct_of_children_eq_nil {x : NamedTree ν α} (h : x.children = []) : x.Distinct :=
  distinct_iff.mpr (by simp [h])

theorem eq_of_name_eq {l : List (NamedTree ν α)} (hl : (l.map name).Nodup) {c d : NamedTree ν α}
    (hc : c ∈ l) (hd : d ∈ l) (h : c.name = d.name) : c = d :=
  List.inj_on_of_nodup_map hl hc hd h

theorem Distinct.unique {x y z : NamedTree ν α} {p : List ν} (hx : x.Distinct)
    (hy : Leads x p y) (hz : Leads x p z) : y = z := by
  induction hy with
  | here => exact (leads_nil_iff.mp hz).symm
  | @down x c q y hc _ ih =>
    obtain ⟨d, hd, hname, hz⟩ := leads_cons_iff.mp hz
    obtain ⟨hnodup, hchildren⟩ := distinct_iff.mp hx
    rw [eq_of_name_eq hnodup hd hc hname] at hz
    exact ih (hchildren c hc) hz

section Update

/-- The first child that satisfies `p` is replaced by what `f` makes of it. If there is none
a new child comes last. -/
def updateFirst (p : NamedTree ν α → Bool)
    (f : NamedTree ν α → Except ε (NamedTree ν α)) (new : Except ε (NamedTree ν α)) :
    List (NamedTree ν α) → Except ε (List (NamedTree ν α))
  | [] => new.map fun y => [y]
  | c :: l =>
    if p c then (f c).map fun y => y :: l
    else (updateFirst p f new l).map fun l' => c :: l'

variable {p : NamedTree ν α → Bool} {f : NamedTree ν α → Except ε (NamedTree ν α)}
  {new : Except ε (NamedTree ν α)} {l l' : List (NamedTree ν α)}

theorem updateFirst_of_forall_not (h : ∀ c ∈ l, p c = false) :
    updateFirst p f new l = new.map fun y => l ++ [y] := by
  induction l with
  | nil => rfl
  | cons c l ih =>
    rw [List.forall_mem_cons] at h
    rw [updateFirst, h.1, ih h.2]
    cases new <;> rfl

theorem updateFirst_append {before after : List (NamedTree ν α)} {c : NamedTree ν α}
    (h : ∀ x ∈ before, p x = false) (hc : p c = true) :
    updateFirst p f new (before ++ c :: after) =
      (f c).map fun y => before ++ y :: after := by
  induction before with
  | nil =>
    rw [List.nil_append, updateFirst, hc]
    rfl
  | cons x before ih =>
    rw [List.forall_mem_cons] at h
    rw [List.cons_append, updateFirst, h.1, ih h.2]
    cases f c <;> rfl

/-- Either no child satisfies `p`, or the list splits at the first that does. -/
theorem forall_not_or_split (p : NamedTree ν α → Bool) (l : List (NamedTree ν α)) :
    (∀ c ∈ l, p c = false) ∨
      ∃ before c after, l = before ++ c :: after ∧ (∀ x ∈ before, p x = false) ∧ p c = true := by
  induction l with
  | nil => exact .inl (by simp)
  | cons x l ih =>
    cases hx : p x with
    | true => exact .inr ⟨[], x, l, rfl, by simp, hx⟩
    | false =>
      rcases ih with h | ⟨before, c, after, rfl, h, hc⟩
      · exact .inl (by simpa [hx] using h)
      · exact .inr ⟨x :: before, c, after, rfl, by simpa [hx] using h, hc⟩

end Update

section Assign

variable [DecidableEq ν]

/-- Assignment to a dictionary that files each object under its name. -/
def assign (l : List (NamedTree ν α)) (x : NamedTree ν α) : List (NamedTree ν α) :=
  if x.name ∈ l.map name then l.map fun c => if c.name = x.name then x else c else l ++ [x]

theorem find?_name_eq_some {l : List (NamedTree ν α)} (hl : (l.map name).Nodup)
    {c : NamedTree ν α} (hc : c ∈ l) : (l.find? fun d => d.name = c.name) = some c := by
  cases hfind : l.find? fun d => d.name = c.name with
  | none => simpa using List.find?_eq_none.mp hfind c hc
  | some d =>
    have hd := List.mem_of_find?_eq_some hfind
    rw [eq_of_name_eq hl hd hc (by simpa using List.find?_some hfind)]

theorem mem_of_mem_assign {l : List (NamedTree ν α)} {x c : NamedTree ν α}
    (h : c ∈ assign l x) : c ∈ l ∨ c = x := by
  unfold assign at h
  split_ifs at h with hx
  · obtain ⟨d, hd, rfl⟩ := List.mem_map.mp h
    split_ifs
    · exact .inr rfl
    · exact .inl hd
  · simpa using h

theorem mem_of_mem_foldl_assign {l adopted : List (NamedTree ν α)} {c : NamedTree ν α}
    (h : c ∈ adopted.foldl assign l) : c ∈ l ∨ c ∈ adopted := by
  induction adopted generalizing l with
  | nil => exact .inl h
  | cons x adopted ih =>
    rcases ih h with h | h
    · rcases mem_of_mem_assign h with h | rfl
      · exact .inl h
      · exact .inr (by simp)
    · exact .inr (List.mem_cons_of_mem x h)

/-- Objects with different names are all kept. -/
theorem foldl_assign_of_nodup {l adopted : List (NamedTree ν α)}
    (h : ((l ++ adopted).map name).Nodup) : adopted.foldl assign l = l ++ adopted := by
  induction adopted generalizing l with
  | nil => simp
  | cons x adopted ih =>
    have hx : x.name ∉ l.map name := by
      rw [List.map_append, List.map_cons, List.nodup_middle, List.nodup_cons,
        List.mem_append, not_or] at h
      exact h.1.1
    have hassign : assign l x = l ++ [x] := if_neg hx
    rw [List.foldl_cons, hassign, ih (by simpa using h)]
    simp

end Assign

end NamedTree

end Tdi.Foundation
