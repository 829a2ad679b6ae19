import Tdi.Foundation.NamedTree

/-!
# Walks that end at the leaves

A walk over a tree does not go below an object that is a leaf, although there may be
objects below it. It meets each leaf that no other leaf is above. Where the names of
siblings differ and a leaf knows the path that leads to it, none is met twice.
-/
namespace Tdi.Foundation.NamedTree

variable {ν α β : Type*} (leafOf : α → Option β)

section Definitions

mutual

/-- The leaves in the order in which the walk meets them. -/
def outer : NamedTree ν α → List β
  | mk _ a children =>
    match leafOf a with
    | some b => [b]
    | none => outerAll children

def outerAll : List (NamedTree ν α) → List β
  | [] => []
  | c :: l => outer c ++ outerAll l

end

/-- The path leads to a leaf, and no other leaf is on it. -/
inductive OuterLeads : NamedTree ν α → List ν → β → Prop
  | here {x b} : leafOf x.label = some b → OuterLeads x [] b
  | down {x c q b} : leafOf x.label = none → c ∈ x.children → OuterLeads c q b →
      OuterLeads x (c.name :: q) b

end Definitions

variable {leafOf}

theorem outerAll_eq_flatMap (l : List (NamedTree ν α)) :
    outerAll leafOf l = l.flatMap (outer leafOf) := by
  induction l with
  | nil => rfl
  | cons c l ih => rw [outerAll, List.flatMap_cons, ih]

theorem outer_of_leaf {x : NamedTree ν α} {b : β} (h : leafOf x.label = some b) :
    outer leafOf x = [b] := by
  obtain ⟨k, a, children⟩ := x
  rw [label_mk] at h
  rw [outer, h]

theorem outer_of_node {x : NamedTree ν α} (h : leafOf x.label = none) :
    outer leafOf x = x.children.flatMap (outer leafOf) := by
  obtain ⟨k, a, children⟩ := x
  rw [label_mk] at h
  rw [outer, h, children_mk, outerAll_eq_flatMap]

/-- Below the leaves of a tree there may be more, so the induction is on the whole tree. -/
theorem induction_on {motive : NamedTree ν α → Prop}
    (step : ∀ x, (∀ c ∈ x.children, motive c) → motive x) (x : NamedTree ν α) : motive x :=
  NamedTree.rec (motive_1 := motive) (motive_2 := fun l => ∀ c ∈ l, motive c)
    (fun _ _ _ ih => step _ ih) (fun _ hc => nomatch hc)
    (fun _ _ hc ih d hd => (List.mem_cons.mp hd).elim (fun he => he ▸ hc) (ih d)) x

theorem OuterLeads.leads {x : NamedTree ν α} {q : List ν} {b : β} (h : OuterLeads leafOf x q b) :
    ∃ y, Leads x q y ∧ leafOf y.label = some b := by
  induction h with
  | here hb => exact ⟨_, .here _, hb⟩
  | down _ hc _ ih =>
    obtain ⟨y, hy, hb⟩ := ih
    exact ⟨y, .down hc hy, hb⟩

/-- Above the leaf that the walk meets there is no leaf. -/
theorem OuterLeads.above {x : NamedTree ν α} {q r : List ν} {b : β}
    (hx : x.Distinct) (h : OuterLeads leafOf x (q ++ r) b) (hr : r ≠ []) {y : NamedTree ν α}
    (hy : Leads x q y) : leafOf y.label = none := by
  induction hy with
  | here =>
    rw [List.nil_append] at h
    cases h with
    | here => exact absurd rfl hr
    | down hnode => exact hnode
  | @down x c q y hc _ ih =>
    rw [List.cons_append] at h
    obtain ⟨hnodup, hchildren⟩ := distinct_iff.mp hx
    generalize hk : c.name = k at h
    cases h with
    | @down _ d _ _ _ hd hrest =>
      rw [eq_of_name_eq hnodup hc hd hk] at ih hc
      exact ih (hchildren d hd) hrest

/-- A leaf is met if there is no leaf on the way to it. -/
theorem outerLeads_of_leads {x y : NamedTree ν α} {q : List ν} {b : β} (h : Leads x q y)
    (hb : leafOf y.label = some b)
    (habove : ∀ r s z, q = r ++ s → s ≠ [] → Leads x r z → leafOf z.label = none) :
    OuterLeads leafOf x q b := by
  induction h with
  | here => exact .here hb
  | @down x c q y hc _ ih =>
    refine .down (habove [] _ x rfl (List.cons_ne_nil _ _) (.here x)) hc (ih hb ?_)
    rintro r s z rfl hs hz
    exact habove (c.name :: r) s z rfl hs (.down hc hz)

theorem mem_outer_iff {x : NamedTree ν α} {b : β} :
    b ∈ outer leafOf x ↔ ∃ q, OuterLeads leafOf x q b := by
  induction x using induction_on with
  | step x ih =>
    cases hlabel : leafOf x.label with
    | some b' =>
      rw [outer_of_leaf hlabel, List.mem_singleton]
      constructor
      · rintro rfl
        exact ⟨[], .here hlabel⟩
      · rintro ⟨q, hq⟩
        cases hq with
        | here h => exact Option.some.inj (h.symm.trans hlabel)
        | down hnode =>
          rw [hlabel] at hnode
          cases hnode
    | none =>
      rw [outer_of_node hlabel, List.mem_flatMap]
      constructor
      · rintro ⟨c, hc, hb⟩
        obtain ⟨q, hq⟩ := (ih c hc).mp hb
        exact ⟨c.name :: q, .down hlabel hc hq⟩
      · rintro ⟨q, hq⟩
        cases hq with
        | here h =>
          rw [hlabel] at h
          cases h
        | down _ hc hq => exact ⟨_, hc, (ih _ hc).mpr ⟨_, hq⟩⟩

/-- Leaves that know the path on which they are met are met once. -/
theorem nodup_outer {x : NamedTree ν α} (hx : x.Distinct) (place : β → List ν) (p : List ν)
    (hplace : ∀ q b, OuterLeads leafOf x q b → place b = p ++ q) : (outer leafOf x).Nodup := by
  induction x using induction_on generalizing p with
  | step x ih =>
    cases hlabel : leafOf x.label with
    | some b =>
      rw [outer_of_leaf hlabel]
      exact List.nodup_singleton b
    | none =>
      obtain ⟨hnodup, hchildren⟩ := distinct_iff.mp hx
      have hchild : ∀ c ∈ x.children, ∀ q b, OuterLeads leafOf c q b →
          place b = (p ++ [c.name]) ++ q := by
        intro c hc q b hq
        rw [hplace _ b (.down hlabel hc hq), List.append_assoc]
        rfl
      rw [outer_of_node hlabel, List.nodup_flatMap]
      refine ⟨fun c hc => ih c hc (hchildren c hc) _ (hchild c hc), ?_⟩
      refine (List.pairwise_map.mp hnodup).imp_of_mem fun {c d} hc hd hne b hb hb' => ?_
      obtain ⟨q, hq⟩ := mem_outer_iff.mp hb
      obtain ⟨q', hq'⟩ := mem_outer_iff.mp hb'
      have hplaces := (hchild c hc q b hq).symm.trans (hchild d hd q' b hq')
      rw [List.append_assoc, List.append_assoc] at hplaces
      exact hne (List.cons.inj (List.append_cancel_left hplaces)).1

end Tdi.Foundation.NamedTree
