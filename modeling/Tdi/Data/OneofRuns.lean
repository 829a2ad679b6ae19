import Tdi.Data.ActiveFields

/-!
# Setting the members of a oneof group

A target turns the siblings of a `oneof` member off when it sets the member, by
`removeActiveField`. Removal is remembered and nothing turns a field on again, so
after several sets only a member that no set was against is active. The documented
rule, that the member set last is the active one, holds for the sequences that set
one member only.
-/
namespace Tdi.Data

open Foundation

/-- The object is as a constructor or a call leaves it that gives the field list. -/
inductive Given {Table : Type} (fields : List TdiId) : TableData Table → Prop
  | constructed (c : Constructor Table) (h : c.fields = fields) :
    Given fields (TableData.construct c)
  | called (data : TableData Table) (op : Op) (h : op.fields? = some fields) :
    Given fields (data.step op)

/-- A `oneof` group in the metadata: the siblings of a member are the other members, in
whatever order they are visited. -/
def OneofGroup (oneofSiblingsGet : TdiId → List TdiId) (group : Finset TdiId) : Prop :=
  ∀ f ∈ group, ∀ g, g ∈ oneofSiblingsGet f ↔ g ∈ group ∧ g ≠ f

namespace ActiveFields

variable {spec : ActiveFields} {f : TdiId}

def removeAll (spec : ActiveFields) (ids : List TdiId) : ActiveFields := ids.foldl remove spec

theorem active_removeAll_iff (ids : List TdiId) :
    (spec.removeAll ids).Active f ↔ spec.Active f ∧ f ∉ ids := by
  induction ids using List.reverseRecOn with
  | nil => simp [removeAll]
  | append_singleton ids g ih =>
    rw [removeAll, List.foldl_concat, active_remove_iff]
    unfold removeAll at ih
    rw [ih, List.mem_append, List.mem_singleton]
    tauto

end ActiveFields

namespace TableData

variable {Table : Type} {data : TableData Table} {spec : ActiveFields}
  {oneofSiblingsGet : TdiId → List TdiId} {group : Finset TdiId} {fields : List TdiId}

/-- What a successful `setValue` of a target does to the active fields, by the documentation
of `isActive`. -/
def setOneof (oneofSiblingsGet : TdiId → List TdiId) (data : TableData Table) (f : TdiId) :
    TableData Table :=
  (oneofSiblingsGet f).foldl removeActiveField data

/-- The member set last is active and no other member is. -/
structure OneofRule (data : TableData Table) (group : Finset TdiId) (last : TdiId) : Prop where
  last_active : data.isActive last = (.success, true)
  others_inactive : ∀ f ∈ group, f ≠ last → data.isActive f = (.success, false)

theorem refines_of_given (h : Given fields data) : data.Refines (.ofList fields) := by
  cases h with
  | constructed c h =>
    rw [← h]
    exact refines_construct c
  | called data op h =>
    cases op with
    | removeActiveField g => cases h
    | reset => cases h; exact refines_activeFieldsSet _ []
    | resetAction _ => cases h; exact refines_activeFieldsSet _ []
    | resetFields _ fields => cases h; exact refines_activeFieldsSet _ fields
    | resetContainer _ _ fields => cases h; exact refines_activeFieldsSet _ fields
    | activeFieldsSet fields => cases h; exact refines_activeFieldsSet _ fields

theorem Refines.isActive_false (h : data.Refines spec) (f : TdiId) :
    data.isActive f = (.success, false) ↔ ¬spec.Active f := by
  rw [← h.isActive f]
  unfold TableData.isActive
  split_ifs <;> simp

theorem Refines.isActive_eq {data' : TableData Table} {spec' : ActiveFields}
    (h : data.Refines spec) (h' : data'.Refines spec') {f : TdiId}
    (hf : spec.Active f ↔ spec'.Active f) : data.isActive f = data'.isActive f := by
  by_cases hactive : spec.Active f
  · rw [(h.isActive f).mpr hactive, (h'.isActive f).mpr (hf.mp hactive)]
  · rw [(h.isActive_false f).mpr hactive, (h'.isActive_false f).mpr (mt hf.mpr hactive)]

theorem Refines.removeAll (h : data.Refines spec) (ids : List TdiId) :
    (ids.foldl TableData.removeActiveField data).Refines (spec.removeAll ids) := by
  induction ids using List.reverseRecOn with
  | nil => exact h
  | append_singleton ids g ih =>
    rw [ActiveFields.removeAll, List.foldl_concat, List.foldl_concat]
    exact ih.removeActiveField g

/-- One set turns the siblings off and leaves the other fields as they are. -/
theorem Refines.setOneof (h : data.Refines spec) (f : TdiId) :
    (data.setOneof oneofSiblingsGet f).Refines
      (spec.removeAll (oneofSiblingsGet f)) :=
  h.removeAll _

/-- After any sets a field is active when it was and no set was of a sibling of it. -/
theorem exists_refines_sets (oneofSiblingsGet : TdiId → List TdiId) (h : data.Refines spec)
    (sets : List TdiId) :
    ∃ spec', (run (setOneof oneofSiblingsGet) data sets).Refines spec' ∧
      ∀ f, spec'.Active f ↔ spec.Active f ∧ ∀ g ∈ sets, f ∉ oneofSiblingsGet g := by
  induction sets using List.reverseRecOn with
  | nil => exact ⟨spec, h, by simp⟩
  | append_singleton sets g ih =>
    obtain ⟨spec', hrefines, hactive⟩ := ih
    rw [run_concat]
    refine ⟨_, hrefines.setOneof g, ?_⟩
    intro f
    rw [ActiveFields.active_removeAll_iff, hactive, and_assoc, List.forall_mem_append,
      List.forall_mem_singleton]

/-- A sequence of sets on a group leaves the documented state exactly when it sets no member
but the one it sets last. -/
theorem oneofRule_sets_iff (hgiven : Given fields data)
    (hgroup : OneofGroup oneofSiblingsGet group) (hall : fields = [] ∨ ∀ f ∈ group, f ∈ fields)
    (sets : List TdiId) (hsets : ∀ f ∈ sets, f ∈ group) (hne : sets ≠ []) :
    ((run (setOneof oneofSiblingsGet) data sets).OneofRule group (sets.getLast hne) ∧
      ∀ f, f ∉ group →
        (run (setOneof oneofSiblingsGet) data sets).isActive f = data.isActive f) ↔
      ∀ f ∈ sets, f = sets.getLast hne := by
  have hlast : sets.getLast hne ∈ sets := List.getLast_mem hne
  have hgivenRefines := refines_of_given hgiven
  obtain ⟨spec', hrefines, hactive⟩ :=
    exists_refines_sets oneofSiblingsGet hgivenRefines sets
  have hstart : ∀ f ∈ group, (ActiveFields.ofList fields).Active f := by
    intro f hf
    rw [ActiveFields.active_ofList_iff]
    exact hall.imp_right fun hmem => hmem f hf
  constructor
  · intro ⟨hrule, _⟩ f hf
    by_contra hnot
    have hspec := (hactive _).mp ((hrefines.isActive _).mp hrule.last_active)
    apply hspec.2 f hf
    rw [hgroup f (hsets f hf)]
    exact ⟨hsets _ hlast, fun he => hnot he.symm⟩
  · intro hsame
    refine ⟨⟨?_, ?_⟩, ?_⟩
    · rw [hrefines.isActive, hactive]
      refine ⟨hstart _ (hsets _ hlast), ?_⟩
      intro g hg
      rw [hsame g hg, hgroup _ (hsets _ hlast)]
      exact fun hand => hand.2 rfl
    · intro f hf hother
      rw [hrefines.isActive_false, hactive]
      intro hand
      apply hand.2 _ hlast
      rw [hgroup _ (hsets _ hlast)]
      exact ⟨hf, hother⟩
    · intro f hf
      apply hrefines.isActive_eq hgivenRefines
      rw [hactive]
      refine and_iff_left ?_
      intro g hg hmem
      rw [hgroup g (hsets g hg)] at hmem
      exact hf hmem.1

/-- The siblings in the group of the fields 1 and 2. -/
def pairSiblings (f : TdiId) : List TdiId := if f = 1 then [2] else [1]

theorem oneofGroup_pair : OneofGroup pairSiblings {1, 2} := by
  intro f hf g
  rcases Finset.mem_insert.mp hf with rfl | hf
  · by_cases hg : g = 1 <;> simp [pairSiblings, hg]
  · rw [Finset.mem_singleton.mp hf]
    by_cases hg : g = 2 <;> simp [pairSiblings, hg]

theorem oneofRule_sets_iff_twice :
    (run (setOneof pairSiblings) (construct (.ofTable (none : Option Unit))) [2, 2]).OneofRule
      {1, 2} 2 :=
  ((oneofRule_sets_iff (.constructed (.ofTable none) rfl) oneofGroup_pair (.inl rfl) [2, 2]
    (by simp) (List.cons_ne_nil _ _)).mpr (by simp)).1

/-- The member 1 is set, superseded and set again: it stays inactive. -/
theorem oneofRule_fails_after_set_again :
    ¬(run (setOneof pairSiblings) (construct (.ofTable (none : Option Unit)))
      [1, 2, 1]).OneofRule {1, 2} 1 := by
  intro hrule
  have hactive := hrule.last_active
  revert hactive
  decide

end TableData
end Tdi.Data
