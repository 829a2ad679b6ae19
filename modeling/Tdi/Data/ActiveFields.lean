import Tdi.Data.TableData
import Tdi.Foundation.Runs

/-!
# What the active-field state stands for

Abstractly a data object was allocated for everything or for a finite set of
fields, and some fields have been removed since. `TableData` keeps the difference
of the two sets and a flag, and `isActive` reads the abstract state off them over
any run. The set that `activeFieldsGet` shows says less: removing the last field
leaves it empty, which is documented to mean every field.
-/
namespace Tdi.Data

open Foundation

/-- `allowed = none` stands for every field. -/
structure ActiveFields where
  allowed : Option (Finset TdiId)
  removed : Finset TdiId

namespace ActiveFields

/-- The state after a field list is given: an empty list allows every field. -/
def ofList (fields : List TdiId) : ActiveFields :=
  ⟨if fields = [] then none else some fields.toFinset, ∅⟩

def remove (spec : ActiveFields) (fieldId : TdiId) : ActiveFields :=
  { spec with removed := insert fieldId spec.removed }

def Active (spec : ActiveFields) (fieldId : TdiId) : Prop :=
  (∀ ids, spec.allowed = some ids → fieldId ∈ ids) ∧ fieldId ∉ spec.removed

def step (spec : ActiveFields) : Op → ActiveFields
  | .reset => ofList []
  | .resetAction _ => ofList []
  | .resetFields _ fields => ofList fields
  | .resetContainer _ _ fields => ofList fields
  | .activeFieldsSet fields => ofList fields
  | .removeActiveField fieldId => spec.remove fieldId

@[simp] theorem active_ofList_iff {fields : List TdiId} {fieldId : TdiId} :
    (ofList fields).Active fieldId ↔ fields = [] ∨ fieldId ∈ fields := by
  unfold ofList Active
  split_ifs with h <;> simp [h]

@[simp] theorem active_remove_iff {spec : ActiveFields} {f g : TdiId} :
    (spec.remove g).Active f ↔ spec.Active f ∧ f ≠ g := by
  simp only [remove, Active, Finset.mem_insert, not_or]
  tauto

end ActiveFields

/-- The field list a call gives, if it gives one. -/
def Op.fields? : Op → Option (List TdiId)
  | .reset => some []
  | .resetAction _ => some []
  | .resetFields _ fields => some fields
  | .resetContainer _ _ fields => some fields
  | .activeFieldsSet fields => some fields
  | .removeActiveField _ => none

namespace Constructor

variable {Table : Type}

def table : Constructor Table → Option Table
  | ofTable table => table
  | ofFields table _ => table
  | ofAction table _ => table
  | ofActionFields table _ _ => table
  | ofContainer table _ _ _ => table

def fields : Constructor Table → List TdiId
  | ofTable _ => []
  | ofFields _ fields => fields
  | ofAction _ _ => []
  | ofActionFields _ _ fields => fields
  | ofContainer _ _ _ fields => fields

/-- The field list given last: by a call of the run, or else by the constructor. -/
def lastFields (c : Constructor Table) (ops : List Op) : List TdiId :=
  (ops.reverse.findSome? Op.fields?).getD c.fields

end Constructor

/-- The calls after the last one that gave a field list. -/
def sinceLastFields (ops : List Op) : List Op :=
  ops.reverse.takeWhile fun op => op.fields?.isNone

namespace TableData

variable {Table : Type} {data : TableData Table} {spec : ActiveFields}

/-- The two sets and the flag of a data object, in terms of the abstract state. -/
structure Refines (data : TableData Table) (spec : ActiveFields) : Prop where
  allFieldsSet : data.allFieldsSet = spec.allowed.isNone
  activeFields : data.activeFields = spec.allowed.getD ∅ \ spec.removed
  removedOneOfs : data.removedOneOfs = spec.removed

theorem refines_new (table : Option Table) (actionId containerId : TdiId) (fields : List TdiId) :
    (new table actionId containerId fields).Refines (.ofList fields) := by
  unfold new ActiveFields.ofList
  cases fields with
  | nil => constructor <;> simp
  | cons f fs => constructor <;> simp

theorem refines_construct (c : Constructor Table) : (construct c).Refines (.ofList c.fields) := by
  cases c <;> exact refines_new _ _ _ _

theorem refines_activeFieldsSet (data : TableData Table) (fields : List TdiId) :
    (data.activeFieldsSet fields).Refines (.ofList fields) := by
  unfold activeFieldsSet ActiveFields.ofList
  cases fields with
  | nil => constructor <;> simp
  | cons f fs => constructor <;> simp

theorem Refines.removeActiveField (h : data.Refines spec) (fieldId : TdiId) :
    (data.removeActiveField fieldId).Refines (spec.remove fieldId) := by
  have hsdiff : spec.allowed.getD ∅ \ insert fieldId spec.removed =
      data.activeFields.erase fieldId := by
    rw [h.activeFields, Finset.sdiff_insert]
  simp only [TableData.removeActiveField, ActiveFields.remove]
  split_ifs with hne
  · -- some fields are listed, so not everything was allowed
    have hsome : spec.allowed.isNone = false := by
      cases ha : spec.allowed with
      | none => simp [h.activeFields, ha] at hne
      | some ids => rfl
    exact ⟨hsome.symm, hsdiff.symm, by simp [h.removedOneOfs]⟩
  · -- nothing is listed: every field is allowed, or all listed fields are gone
    have hempty : data.activeFields = ∅ := Finset.not_nonempty_iff_eq_empty.mp hne
    refine ⟨h.allFieldsSet, ?_, by simp [h.removedOneOfs]⟩
    simpa [hempty] using hsdiff.symm

theorem Refines.step (h : data.Refines spec) (op : Op) :
    (data.step op).Refines (spec.step op) := by
  cases op with
  | reset => exact refines_activeFieldsSet _ []
  | resetAction _ => exact refines_activeFieldsSet _ []
  | resetFields _ fields => exact refines_activeFieldsSet _ fields
  | resetContainer _ _ fields => exact refines_activeFieldsSet _ fields
  | activeFieldsSet fields => exact refines_activeFieldsSet _ fields
  | removeActiveField fieldId => exact h.removeActiveField fieldId

/-- Over any run the object refines the abstract state. -/
theorem refines_run (c : Constructor Table) (ops : List Op) :
    (run step (construct c) ops).Refines (run ActiveFields.step (.ofList c.fields) ops) :=
  run_simulates (R := Refines) (fun _ _ op h => h.step op) (refines_construct c) ops

theorem Refines.isActive (h : data.Refines spec) (fieldId : TdiId) :
    data.isActive fieldId = (.success, true) ↔ spec.Active fieldId := by
  unfold TableData.isActive ActiveFields.Active
  rw [h.removedOneOfs, h.allFieldsSet, h.activeFields]
  cases spec.allowed with
  | none => by_cases hr : fieldId ∈ spec.removed <;> simp [hr]
  | some ids => by_cases hr : fieldId ∈ spec.removed <;> simp [hr]

theorem table_step (data : TableData Table) (op : Op) : (data.step op).table = data.table := by
  cases op with
  | removeActiveField fieldId =>
    simp only [step, removeActiveField]
    split_ifs <;> rfl
  | _ =>
    simp only [step, reset, resetAction, resetFields, resetContainer, actionIdSet,
      activeFieldsSet]
    split_ifs <;> rfl

theorem table_run (c : Constructor Table) (ops : List Op) :
    (run step (construct c) ops).table = c.table := by
  refine run_invariant (I := fun data : TableData Table => data.table = c.table) ?_ ?_ ops
  · intro data op h
    rw [table_step, h]
  · cases c <;> (simp only [construct, new]; split_ifs <;> rfl)

theorem resetContainer_eq_new (data : TableData Table) (actionId containerId : TdiId)
    (fields : List TdiId) :
    data.resetContainer actionId containerId fields =
      (new data.table actionId containerId fields, .success) := by
  cases fields <;> simp [resetContainer, actionIdSet, activeFieldsSet, resetDerived, new]

/-- The abstract state of a run, read off its calls. -/
theorem active_run_iff (c : Constructor Table) (ops : List Op) (fieldId : TdiId) :
    (run ActiveFields.step (.ofList c.fields) ops).Active fieldId ↔
      (c.lastFields ops = [] ∨ fieldId ∈ c.lastFields ops) ∧
      Op.removeActiveField fieldId ∉ sinceLastFields ops := by
  unfold Constructor.lastFields sinceLastFields
  induction ops using List.reverseRecOn with
  | nil => simp
  | append_singleton ops op ih =>
    rw [run_concat, List.reverse_concat, List.findSome?_cons, List.takeWhile_cons]
    cases op with
    | removeActiveField g =>
      simp only [Op.fields?, ActiveFields.step, ActiveFields.active_remove_iff, ih,
        Option.isNone_none, if_true, List.mem_cons, Op.removeActiveField.injEq]
      tauto
    | _ => simp [Op.fields?, ActiveFields.step]

/-- The bookkeeping refines the abstract state over any run, `isActive` reads it off,
and a reset forgets the run. -/
theorem refines_run_isActive_reset (c : Constructor Table) (ops : List Op) :
    (run step (construct c) ops).Refines (run ActiveFields.step (.ofList c.fields) ops) ∧
    (∀ fieldId, (run step (construct c) ops).isActive fieldId = (.success, true) ↔
      (c.lastFields ops = [] ∨ fieldId ∈ c.lastFields ops) ∧
      Op.removeActiveField fieldId ∉ sinceLastFields ops) ∧
    (∀ actionId containerId fields,
      (run step (construct c) ops).resetContainer actionId containerId fields =
        (construct (.ofContainer c.table actionId containerId fields), .success)) := by
  refine ⟨refines_run c ops, fun fieldId => ?_, fun actionId containerId fields => ?_⟩
  · rw [(refines_run c ops).isActive fieldId, active_run_iff]
  · rw [resetContainer_eq_new, table_run]
    rfl

/-- The documented reading of `activeFieldsGet`. -/
structure ViewsAgree (data : TableData Table) : Prop where
  empty_iff : data.activeFieldsGet = ∅ ↔ data.allFieldsSetGet = true
  isActive_iff : data.activeFieldsGet ≠ ∅ →
    ∀ fieldId, data.isActive fieldId = (.success, true) ↔ fieldId ∈ data.activeFieldsGet

/-- The call removes the only field that is listed. -/
def RemovesLast (data : TableData Table) (op : Op) : Prop :=
  ∃ fieldId, op = .removeActiveField fieldId ∧ data.activeFieldsGet = {fieldId}

/-- Every state reached refines some abstract state. -/
def Abstracted (data : TableData Table) : Prop := ∃ spec, data.Refines spec

theorem Abstracted.step (h : data.Abstracted) (op : Op) : (data.step op).Abstracted := by
  obtain ⟨spec, hs⟩ := h
  exact ⟨_, hs.step op⟩

/-- A listed field is active, and only listed fields are. -/
theorem Abstracted.isActive_iff (h : data.Abstracted) (hne : data.activeFieldsGet ≠ ∅)
    (fieldId : TdiId) :
    data.isActive fieldId = (.success, true) ↔ fieldId ∈ data.activeFieldsGet := by
  obtain ⟨spec, hs⟩ := h
  have hactive : data.activeFieldsGet = spec.allowed.getD ∅ \ spec.removed := hs.activeFields
  rw [hs.isActive, hactive]
  rw [hactive] at hne
  unfold ActiveFields.Active
  cases ha : spec.allowed with
  | none => simp [ha] at hne
  | some ids => simp

theorem Abstracted.viewsAgree_iff (h : data.Abstracted) :
    data.ViewsAgree ↔ (data.activeFieldsGet = ∅ ↔ data.allFieldsSetGet = true) :=
  ⟨fun hv => hv.empty_iff, fun he => ⟨he, h.isActive_iff⟩⟩

theorem viewsAgree_activeFieldsSet (data : TableData Table) (fields : List TdiId) :
    (data.activeFieldsSet fields).ViewsAgree := by
  rw [Abstracted.viewsAgree_iff ⟨_, refines_activeFieldsSet data fields⟩]
  unfold activeFieldsSet activeFieldsGet allFieldsSetGet
  cases fields <;> simp

theorem viewsAgree_new (table : Option Table) (actionId containerId : TdiId)
    (fields : List TdiId) : (new table actionId containerId fields).ViewsAgree := by
  rw [Abstracted.viewsAgree_iff ⟨_, refines_new table actionId containerId fields⟩]
  unfold new activeFieldsGet allFieldsSetGet
  cases fields <;> simp

theorem viewsAgree_construct (c : Constructor Table) : (construct c).ViewsAgree := by
  cases c <;> exact viewsAgree_new _ _ _ _

/-- A removal keeps the two views in agreement unless it empties the set. -/
theorem viewsAgree_removeActiveField_iff (h : data.Abstracted) (hv : data.ViewsAgree)
    (g : TdiId) :
    (data.removeActiveField g).ViewsAgree ↔ data.activeFieldsGet ≠ {g} := by
  have hnext : (data.removeActiveField g).Abstracted := h.step (.removeActiveField g)
  rw [hnext.viewsAgree_iff]
  have hempty := hv.empty_iff
  unfold activeFieldsGet allFieldsSetGet at hempty ⊢
  simp only [removeActiveField]
  split_ifs with hne
  · have herase : data.activeFields.erase g = ∅ ↔ data.activeFields = {g} := by
      rw [Finset.erase_eq_empty_iff, or_iff_right hne.ne_empty]
    simp [herase]
  · have hnone : data.activeFields = ∅ := Finset.not_nonempty_iff_eq_empty.mp hne
    simp only [hnone, true_iff] at hempty
    simp [hnone, hempty, (Finset.singleton_ne_empty g).symm]

theorem viewsAgree_step_of_fields? {op : Op} {fields : List TdiId}
    (h : op.fields? = some fields) : (data.step op).ViewsAgree := by
  obtain ⟨data', hstep⟩ :
      ∃ data' : TableData Table, data.step op = data'.activeFieldsSet fields := by
    cases op with
    | removeActiveField g => cases h
    | _ => cases h; exact ⟨_, rfl⟩
  rw [hstep]
  exact viewsAgree_activeFieldsSet data' fields

theorem viewsAgree_step_iff (h : data.Abstracted) (hv : data.ViewsAgree) (op : Op) :
    (data.step op).ViewsAgree ↔ ¬ data.RemovesLast op := by
  cases hop : op.fields? with
  | some fields =>
    refine iff_of_true (viewsAgree_step_of_fields? hop) ?_
    rintro ⟨g, rfl, -⟩
    cases hop
  | none =>
    obtain ⟨g, rfl⟩ : ∃ g, op = .removeActiveField g := by
      cases op with
      | removeActiveField g => exact ⟨g, rfl⟩
      | _ => cases hop
    refine (viewsAgree_removeActiveField_iff h hv g).trans (not_congr ?_)
    simp [RemovesLast]

/-- The views agree in every state of a run exactly when no call of the run removes
the only field that is listed. -/
theorem viewsAgree_run_iff (c : Constructor Table) (ops : List Op) :
    (∀ pre, pre <+: ops → (run step (construct c) pre).ViewsAgree) ↔
      ∀ pre op, pre ++ [op] <+: ops → ¬ (run step (construct c) pre).RemovesLast op :=
  forall_prefix_iff (I := Abstracted) (fun _ op h => h.step op)
    (fun _ op h hv => viewsAgree_step_iff h hv op) ⟨_, refines_construct c⟩
    (viewsAgree_construct c) ops

/-- One field listed and removed: nothing is active, and the empty set says all are. -/
theorem views_disagree_after_last_removal :
    ¬ (run step (construct (.ofFields (none : Option Unit) [1]))
      [.removeActiveField 1]).ViewsAgree := by
  intro h
  have hempty := h.empty_iff
  revert hempty
  decide

end TableData
end Tdi.Data
