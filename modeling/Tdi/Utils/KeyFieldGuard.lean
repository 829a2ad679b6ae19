import Tdi.CFrontend.KeyValues
import Tdi.CFrontend.TableInfoC

/-!
# The guard of the key setters

A setter of a key field first looks the field up and compares it with the value it was
given. The pointer to the field is handed back through a pointer to a pointer, and the
test of the result looks at the outer of the two.
-/
namespace Tdi.Utils

open Foundation Json CFrontend CFrontend.Outcome

/-- `TableFieldUtils::keyFieldSafeGet`. The outer pointer was written through before it is
tested, so that the test decides nothing. -/
def keyFieldSafeGet (fieldId : TdiId) (keyField : OutParam) (fieldValue : KeyFieldValue)
    (table : TableInfo) : Outcome (Option KeyFieldInfo) :=
  match keyField with
  | .null => .nullDeref
  | .memory =>
    let found := table.keyFieldGet fieldId
    if keyField = .null then .returned .objectNotFound (some found)
    else
      deref found fun info =>
        if info.matchType ≠ fieldValue.matchType then .returned .invalidArg (some found)
        else if info.isPtr = true ∧ fieldValue.size ≤ 8 then .returned .notSupported (some found)
        else .returned .success (some found)

section Classification

/-- The status that a field of the table and a value call for. -/
def fieldStatus (info : KeyFieldInfo) (fieldValue : KeyFieldValue) : TdiStatus :=
  if info.matchType ≠ fieldValue.matchType then .invalidArg
  else if info.isPtr = true ∧ fieldValue.size ≤ 8 then .notSupported
  else .success

/-- The statuses of a field are exclusive, and one of them always applies. -/
theorem fieldStatus_iff (info : KeyFieldInfo) (fieldValue : KeyFieldValue) :
    (fieldStatus info fieldValue = .invalidArg ↔ info.matchType ≠ fieldValue.matchType) ∧
    (fieldStatus info fieldValue = .notSupported ↔ info.matchType = fieldValue.matchType ∧
      info.isPtr = true ∧ fieldValue.size ≤ 8) ∧
    (fieldStatus info fieldValue = .success ↔ info.matchType = fieldValue.matchType ∧
      ¬(info.isPtr = true ∧ fieldValue.size ≤ 8)) := by
  unfold fieldStatus
  by_cases htype : info.matchType = fieldValue.matchType
  · by_cases hptr : info.isPtr = true ∧ fieldValue.size ≤ 8
    · simp [htype, hptr]
    · rw [if_neg (not_not.mpr htype), if_neg hptr]
      simp [htype, hptr]
  · simp [htype]

/-- Each request gets its answer, and no null pointer is used. -/
def Classifies (fieldId : TdiId) (fieldValue : KeyFieldValue) (table : TableInfo)
    (outcome : Outcome (Option KeyFieldInfo)) : Prop :=
  match table.keyFieldGet fieldId with
  | none => ∃ written, outcome = .returned .objectNotFound written
  | some info => ∃ status, outcome = .returned status (some (some info)) ∧
      (status = .invalidArg ↔ info.matchType ≠ fieldValue.matchType) ∧
      (status = .notSupported ↔ info.matchType = fieldValue.matchType ∧
        info.isPtr = true ∧ fieldValue.size ≤ 8) ∧
      (status = .success ↔ info.matchType = fieldValue.matchType ∧
        ¬(info.isPtr = true ∧ fieldValue.size ≤ 8))

theorem keyFieldSafeGet_of_found {fieldId : TdiId} {table : TableInfo} {info : KeyFieldInfo}
    (h : table.keyFieldGet fieldId = some info) (fieldValue : KeyFieldValue) :
    keyFieldSafeGet fieldId .memory fieldValue table =
      .returned (fieldStatus info fieldValue) (some (some info)) := by
  simp only [keyFieldSafeGet, h, deref, fieldStatus, reduceCtorEq, if_false]
  split_ifs <;> rfl

theorem keyFieldSafeGet_of_absent {fieldId : TdiId} {table : TableInfo}
    (h : table.keyFieldGet fieldId = none) (fieldValue : KeyFieldValue) :
    keyFieldSafeGet fieldId .memory fieldValue table = .nullDeref := by
  simp only [keyFieldSafeGet, h, deref, reduceCtorEq, if_false]

/-- The guard classifies exactly the requests for fields that the table has. -/
theorem keyFieldSafeGet_classifies_iff (table : TableInfo) (fieldId : TdiId)
    (fieldValue : KeyFieldValue) :
    Classifies fieldId fieldValue table (keyFieldSafeGet fieldId .memory fieldValue table) ↔
      fieldId ∈ table.tableKeyMap.keys := by
  rw [KeyedMap.mem_keys]
  change _ ↔ (table.keyFieldGet fieldId).isSome = true
  unfold Classifies
  cases hfound : table.keyFieldGet fieldId with
  | none =>
    rw [keyFieldSafeGet_of_absent hfound]
    simp
  | some info =>
    rw [keyFieldSafeGet_of_found hfound]
    refine iff_of_true ⟨_, rfl, fieldStatus_iff info fieldValue⟩ rfl

/-- The table without fields has no field 1: the guard reads through the null pointer. -/
theorem keyFieldSafeGet_nullDeref :
    bareTable.keyFieldGet 1 = none ∧
      keyFieldSafeGet 1 .memory (keyFieldValueExact .uint64 .uint64 0) bareTable = .nullDeref ∧
      ¬Classifies 1 (keyFieldValueExact .uint64 .uint64 0) bareTable
        (keyFieldSafeGet 1 .memory (keyFieldValueExact .uint64 .uint64 0) bareTable) := by
  refine ⟨rfl, rfl, ?_⟩
  rintro ⟨written, h⟩
  cases h

end Classification
end Tdi.Utils
