import Tdi.Json.TableInfo

/-!
# The metadata C API

The accessors of `tdi_table_info_c.cpp` that take the id or the name of a key
field, a data field or an action. Each turns the handle back into a pointer to a
`TableInfo`, looks the argument up and writes what it found to its out parameter.
-/
namespace Tdi.CFrontend

open Foundation Json

/-- A pointer to the caller's memory for a result. -/
inductive OutParam where
  | null
  | memory
  deriving DecidableEq

/-- What a call does: it returns a status, with what it wrote to the out parameter, or it
goes through a null pointer. -/
inductive Outcome (α : Type) where
  | returned (status : TdiStatus) (written : Option α)
  | nullDeref

namespace Outcome

variable {α β : Type}

/-- `p->…` for a pointer that may be null. -/
def deref (p : Option β) (use : β → Outcome α) : Outcome α :=
  match p with
  | none => nullDeref
  | some b => use b

/-- `*out = value; return TDI_SUCCESS;` -/
def write (out : OutParam) (value : α) : Outcome α :=
  match out with
  | .null => nullDeref
  | .memory => returned .success (some value)

/-- The loop that writes an array. It writes through `out` only for an element. -/
def writeAll (out : OutParam) (values : List α) : Outcome (List α) :=
  match out, values with
  | .null, _ :: _ => nullDeref
  | _, _ => returned .success (some values)

/-- The test of the out parameter that some accessors begin with. -/
def checkOut (out : OutParam) (body : Outcome α) : Outcome α :=
  match out with
  | .null => returned .invalidArg none
  | .memory => body

def checkHdl (hdl : Option TableInfo) (body : TableInfo → Outcome α) : Outcome α :=
  match hdl with
  | none => returned .invalidArg none
  | some info => body info

/-- The call returns a status other than success, and uses no null pointer. -/
def Rejects (outcome : Outcome α) : Prop :=
  ∃ status written, outcome = returned status written ∧ status ≠ .success

theorem not_rejects_nullDeref : ¬ (nullDeref : Outcome α).Rejects := nofun

theorem not_rejects_success (written : Option α) :
    ¬ (returned .success written : Outcome α).Rejects := by
  rintro ⟨status, written', heq, hne⟩
  cases heq
  exact hne rfl

/-- A lookup that is used without a test rejects only what the use rejects. -/
theorem not_rejects_deref {p : Option β} {use : β → Outcome α}
    (h : ∀ b, p = some b → ¬ (use b).Rejects) : ¬ (deref p use).Rejects := by
  cases p with
  | none => exact not_rejects_nullDeref
  | some b => exact h b rfl

/-- The two tests pass when neither pointer is null. -/
theorem not_rejects_checked {info : TableInfo} {body : TableInfo → Outcome α}
    (h : ¬ (body info).Rejects) : ¬ (checkOut .memory (checkHdl (some info) body)).Rejects := h

theorem not_rejects_write (out : OutParam) (value : α) : ¬ (write out value).Rejects := by
  cases out
  · exact not_rejects_nullDeref
  · exact not_rejects_success _

theorem not_rejects_writeAll (out : OutParam) (values : List α) :
    ¬ (writeAll out values).Rejects := by
  cases out with
  | null =>
    cases values
    · exact not_rejects_success _
    · exact not_rejects_nullDeref
  | memory => exact not_rejects_success _

end Outcome

open Outcome

section KeyFields

variable (hdl : Option TableInfo) (fieldId : TdiId) (out : OutParam)

/-- Neither the handle nor the result of the lookup is tested. -/
def keyFieldRead {α : Type} (use : KeyFieldInfo → Outcome α) : Outcome α :=
  deref hdl fun info => deref (info.keyFieldGet fieldId) use

/-- `key_field_allowed_choices_get_helper`, with what its caller does with the choices. -/
def keyFieldAllowedChoicesGetHelper {α : Type} (use : List String → Outcome α) : Outcome α :=
  checkOut out (keyFieldRead hdl fieldId fun info => use info.enumChoices)

def tdiKeyFieldNumAllowedChoicesGet : Outcome UInt32 :=
  keyFieldAllowedChoicesGetHelper hdl fieldId out fun cppChoices =>
    write out (UInt32.ofNat cppChoices.length)

def tdiKeyFieldAllowedChoicesGet : Outcome (List String) :=
  keyFieldAllowedChoicesGetHelper hdl fieldId out fun cppChoices => writeAll out cppChoices

def tdiKeyFieldMatchTypeGet : Outcome EnumCode :=
  keyFieldRead hdl fieldId fun keyFieldInfo => write out keyFieldInfo.matchType

def tdiKeyFieldDataTypeGet : Outcome FieldDataType :=
  keyFieldRead hdl fieldId fun keyFieldInfo => write out keyFieldInfo.dataType

def tdiKeyFieldSizeGet : Outcome ℕ :=
  keyFieldRead hdl fieldId fun keyFieldInfo => write out keyFieldInfo.sizeBits

def tdiKeyFieldIsPtrGet : Outcome Bool :=
  keyFieldRead hdl fieldId fun keyFieldInfo => write out keyFieldInfo.isPtr

def tdiKeyFieldNameGet : Outcome String :=
  checkOut out <| checkHdl hdl fun info =>
    deref (info.keyFieldGet fieldId) fun keyFieldInfo => write out keyFieldInfo.name

/-- Absence is looked for in the id that was written, after the result was used. -/
def tdiKeyFieldIdGet (keyFieldName : String) : Outcome TdiId :=
  deref hdl fun info => deref (info.keyFieldGetByName keyFieldName) fun keyFieldInfo =>
    match out with
    | .null => .nullDeref
    | .memory =>
      if keyFieldInfo.fieldId = 0 then .returned .invalidArg (some keyFieldInfo.fieldId)
      else .returned .success (some keyFieldInfo.fieldId)

end KeyFields

section DataFields

variable (hdl : Option TableInfo) (fieldId actionId : TdiId) (out : OutParam)

/-- Neither the handle nor the result of the lookup is tested. -/
def dataFieldRead {α : Type} (use : DataFieldInfo → Outcome α) : Outcome α :=
  deref hdl fun info => deref (info.dataFieldGet fieldId actionId) use

/-- `data_field_allowed_choices_get_helper`, with what its caller does with the choices. -/
def dataFieldAllowedChoicesGetHelper {α : Type} (use : List String → Outcome α) : Outcome α :=
  checkOut out (dataFieldRead hdl fieldId actionId fun info => use info.enumChoices)

def tdiDataFieldIdListSizeWithActionGet : Outcome UInt32 :=
  deref hdl fun info => write out (UInt32.ofNat (info.dataFieldIdListGet actionId).length)

def tdiDataFieldListWithActionGet : Outcome (List TdiId) :=
  checkOut out <| checkHdl hdl fun info => writeAll out (info.dataFieldIdListGet actionId)

def tdiDataFieldIdGet (dataFieldName : String) : Outcome TdiId :=
  deref hdl fun info => write out (info.dataFieldIdGet dataFieldName 0)

def tdiDataFieldIdWithActionGet (dataFieldName : String) : Outcome TdiId :=
  deref hdl fun info => write out (info.dataFieldIdGet dataFieldName actionId)

def tdiDataFieldSizeGet : Outcome ℕ :=
  dataFieldRead hdl fieldId 0 fun dataFieldInfo => write out dataFieldInfo.sizeBits

def tdiDataFieldSizeWithActionGet : Outcome ℕ :=
  dataFieldRead hdl fieldId actionId fun dataFieldInfo => write out dataFieldInfo.sizeBits

def tdiDataFieldIsPtrGet : Outcome Bool :=
  dataFieldRead hdl fieldId 0 fun dataFieldInfo => write out dataFieldInfo.isPtr

def tdiDataFieldIsPtrWithActionGet : Outcome Bool :=
  dataFieldRead hdl fieldId actionId fun dataFieldInfo => write out dataFieldInfo.isPtr

def tdiDataFieldIsMandatoryGet : Outcome Bool :=
  dataFieldRead hdl fieldId 0 fun dataFieldInfo => write out dataFieldInfo.mandatory

def tdiDataFieldIsMandatoryWithActionGet : Outcome Bool :=
  dataFieldRead hdl fieldId actionId fun dataFieldInfo => write out dataFieldInfo.mandatory

def tdiDataFieldIsReadOnlyGet : Outcome Bool :=
  dataFieldRead hdl fieldId 0 fun dataFieldInfo => write out dataFieldInfo.readOnly

def tdiDataFieldIsReadOnlyWithActionGet : Outcome Bool :=
  dataFieldRead hdl fieldId actionId fun dataFieldInfo => write out dataFieldInfo.readOnly

def tdiDataFieldNameGet : Outcome String :=
  checkOut out <| checkHdl hdl fun info =>
    deref (info.dataFieldGet fieldId 0) fun dataFieldInfo => write out dataFieldInfo.name

/-- `std::strncpy`: the bytes before the first zero, then zeros, in all `n` bytes. -/
def strncpy (s : String) (n : ℕ) : List UInt8 :=
  let bytes := (s.toUTF8.toList.takeWhile (· ≠ 0)).take n
  bytes ++ List.replicate (n - bytes.length) 0

def tdiDataFieldNameCopyGet (bufSz : UInt32) : Outcome (List UInt8) :=
  checkOut out <| checkHdl hdl fun info =>
    deref (info.dataFieldGet fieldId 0) fun dataFieldInfo =>
      if bufSz.toNat ≤ dataFieldInfo.name.utf8ByteSize then .returned .invalidArg none
      else write out (strncpy dataFieldInfo.name bufSz.toNat)

def tdiDataFieldNameWithActionGet : Outcome String :=
  checkOut out <| checkHdl hdl fun info =>
    deref (info.dataFieldGet fieldId actionId) fun dataFieldInfo => write out dataFieldInfo.name

def tdiDataFieldTypeGet : Outcome FieldDataType :=
  dataFieldRead hdl fieldId 0 fun dataFieldInfo => write out dataFieldInfo.dataType

def tdiDataFieldTypeWithActionGet : Outcome FieldDataType :=
  dataFieldRead hdl fieldId actionId fun dataFieldInfo => write out dataFieldInfo.dataType

def tdiDataFieldNumAnnotationsGet : Outcome UInt32 :=
  dataFieldRead hdl fieldId 0 fun dataFieldInfo =>
    write out (UInt32.ofNat dataFieldInfo.annotations.values.length)

def tdiDataFieldAnnotationsGet : Outcome (List Annotation) :=
  dataFieldRead hdl fieldId 0 fun dataFieldInfo => writeAll out dataFieldInfo.annotations.values

def tdiDataFieldNumAnnotationsWithActionGet : Outcome UInt32 :=
  dataFieldRead hdl fieldId actionId fun dataFieldInfo =>
    write out (UInt32.ofNat dataFieldInfo.annotations.values.length)

def tdiDataFieldAnnotationsWithActionGet : Outcome (List Annotation) :=
  dataFieldRead hdl fieldId actionId fun dataFieldInfo =>
    writeAll out dataFieldInfo.annotations.values

def tdiDataFieldNumOneofSiblingsGet : Outcome UInt32 :=
  dataFieldRead hdl fieldId 0 fun dataFieldInfo =>
    write out (UInt32.ofNat dataFieldInfo.oneofSiblings.card)

def tdiDataFieldOneofSiblingsGet : Outcome (List TdiId) :=
  dataFieldRead hdl fieldId 0 fun dataFieldInfo =>
    writeAll out (dataFieldInfo.oneofSiblings.sort (· ≤ ·))

def tdiDataFieldNumOneofSiblingsWithActionGet : Outcome UInt32 :=
  dataFieldRead hdl fieldId actionId fun dataFieldInfo =>
    write out (UInt32.ofNat dataFieldInfo.oneofSiblings.card)

def tdiDataFieldOneofSiblingsWithActionGet : Outcome (List TdiId) :=
  dataFieldRead hdl fieldId actionId fun dataFieldInfo =>
    writeAll out (dataFieldInfo.oneofSiblings.sort (· ≤ ·))

def tdiDataFieldNumAllowedChoicesGet : Outcome UInt32 :=
  dataFieldAllowedChoicesGetHelper hdl fieldId 0 out fun cppChoices =>
    write out (UInt32.ofNat cppChoices.length)

def tdiDataFieldAllowedChoicesGet : Outcome (List String) :=
  dataFieldAllowedChoicesGetHelper hdl fieldId 0 out fun cppChoices => writeAll out cppChoices

def tdiDataFieldNumAllowedChoicesWithActionGet : Outcome UInt32 :=
  dataFieldAllowedChoicesGetHelper hdl fieldId actionId out fun cppChoices =>
    write out (UInt32.ofNat cppChoices.length)

def tdiDataFieldAllowedChoicesWithActionGet : Outcome (List String) :=
  dataFieldAllowedChoicesGetHelper hdl fieldId actionId out fun cppChoices =>
    writeAll out cppChoices

end DataFields

section Actions

variable (hdl : Option TableInfo) (actionId : TdiId) (out : OutParam)

/-- Neither the handle nor the result of the lookup is tested. -/
def actionRead {α : Type} (use : ActionInfo → Outcome α) : Outcome α :=
  deref hdl fun info => deref (info.actionGet actionId) use

def tdiActionNameGet : Outcome String :=
  checkOut out <| checkHdl hdl fun info =>
    deref (info.actionGet actionId) fun actionInfo => write out actionInfo.name

def tdiActionNameToId (actionName : String) : Outcome TdiId :=
  deref hdl fun info => deref (info.actionGetByName actionName) fun actionInfo =>
    write out actionInfo.actionId

def tdiActionNumAnnotationsGet : Outcome UInt32 :=
  actionRead hdl actionId fun actionInfo =>
    write out (UInt32.ofNat actionInfo.annotations.values.length)

def tdiActionAnnotationsGet : Outcome (List Annotation) :=
  actionRead hdl actionId fun actionInfo => writeAll out actionInfo.annotations.values

end Actions

section Listings

variable (hdl : Option TableInfo) (out : OutParam)

def tdiKeyFieldIdListSizeGet : Outcome UInt32 :=
  deref hdl fun info => write out (UInt32.ofNat info.keyFieldIdListGet.length)

def tdiKeyFieldIdListGet : Outcome (List TdiId) :=
  checkOut out <| checkHdl hdl fun info => writeAll out info.keyFieldIdListGet

def tdiDataFieldIdListSizeGet : Outcome UInt32 :=
  checkOut out <| checkHdl hdl fun info =>
    write out (UInt32.ofNat (info.dataFieldIdListGet 0).length)

def tdiDataFieldListGet : Outcome (List TdiId) :=
  checkOut out <| checkHdl hdl fun info => writeAll out (info.dataFieldIdListGet 0)

def tdiActionIdListSizeGet : Outcome UInt32 :=
  checkOut out <| checkHdl hdl fun info => write out (UInt32.ofNat info.actionIdListGet.length)

def tdiActionIdListGet : Outcome (List TdiId) :=
  checkOut out <| checkHdl hdl fun info => writeAll out info.actionIdListGet

end Listings

/-- What an accessor is asked for. -/
inductive Argument where
  | keyField (fieldId : TdiId)
  | keyFieldName (name : String)
  | dataField (fieldId : TdiId)
  | dataFieldOf (fieldId actionId : TdiId)
  | dataFieldName (name : String)
  | dataFieldNameOf (name : String) (actionId : TdiId)
  | action (actionId : TdiId)
  | actionName (name : String)

/-- The table has no such field or action. A data field that is asked for with an action is
absent when the table has no such action, too. -/
def Argument.Absent (info : TableInfo) : Argument → Prop
  | keyField fieldId => info.keyFieldGet fieldId = none
  | keyFieldName name => info.keyFieldGetByName name = none
  | dataField fieldId => info.dataFieldGet fieldId 0 = none
  | dataFieldOf fieldId actionId =>
    info.dataFieldGet fieldId actionId = none ∨ info.actionGet actionId = none
  | dataFieldName name => info.dataFieldGetByName name 0 = none
  | dataFieldNameOf name actionId =>
    info.dataFieldGetByName name actionId = none ∨ info.actionGet actionId = none
  | action actionId => info.actionGet actionId = none
  | actionName name => info.actionGetByName name = none

/-- The accessors with their arguments. -/
inductive Accessor where
  | keyFieldNumAllowedChoicesGet (fieldId : TdiId)
  | keyFieldAllowedChoicesGet (fieldId : TdiId)
  | keyFieldMatchTypeGet (fieldId : TdiId)
  | keyFieldDataTypeGet (fieldId : TdiId)
  | keyFieldSizeGet (fieldId : TdiId)
  | keyFieldIsPtrGet (fieldId : TdiId)
  | keyFieldNameGet (fieldId : TdiId)
  | keyFieldIdGet (keyFieldName : String)
  | dataFieldIdListSizeWithActionGet (actionId : TdiId)
  | dataFieldListWithActionGet (actionId : TdiId)
  | dataFieldIdGet (dataFieldName : String)
  | dataFieldIdWithActionGet (dataFieldName : String) (actionId : TdiId)
  | dataFieldSizeGet (fieldId : TdiId)
  | dataFieldSizeWithActionGet (fieldId actionId : TdiId)
  | dataFieldIsPtrGet (fieldId : TdiId)
  | dataFieldIsPtrWithActionGet (fieldId actionId : TdiId)
  | dataFieldIsMandatoryGet (fieldId : TdiId)
  | dataFieldIsMandatoryWithActionGet (fieldId actionId : TdiId)
  | dataFieldIsReadOnlyGet (fieldId : TdiId)
  | dataFieldIsReadOnlyWithActionGet (fieldId actionId : TdiId)
  | dataFieldNameGet (fieldId : TdiId)
  | dataFieldNameCopyGet (fieldId : TdiId) (bufSz : UInt32)
  | dataFieldNameWithActionGet (fieldId actionId : TdiId)
  | dataFieldTypeGet (fieldId : TdiId)
  | dataFieldTypeWithActionGet (fieldId actionId : TdiId)
  | dataFieldNumAnnotationsGet (fieldId : TdiId)
  | dataFieldNumAnnotationsWithActionGet (fieldId actionId : TdiId)
  | dataFieldAnnotationsGet (fieldId : TdiId)
  | dataFieldAnnotationsWithActionGet (fieldId actionId : TdiId)
  | dataFieldNumOneofSiblingsGet (fieldId : TdiId)
  | dataFieldNumOneofSiblingsWithActionGet (fieldId actionId : TdiId)
  | dataFieldOneofSiblingsGet (fieldId : TdiId)
  | dataFieldOneofSiblingsWithActionGet (fieldId actionId : TdiId)
  | dataFieldNumAllowedChoicesGet (fieldId : TdiId)
  | dataFieldNumAllowedChoicesWithActionGet (fieldId actionId : TdiId)
  | dataFieldAllowedChoicesGet (fieldId : TdiId)
  | dataFieldAllowedChoicesWithActionGet (fieldId actionId : TdiId)
  | actionNameGet (actionId : TdiId)
  | actionNumAnnotationsGet (actionId : TdiId)
  | actionAnnotationsGet (actionId : TdiId)
  | actionNameToId (actionName : String)

namespace Accessor

def argument : Accessor → Argument
  | keyFieldNumAllowedChoicesGet fieldId => .keyField fieldId
  | keyFieldAllowedChoicesGet fieldId => .keyField fieldId
  | keyFieldMatchTypeGet fieldId => .keyField fieldId
  | keyFieldDataTypeGet fieldId => .keyField fieldId
  | keyFieldSizeGet fieldId => .keyField fieldId
  | keyFieldIsPtrGet fieldId => .keyField fieldId
  | keyFieldNameGet fieldId => .keyField fieldId
  | keyFieldIdGet keyFieldName => .keyFieldName keyFieldName
  | dataFieldIdListSizeWithActionGet actionId => .action actionId
  | dataFieldListWithActionGet actionId => .action actionId
  | dataFieldIdGet dataFieldName => .dataFieldName dataFieldName
  | dataFieldIdWithActionGet dataFieldName actionId => .dataFieldNameOf dataFieldName actionId
  | dataFieldSizeGet fieldId => .dataField fieldId
  | dataFieldSizeWithActionGet fieldId actionId => .dataFieldOf fieldId actionId
  | dataFieldIsPtrGet fieldId => .dataField fieldId
  | dataFieldIsPtrWithActionGet fieldId actionId => .dataFieldOf fieldId actionId
  | dataFieldIsMandatoryGet fieldId => .dataField fieldId
  | dataFieldIsMandatoryWithActionGet fieldId actionId => .dataFieldOf fieldId actionId
  | dataFieldIsReadOnlyGet fieldId => .dataField fieldId
  | dataFieldIsReadOnlyWithActionGet fieldId actionId => .dataFieldOf fieldId actionId
  | dataFieldNameGet fieldId => .dataField fieldId
  | dataFieldNameCopyGet fieldId _ => .dataField fieldId
  | dataFieldNameWithActionGet fieldId actionId => .dataFieldOf fieldId actionId
  | dataFieldTypeGet fieldId => .dataField fieldId
  | dataFieldTypeWithActionGet fieldId actionId => .dataFieldOf fieldId actionId
  | dataFieldNumAnnotationsGet fieldId => .dataField fieldId
  | dataFieldNumAnnotationsWithActionGet fieldId actionId => .dataFieldOf fieldId actionId
  | dataFieldAnnotationsGet fieldId => .dataField fieldId
  | dataFieldAnnotationsWithActionGet fieldId actionId => .dataFieldOf fieldId actionId
  | dataFieldNumOneofSiblingsGet fieldId => .dataField fieldId
  | dataFieldNumOneofSiblingsWithActionGet fieldId actionId => .dataFieldOf fieldId actionId
  | dataFieldOneofSiblingsGet fieldId => .dataField fieldId
  | dataFieldOneofSiblingsWithActionGet fieldId actionId => .dataFieldOf fieldId actionId
  | dataFieldNumAllowedChoicesGet fieldId => .dataField fieldId
  | dataFieldNumAllowedChoicesWithActionGet fieldId actionId => .dataFieldOf fieldId actionId
  | dataFieldAllowedChoicesGet fieldId => .dataField fieldId
  | dataFieldAllowedChoicesWithActionGet fieldId actionId => .dataFieldOf fieldId actionId
  | actionNameGet actionId => .action actionId
  | actionNumAnnotationsGet actionId => .action actionId
  | actionAnnotationsGet actionId => .action actionId
  | actionNameToId actionName => .actionName actionName

/-- A call of the accessor rejects its argument. -/
def Rejects (hdl : Option TableInfo) (out : OutParam) : Accessor → Prop
  | keyFieldNumAllowedChoicesGet fieldId =>
    (tdiKeyFieldNumAllowedChoicesGet hdl fieldId out).Rejects
  | keyFieldAllowedChoicesGet fieldId => (tdiKeyFieldAllowedChoicesGet hdl fieldId out).Rejects
  | keyFieldMatchTypeGet fieldId => (tdiKeyFieldMatchTypeGet hdl fieldId out).Rejects
  | keyFieldDataTypeGet fieldId => (tdiKeyFieldDataTypeGet hdl fieldId out).Rejects
  | keyFieldSizeGet fieldId => (tdiKeyFieldSizeGet hdl fieldId out).Rejects
  | keyFieldIsPtrGet fieldId => (tdiKeyFieldIsPtrGet hdl fieldId out).Rejects
  | keyFieldNameGet fieldId => (tdiKeyFieldNameGet hdl fieldId out).Rejects
  | keyFieldIdGet keyFieldName => (tdiKeyFieldIdGet hdl out keyFieldName).Rejects
  | dataFieldIdListSizeWithActionGet actionId =>
    (tdiDataFieldIdListSizeWithActionGet hdl actionId out).Rejects
  | dataFieldListWithActionGet actionId => (tdiDataFieldListWithActionGet hdl actionId out).Rejects
  | dataFieldIdGet dataFieldName => (tdiDataFieldIdGet hdl out dataFieldName).Rejects
  | dataFieldIdWithActionGet dataFieldName actionId =>
    (tdiDataFieldIdWithActionGet hdl actionId out dataFieldName).Rejects
  | dataFieldSizeGet fieldId => (tdiDataFieldSizeGet hdl fieldId out).Rejects
  | dataFieldSizeWithActionGet fieldId actionId =>
    (tdiDataFieldSizeWithActionGet hdl fieldId actionId out).Rejects
  | dataFieldIsPtrGet fieldId => (tdiDataFieldIsPtrGet hdl fieldId out).Rejects
  | dataFieldIsPtrWithActionGet fieldId actionId =>
    (tdiDataFieldIsPtrWithActionGet hdl fieldId actionId out).Rejects
  | dataFieldIsMandatoryGet fieldId => (tdiDataFieldIsMandatoryGet hdl fieldId out).Rejects
  | dataFieldIsMandatoryWithActionGet fieldId actionId =>
    (tdiDataFieldIsMandatoryWithActionGet hdl fieldId actionId out).Rejects
  | dataFieldIsReadOnlyGet fieldId => (tdiDataFieldIsReadOnlyGet hdl fieldId out).Rejects
  | dataFieldIsReadOnlyWithActionGet fieldId actionId =>
    (tdiDataFieldIsReadOnlyWithActionGet hdl fieldId actionId out).Rejects
  | dataFieldNameGet fieldId => (tdiDataFieldNameGet hdl fieldId out).Rejects
  | dataFieldNameCopyGet fieldId bufSz => (tdiDataFieldNameCopyGet hdl fieldId out bufSz).Rejects
  | dataFieldNameWithActionGet fieldId actionId =>
    (tdiDataFieldNameWithActionGet hdl fieldId actionId out).Rejects
  | dataFieldTypeGet fieldId => (tdiDataFieldTypeGet hdl fieldId out).Rejects
  | dataFieldTypeWithActionGet fieldId actionId =>
    (tdiDataFieldTypeWithActionGet hdl fieldId actionId out).Rejects
  | dataFieldNumAnnotationsGet fieldId => (tdiDataFieldNumAnnotationsGet hdl fieldId out).Rejects
  | dataFieldNumAnnotationsWithActionGet fieldId actionId =>
    (tdiDataFieldNumAnnotationsWithActionGet hdl fieldId actionId out).Rejects
  | dataFieldAnnotationsGet fieldId => (tdiDataFieldAnnotationsGet hdl fieldId out).Rejects
  | dataFieldAnnotationsWithActionGet fieldId actionId =>
    (tdiDataFieldAnnotationsWithActionGet hdl fieldId actionId out).Rejects
  | dataFieldNumOneofSiblingsGet fieldId =>
    (tdiDataFieldNumOneofSiblingsGet hdl fieldId out).Rejects
  | dataFieldNumOneofSiblingsWithActionGet fieldId actionId =>
    (tdiDataFieldNumOneofSiblingsWithActionGet hdl fieldId actionId out).Rejects
  | dataFieldOneofSiblingsGet fieldId => (tdiDataFieldOneofSiblingsGet hdl fieldId out).Rejects
  | dataFieldOneofSiblingsWithActionGet fieldId actionId =>
    (tdiDataFieldOneofSiblingsWithActionGet hdl fieldId actionId out).Rejects
  | dataFieldNumAllowedChoicesGet fieldId =>
    (tdiDataFieldNumAllowedChoicesGet hdl fieldId out).Rejects
  | dataFieldNumAllowedChoicesWithActionGet fieldId actionId =>
    (tdiDataFieldNumAllowedChoicesWithActionGet hdl fieldId actionId out).Rejects
  | dataFieldAllowedChoicesGet fieldId => (tdiDataFieldAllowedChoicesGet hdl fieldId out).Rejects
  | dataFieldAllowedChoicesWithActionGet fieldId actionId =>
    (tdiDataFieldAllowedChoicesWithActionGet hdl fieldId actionId out).Rejects
  | actionNameGet actionId => (tdiActionNameGet hdl actionId out).Rejects
  | actionNumAnnotationsGet actionId => (tdiActionNumAnnotationsGet hdl actionId out).Rejects
  | actionAnnotationsGet actionId => (tdiActionAnnotationsGet hdl actionId out).Rejects
  | actionNameToId actionName => (tdiActionNameToId hdl out actionName).Rejects

end Accessor

section Lookups

variable {α : Type} {hdl : Option TableInfo}

theorem not_rejects_keyFieldRead {fieldId : TdiId} {use : KeyFieldInfo → Outcome α}
    (h : ∀ info, ¬ (use info).Rejects) : ¬ (keyFieldRead hdl fieldId use).Rejects :=
  not_rejects_deref fun _ _ => not_rejects_deref fun info _ => h info

theorem not_rejects_keyFieldAllowedChoices {fieldId : TdiId} {use : List String → Outcome α}
    (h : ∀ choices, ¬ (use choices).Rejects) :
    ¬ (keyFieldAllowedChoicesGetHelper hdl fieldId .memory use).Rejects :=
  not_rejects_keyFieldRead fun info => h info.enumChoices

theorem not_rejects_dataFieldRead {fieldId actionId : TdiId} {use : DataFieldInfo → Outcome α}
    (h : ∀ info, ¬ (use info).Rejects) : ¬ (dataFieldRead hdl fieldId actionId use).Rejects :=
  not_rejects_deref fun _ _ => not_rejects_deref fun info _ => h info

theorem not_rejects_dataFieldAllowedChoices {fieldId actionId : TdiId}
    {use : List String → Outcome α} (h : ∀ choices, ¬ (use choices).Rejects) :
    ¬ (dataFieldAllowedChoicesGetHelper hdl fieldId actionId .memory use).Rejects :=
  not_rejects_dataFieldRead fun info => h info.enumChoices

theorem not_rejects_actionRead {actionId : TdiId} {use : ActionInfo → Outcome α}
    (h : ∀ info, ¬ (use info).Rejects) : ¬ (actionRead hdl actionId use).Rejects :=
  not_rejects_deref fun _ _ => not_rejects_deref fun info _ => h info

end Lookups

def bareTable : TableInfo := TableInfo.make
  { id := 1, name := "pipe.ports", tableType := tableTypeCore, size := 0,
    hasConstDefaultAction := false, isConst := false, tableKeyMap := KeyedMap.empty,
    tableDataMap := KeyedMap.empty, tableActionMap := KeyedMap.empty,
    tableNotificationMap := KeyedMap.empty, dependsOnSet := ∅, operationsTypeSet := ∅,
    attributesTypeSet := ∅, annotations := KeyedMap.empty }

/-- No accessor rejects a field or an action that the table does not have: it uses the null
pointer, or it succeeds. -/
theorem absent_not_rejected (info : TableInfo) (accessor : Accessor)
    (habsent : accessor.argument.Absent info) : ¬ accessor.Rejects (some info) .memory := by
  cases accessor with
  | keyFieldIdGet keyFieldName =>
    -- the test of the id is never reached
    have hnone : info.keyFieldGetByName keyFieldName = none := habsent
    exact not_rejects_deref fun _ hinfo => not_rejects_deref fun _ hfield => by
      cases hinfo
      rw [hnone] at hfield
      cases hfield
  | dataFieldNameCopyGet fieldId bufSz =>
    -- nor is the test of the size of the buffer
    have hnone : info.dataFieldGet fieldId 0 = none := habsent
    exact not_rejects_deref fun _ hfield => by
      rw [hnone] at hfield
      cases hfield
  | keyFieldMatchTypeGet | keyFieldDataTypeGet | keyFieldSizeGet | keyFieldIsPtrGet =>
    exact not_rejects_keyFieldRead fun _ => not_rejects_write _ _
  | keyFieldNumAllowedChoicesGet =>
    exact not_rejects_keyFieldAllowedChoices fun _ => not_rejects_write _ _
  | keyFieldAllowedChoicesGet =>
    exact not_rejects_keyFieldAllowedChoices fun _ => not_rejects_writeAll _ _
  | dataFieldNumAllowedChoicesGet | dataFieldNumAllowedChoicesWithActionGet =>
    exact not_rejects_dataFieldAllowedChoices fun _ => not_rejects_write _ _
  | dataFieldAllowedChoicesGet | dataFieldAllowedChoicesWithActionGet =>
    exact not_rejects_dataFieldAllowedChoices fun _ => not_rejects_writeAll _ _
  | dataFieldIdListSizeWithActionGet | dataFieldIdGet | dataFieldIdWithActionGet =>
    -- the lookup of an absent name gives 0, that of an absent action the common fields
    exact not_rejects_deref fun _ _ => not_rejects_write _ _
  | dataFieldListWithActionGet => exact not_rejects_checked (not_rejects_writeAll _ _)
  | dataFieldAnnotationsGet | dataFieldAnnotationsWithActionGet | dataFieldOneofSiblingsGet
  | dataFieldOneofSiblingsWithActionGet =>
    exact not_rejects_dataFieldRead fun _ => not_rejects_writeAll _ _
  | actionNumAnnotationsGet => exact not_rejects_actionRead fun _ => not_rejects_write _ _
  | actionAnnotationsGet => exact not_rejects_actionRead fun _ => not_rejects_writeAll _ _
  | actionNameToId =>
    exact not_rejects_deref fun _ _ => not_rejects_deref fun _ _ => not_rejects_write _ _
  | keyFieldNameGet | dataFieldNameGet | dataFieldNameWithActionGet | actionNameGet =>
    exact not_rejects_checked (not_rejects_deref fun _ _ => not_rejects_write _ _)
  | _ => exact not_rejects_dataFieldRead fun _ => not_rejects_write _ _

theorem keyFieldSizeGet_not_rejected :
    ¬ (Accessor.keyFieldSizeGet 1).Rejects (some bareTable) .memory :=
  absent_not_rejected bareTable (.keyFieldSizeGet 1) rfl

/-- A table without fields: asking for the size of a key field uses a null pointer, and asking
for the id of a data field succeeds. -/
theorem bareTable_accepts :
    ((Accessor.keyFieldSizeGet 1).argument.Absent bareTable ∧
      tdiKeyFieldSizeGet (some bareTable) 1 .memory = .nullDeref ∧
      ¬ (Accessor.keyFieldSizeGet 1).Rejects (some bareTable) .memory) ∧
    (Accessor.dataFieldIdGet "port").argument.Absent bareTable ∧
      tdiDataFieldIdGet (some bareTable) .memory "port" = .returned .success (some 0) ∧
      ¬ (Accessor.dataFieldIdGet "port").Rejects (some bareTable) .memory :=
  ⟨⟨rfl, rfl, not_rejects_nullDeref⟩, rfl, rfl, not_rejects_success (some 0)⟩

end Tdi.CFrontend
