import Tdi.Defs
import Tdi.Foundation.KeyedMap

/-!
# In-memory table metadata

The classes of `tdi_table_info.hpp` and `tdi_learn_info.hpp`: annotations, key
and data fields, actions, notifications, tables and learns. A class that keeps
a name map next to its id map builds it in its constructor and never changes
either, so the structure carries the equation between the two.

A field default that the parser may leave unwritten (`default_fl_value_`) is an
`Option`; `none` is the indeterminate value.
-/
namespace Tdi.Json

open Std Foundation

structure Annotation where
  name : String
  value : String
  deriving DecidableEq, Repr

/-- The text on which annotations are compared, `name.value`. -/
def Annotation.fullName (a : Annotation) : String := a.name ++ "." ++ a.value

/-- `std::set<Annotation>`: ordered, and made unique, by the full name. -/
abbrev AnnotationSet := KeyedMap Annotation.fullName

structure KeyFieldInfo where
  fieldId : TdiId
  name : String
  sizeBits : ℕ
  matchType : EnumCode
  dataType : FieldDataType
  mandatory : Bool
  enumChoices : List String
  annotations : AnnotationSet
  defaultValue : UInt64
  defaultFlValue : Option ℚ
  defaultStrValue : String
  isFieldSlice : Bool
  isPtr : Bool
  matchPriority : Bool

/-- The constructor never receives `is_ptr_`, which stays at its initializer. -/
structure DataFieldInfo where
  fieldId : TdiId
  name : String
  sizeBits : ℕ
  dataType : FieldDataType
  isPtr : Bool := false
  mandatory : Bool
  readOnly : Bool
  enumChoices : List String
  annotations : AnnotationSet
  defaultValue : UInt64
  defaultFlValue : Option ℚ
  defaultStrValue : String
  repeated : Bool
  containerValid : Bool
  oneofSiblings : Finset TdiId

structure ActionInfo where
  actionId : TdiId
  name : String
  dataFields : KeyedMap DataFieldInfo.fieldId
  annotations : AnnotationSet
  dataFieldsNames : ExtTreeMap String DataFieldInfo
  dataFieldsNames_eq : dataFieldsNames = dataFields.index DataFieldInfo.name

def ActionInfo.make (actionId : TdiId) (name : String)
    (dataFields : KeyedMap DataFieldInfo.fieldId) (annotations : AnnotationSet) : ActionInfo :=
  ⟨actionId, name, dataFields, annotations, dataFields.index DataFieldInfo.name, rfl⟩

structure NotificationParamInfo where
  fieldId : TdiId
  name : String
  repeated : Bool
  sizeBits : ℕ
  dataType : FieldDataType
  mandatory : Bool
  enumChoices : List String
  annotations : AnnotationSet
  defaultValue : UInt64
  defaultFlValue : Option ℚ
  defaultStrValue : String

structure NotificationInfo where
  notificationId : TdiId
  name : String
  registrationParamsFields : KeyedMap NotificationParamInfo.fieldId
  callbackParamsFields : KeyedMap NotificationParamInfo.fieldId
  annotations : AnnotationSet
  registrationParamsFieldsNames : ExtTreeMap String NotificationParamInfo
  registrationParamsFieldsNames_eq : registrationParamsFieldsNames =
    registrationParamsFields.index NotificationParamInfo.name
  callbackParamsFieldsNames : ExtTreeMap String NotificationParamInfo
  callbackParamsFieldsNames_eq : callbackParamsFieldsNames =
    callbackParamsFields.index NotificationParamInfo.name

def NotificationInfo.make (notificationId : TdiId) (name : String)
    (registrationParamsFields callbackParamsFields : KeyedMap NotificationParamInfo.fieldId)
    (annotations : AnnotationSet) : NotificationInfo :=
  ⟨notificationId, name, registrationParamsFields, callbackParamsFields, annotations,
    registrationParamsFields.index NotificationParamInfo.name, rfl,
    callbackParamsFields.index NotificationParamInfo.name, rfl⟩

/-- What the parser hands to the constructor of `TableInfo`. -/
structure TableParts where
  id : TdiId
  name : String
  tableType : EnumCode
  size : ℕ
  hasConstDefaultAction : Bool
  isConst : Bool
  tableKeyMap : KeyedMap KeyFieldInfo.fieldId
  tableDataMap : KeyedMap DataFieldInfo.fieldId
  tableActionMap : KeyedMap ActionInfo.actionId
  tableNotificationMap : KeyedMap NotificationInfo.notificationId
  dependsOnSet : Finset TdiId
  operationsTypeSet : Finset EnumCode
  attributesTypeSet : Finset EnumCode
  annotations : AnnotationSet

structure TableInfo extends TableParts where
  nameKeyMap : ExtTreeMap String KeyFieldInfo
  nameDataMap : ExtTreeMap String DataFieldInfo
  nameActionMap : ExtTreeMap String ActionInfo
  nameNotificationsMap : ExtTreeMap String NotificationInfo
  nameKeyMap_eq : nameKeyMap = tableKeyMap.index KeyFieldInfo.name
  nameDataMap_eq : nameDataMap = tableDataMap.index DataFieldInfo.name
  nameActionMap_eq : nameActionMap = tableActionMap.index ActionInfo.name
  nameNotificationsMap_eq : nameNotificationsMap =
    tableNotificationMap.index NotificationInfo.name

def TableInfo.make (parts : TableParts) : TableInfo :=
  { parts with
    nameKeyMap := parts.tableKeyMap.index KeyFieldInfo.name
    nameDataMap := parts.tableDataMap.index DataFieldInfo.name
    nameActionMap := parts.tableActionMap.index ActionInfo.name
    nameNotificationsMap := parts.tableNotificationMap.index NotificationInfo.name
    nameKeyMap_eq := rfl
    nameDataMap_eq := rfl
    nameActionMap_eq := rfl
    nameNotificationsMap_eq := rfl }

structure LearnInfo where
  id : TdiId
  name : String
  learnFieldMap : KeyedMap DataFieldInfo.fieldId
  annotations : AnnotationSet

namespace TableInfo

variable (info : TableInfo)

/-- `std::sort` on a vector of ids. -/
def sortIds (ids : List TdiId) : List TdiId := ids.insertionSort (· ≤ ·)

def keyFieldIdListGet : List TdiId := sortIds info.tableKeyMap.keys

def actionIdListGet : List TdiId := sortIds info.tableActionMap.keys

def keyFieldGet (fieldId : TdiId) : Option KeyFieldInfo := info.tableKeyMap.get? fieldId

def keyFieldGetByName (name : String) : Option KeyFieldInfo := info.nameKeyMap[name]?

def actionGet (actionId : TdiId) : Option ActionInfo := info.tableActionMap.get? actionId

def actionGetByName (name : String) : Option ActionInfo := info.nameActionMap[name]?

def dataFieldIdListGet (actionId : TdiId) : List TdiId :=
  let actionIds :=
    if actionId ≠ 0 then
      match info.tableActionMap.get? actionId with
      | none => []
      | some action => action.dataFields.keys
    else []
  sortIds (actionIds ++ info.tableDataMap.keys)

/-- The action whose scope a lookup searches first, if the id names one. -/
def lookupScope (actionId : TdiId) : Option ActionInfo :=
  if actionId ≠ 0 then info.tableActionMap.get? actionId else none

def dataFieldGetByName (name : String) (actionId : TdiId) : Option DataFieldInfo :=
  match (info.lookupScope actionId).bind fun action => action.dataFieldsNames[name]? with
  | some field => some field
  | none => info.nameDataMap[name]?

def dataFieldGet (fieldId actionId : TdiId) : Option DataFieldInfo :=
  match (info.lookupScope actionId).bind fun action => action.dataFields.get? fieldId with
  | some field => some field
  | none => info.tableDataMap.get? fieldId

def dataFieldIdGet (name : String) (actionId : TdiId) : TdiId :=
  match info.dataFieldGetByName name actionId with
  | none => 0
  | some dataField => dataField.fieldId

theorem of_nameKeyMap {s : String} {f : KeyFieldInfo} (h : info.nameKeyMap[s]? = some f) :
    f.name = s ∧ info.tableKeyMap.get? f.fieldId = some f :=
  KeyedMap.of_getElem?_index KeyFieldInfo.name (info.nameKeyMap_eq ▸ h)

theorem of_nameDataMap {s : String} {f : DataFieldInfo} (h : info.nameDataMap[s]? = some f) :
    f.name = s ∧ info.tableDataMap.get? f.fieldId = some f :=
  KeyedMap.of_getElem?_index DataFieldInfo.name (info.nameDataMap_eq ▸ h)

theorem of_nameActionMap {s : String} {a : ActionInfo} (h : info.nameActionMap[s]? = some a) :
    a.name = s ∧ info.tableActionMap.get? a.actionId = some a :=
  KeyedMap.of_getElem?_index ActionInfo.name (info.nameActionMap_eq ▸ h)

theorem of_nameNotificationsMap {s : String} {n : NotificationInfo}
    (h : info.nameNotificationsMap[s]? = some n) :
    n.name = s ∧ info.tableNotificationMap.get? n.notificationId = some n :=
  KeyedMap.of_getElem?_index NotificationInfo.name (info.nameNotificationsMap_eq ▸ h)

omit info in
theorem sortIds_perm (ids : List TdiId) : (sortIds ids).Perm ids := List.perm_insertionSort _ _

/-- A sorted list is strictly ascending exactly when no id is in it twice. -/
theorem pairwise_lt_sortIds_iff {ids : List TdiId} :
    (sortIds ids).Pairwise (· < ·) ↔ ids.Nodup := by
  have hle : (sortIds ids).Pairwise (· ≤ ·) := by
    have : Std.Total (α := TdiId) (· ≤ ·) := ⟨UInt32.le_total⟩
    have : IsTrans TdiId (· ≤ ·) := ⟨fun _ _ _ => UInt32.le_trans⟩
    exact List.pairwise_insertionSort _ _
  rw [← (sortIds_perm ids).nodup_iff]
  constructor
  · exact fun h => h.imp fun hlt => UInt32.ne_of_lt hlt
  · exact fun h => (hle.and h).imp fun ⟨hab, hne⟩ => UInt32.lt_of_le_of_ne hab hne

theorem mem_sortIds {ids : List TdiId} {i : TdiId} : i ∈ sortIds ids ↔ i ∈ ids :=
  List.mem_insertionSort _

end TableInfo

theorem ActionInfo.of_dataFieldsNames (action : ActionInfo) {s : String} {f : DataFieldInfo}
    (h : action.dataFieldsNames[s]? = some f) :
    f.name = s ∧ action.dataFields.get? f.fieldId = some f :=
  KeyedMap.of_getElem?_index DataFieldInfo.name (action.dataFieldsNames_eq ▸ h)

end Tdi.Json
