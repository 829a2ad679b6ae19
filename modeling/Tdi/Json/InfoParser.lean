import Tdi.Json.Cjson
import Tdi.Json.TableInfo

/-!
# The schema parser

`TdiInfoParser` turns the JSON nodes of a schema into table and learn metadata.
Every loop over a JSON list is an `addAll` (a repeated id is skipped) or an
`addAllUnique?` (a repeated id makes the whole table fail).
-/
namespace Tdi.Json

open Std Foundation Cjson

/-- `TdiInfoMapper`: the enumeration strings a target has registered. -/
structure TdiInfoMapper where
  tableEMap : ExtTreeMap String EnumCode
  matchEMap : ExtTreeMap String EnumCode
  operationsEMap : ExtTreeMap String EnumCode
  attributesEMap : ExtTreeMap String EnumCode

namespace TdiInfoMapper

/-- No strings are registered. -/
def empty : TdiInfoMapper := ⟨∅, ∅, ∅, ∅⟩

variable (mapper : TdiInfoMapper) (type : String)

def tableTypeStrToEnum : EnumCode := (mapper.tableEMap[type]?).getD tableTypeCore
def matchTypeStrToEnum : EnumCode := (mapper.matchEMap[type]?).getD matchTypeCore
def operationsTypeStrToEnum : EnumCode := (mapper.operationsEMap[type]?).getD operationsTypeCore
def attributesTypeStrToEnum : EnumCode := (mapper.attributesEMap[type]?).getD attributesTypeCore

end TdiInfoMapper

def dataTypeStrToEnum (type : String) (repeated : Bool) : FieldDataType :=
  if type = "bytes" then .byteStream
  else if type = "uint64" ∨ type = "uint32" ∨ type = "uint16" ∨ type = "uint8" then
    if !repeated then .uint64 else .intArr
  else if type = "bool" then
    if !repeated then .bool else .boolArr
  else if type = "float" then .float
  else if type = "string" then
    if !repeated then .string else .stringArr
  else if type = "int64" ∨ type = "int32" ∨ type = "int16" ∨ type = "int8" then
    if !repeated then .int64 else .intArr
  else .unknown

/-- The outputs of `parseFieldWidth`. The callers pass `default_fl_value`
uninitialized and the strings empty, and only some branches write them. -/
structure FieldWidth where
  type : FieldDataType
  width : ℕ
  defaultValue : UInt64
  defaultFlValue : Option ℚ := none
  defaultStrValue : String := ""
  choices : List String := []

section Parser

variable {Node : Type} (lib : CjsonApi Node) (mapper : TdiInfoMapper)

def checkIsFieldSlice (keyField : Cjson Node) : Bool :=
  (getCjsonChildVec lib (item lib keyField "annotations")).any fun annotation =>
    toStr lib (item lib annotation "name") = "isFieldSlice" ∧
      toStr lib (item lib annotation "value") = "true"

def parseAnnotations (annotationCjson : Cjson Node) : AnnotationSet :=
  KeyedMap.empty.addAll <| (getCjsonChildVec lib annotationCjson).map fun annotation =>
    ⟨toStr lib (item lib annotation "name"), toStr lib (item lib annotation "value")⟩

def parseFieldWidth (node : Cjson Node) : FieldWidth :=
  let typeNode := item lib node "type"
  let typeStr := toStr lib (item lib typeNode "type")
  let repeated :=
    if exists? (item lib node "repeated") then toBool lib (item lib node "repeated") else false
  let type := dataTypeStrToEnum typeStr repeated
  let defaultNode := item lib typeNode "default_value"
  let defaultValue := if exists? defaultNode then toUInt64 lib defaultNode else 0
  if typeStr = "bytes" then
    { type, width := (toUnsignedInt lib (item lib typeNode "width")).toNat, defaultValue }
  else if typeStr = "uint64" then { type, width := 64, defaultValue }
  else if typeStr = "uint32" then { type, width := 32, defaultValue }
  else if typeStr = "uint16" then { type, width := 16, defaultValue }
  else if typeStr = "uint8" then { type, width := 8, defaultValue }
  else if typeStr = "int64" then { type, width := 64, defaultValue }
  else if typeStr = "int32" then { type, width := 32, defaultValue }
  else if typeStr = "int16" then { type, width := 16, defaultValue }
  else if typeStr = "int8" then { type, width := 8, defaultValue }
  else if typeStr = "bool" then { type, width := 1, defaultValue }
  else if typeStr = "float" then
    { type, width := 0, defaultValue
      defaultFlValue := some (if exists? defaultNode then toFloat lib defaultNode else 0) }
  else if typeStr = "string" then
    { type, defaultValue
      width :=
        if exists? (item lib typeNode "width") then
          (toUnsignedInt lib (item lib typeNode "width")).toNat
        else 0
      choices := getCjsonChildStringVec lib (item lib typeNode "choices")
      defaultStrValue := if exists? defaultNode then toStr lib defaultNode else "INVALID" }
  else if exists? (item lib node "container") then { type := .container, width := 0, defaultValue }
  else { type, width := 0, defaultValue }

def parseKeyField (tableKeyCjson : Cjson Node) : KeyFieldInfo :=
  let field := parseFieldWidth lib tableKeyCjson
  { fieldId := toUnsignedInt lib (item lib tableKeyCjson "id")
    name := toStr lib (item lib tableKeyCjson "name")
    sizeBits := field.width
    matchType := mapper.matchTypeStrToEnum (toStr lib (item lib tableKeyCjson "match_type"))
    dataType := field.type
    mandatory := toBool lib (item lib tableKeyCjson "mandatory")
    enumChoices := field.choices
    annotations := parseAnnotations lib (item lib tableKeyCjson "annotations")
    defaultValue := field.defaultValue
    defaultFlValue := field.defaultFlValue
    defaultStrValue := field.defaultStrValue
    isFieldSlice := checkIsFieldSlice lib tableKeyCjson
    isPtr := decide (64 < field.width)
    matchPriority := false }

/-- The node behind a `singleton` wrapper, or the entry itself. -/
def unwrapSingleton (dataJson : Cjson Node) : Cjson Node :=
  if exists? (item lib dataJson "singleton") then item lib dataJson "singleton" else dataJson

def oneofMembers (dataJson : Cjson Node) : List (Cjson Node) :=
  getCjsonChildVec lib (item lib dataJson "oneof")

/-- The node one call of `parseDataField` reads the field from. -/
def dataFieldNode (dataJsonIn : Cjson Node) (oneofIndex : ℕ) : Cjson Node :=
  let dataJson := unwrapSingleton lib dataJsonIn
  if exists? (item lib dataJson "oneof") then itemAt lib (item lib dataJson "oneof") oneofIndex
  else dataJson

def idOf (node : Cjson Node) : TdiId := toUnsignedInt lib (item lib node "id")

/-- The ids of the other members of the entry's group, if it has one. -/
def oneofSiblings (dataJsonIn : Cjson Node) (oneofIndex : ℕ) : Finset TdiId :=
  let dataJson := unwrapSingleton lib dataJsonIn
  if exists? (item lib dataJson "oneof") then
    (((oneofMembers lib dataJson).map (idOf lib)).toFinset).erase
      (idOf lib (dataFieldNode lib dataJsonIn oneofIndex))
  else ∅

def parseDataField (dataJsonIn : Cjson Node) (oneofIndex : ℕ) : DataFieldInfo :=
  -- `mandatory` and `read_only` stand outside `oneof` and `singleton`
  let mandatory := toBool lib (item lib dataJsonIn "mandatory")
  let readOnly := toBool lib (item lib dataJsonIn "read_only")
  let dataJson := dataFieldNode lib dataJsonIn oneofIndex
  let field := parseFieldWidth lib dataJson
  { fieldId := idOf lib dataJson
    name := toStr lib (item lib dataJson "name")
    sizeBits := field.width
    dataType := field.type
    mandatory
    readOnly
    enumChoices := field.choices
    annotations := parseAnnotations lib (item lib dataJson "annotations")
    defaultValue := field.defaultValue
    defaultFlValue := field.defaultFlValue
    defaultStrValue := field.defaultStrValue
    repeated := toBool lib (item lib dataJson "repeated")
    containerValid := exists? (item lib dataJson "container")
    oneofSiblings := oneofSiblings lib dataJsonIn oneofIndex }

def parseAction (actionJson : Cjson Node) : ActionInfo :=
  let dataFields := KeyedMap.empty.addAll <|
    (getCjsonChildVec lib (item lib actionJson "data")).map fun actionData =>
      parseDataField lib actionData 0
  ActionInfo.make (idOf lib actionJson) (toStr lib (item lib actionJson "name")) dataFields
    (parseAnnotations lib (item lib actionJson "annotations"))

def parseNotificationParams (paramJson : Cjson Node) : NotificationParamInfo :=
  let field := parseFieldWidth lib paramJson
  { fieldId := idOf lib paramJson
    name := toStr lib (item lib paramJson "name")
    repeated := toBool lib (item lib paramJson "repeated")
    sizeBits := field.width
    dataType := field.type
    mandatory := toBool lib (item lib paramJson "mandatory")
    enumChoices := field.choices
    annotations := parseAnnotations lib (item lib paramJson "annotations")
    defaultValue := field.defaultValue
    defaultFlValue := field.defaultFlValue
    defaultStrValue := field.defaultStrValue }

def parseNotificationInfo (notificationJson : Cjson Node) : NotificationInfo :=
  let params (list : String) := KeyedMap.empty.addAll <|
    (getCjsonChildVec lib (item lib notificationJson list)).map (parseNotificationParams lib)
  NotificationInfo.make (idOf lib notificationJson) (toStr lib (item lib notificationJson "name"))
    (params "registration_params") (params "callback_params")
    (parseAnnotations lib (item lib notificationJson "annotations"))

def parseLearn (learnTdi : Cjson Node) : LearnInfo :=
  let oneofSize := 1
  { id := idOf lib learnTdi
    name := toStr lib (item lib learnTdi "name")
    learnFieldMap := KeyedMap.empty.addAll <|
      (getCjsonChildVec lib (item lib learnTdi "fields")).map fun field =>
        parseDataField lib field oneofSize
    annotations := parseAnnotations lib (item lib learnTdi "annotations") }

/-- The fields one entry of a table's `data` list gives rise to: one for each
member of a `oneof` directly under the entry, otherwise a single one. -/
def parseDataEntry (dataJson : Cjson Node) : List DataFieldInfo :=
  let oneofSize :=
    if exists? (item lib dataJson "oneof") then arraySize lib (item lib dataJson "oneof") else 1
  (List.range oneofSize).map (parseDataField lib dataJson)

def parseTable (tableTdi : Cjson Node) : Option TableInfo := do
  let children (list : String) := getCjsonChildVec lib (item lib tableTdi list)
  let tableKeyMap ← KeyedMap.empty.addAllUnique? ((children "key").map (parseKeyField lib mapper))
  let tableDataMap := KeyedMap.empty.addAll ((children "data").flatMap (parseDataEntry lib))
  let tableActionMap ←
    KeyedMap.empty.addAllUnique? ((children "action_specs").map (parseAction lib))
  let tableNotificationMap ← KeyedMap.empty.addAllUnique?
    ((children "notifications").map (parseNotificationInfo lib))
  return TableInfo.make
    { id := idOf lib tableTdi
      name := toStr lib (item lib tableTdi "name")
      tableType := mapper.tableTypeStrToEnum (toStr lib (item lib tableTdi "table_type"))
      size := (toUnsignedInt lib (item lib tableTdi "size")).toNat
      hasConstDefaultAction := toBool lib (item lib tableTdi "has_const_default_action")
      isConst := toBool lib (item lib tableTdi "is_const")
      tableKeyMap
      tableDataMap
      tableActionMap
      tableNotificationMap
      dependsOnSet := ((children "depends_on").map (toUnsignedInt lib)).toFinset
      operationsTypeSet :=
        ((getCjsonChildStringVec lib (item lib tableTdi "supported_operations")).map
          mapper.operationsTypeStrToEnum).toFinset
      attributesTypeSet :=
        ((getCjsonChildStringVec lib (item lib tableTdi "attributes")).map
          mapper.attributesTypeStrToEnum).toFinset
      annotations := parseAnnotations lib (item lib tableTdi "annotations") }

end Parser
end Tdi.Json
