import Tdi.CFrontend.TableInfoC
import Tdi.Cli.Programs
import Tdi.Foundation.DictLoops
import Tdi.Foundation.Guarded
import Tdi.Json.DataFieldLookup

/-!
# What the shell knows of a table

The constructor of `TdiTable` asks the metadata C API for the key fields, the actions
and the data fields of the table, one call for each property of each field, and makes
dictionaries of what the calls write. `view` is what should come of it, read off the
metadata. No id that is passed is unknown to the table, so no call goes through a null
pointer, and the constructor fails only for what the shell cannot read.
-/
namespace Tdi.Cli.TableInit

open Std Foundation Json CFrontend
open Programs (cStr)

inductive InitError where
  /-- a null pointer is used, or an array is written past its end -/
  | crash
  /-- a variable is used that a successful call has not written -/
  | unwritten
  /-- `None` has no `decode`. -/
  | noneDecode
  /-- The texts of the errors of `_init_data_fields` have an undefined `name`. -/
  | nameError
  | unicodeDecodeError
  /-- `tdi_container_data_field_list_get`, which is compiled only with `_TDI_FROM_BFRT` -/
  | noContainerAccessor
  /-- Table init field failed. -/
  | tableError
  deriving DecidableEq

/-- `TdiTableField`, as its constructor is called -/
structure TdiTableField where
  name : String
  id : TdiId
  size : UInt32
  isPtr : Bool
  readOnly : Bool
  required : Bool
  category : Category
  actionName : Option String
  actionId : Option TdiId
  dataType : FieldDataType
  matchType : Option EnumCode
  annotations : List (String × String)

/-- The dictionary that `_init_actions` makes for an action. -/
structure ActionDict where
  id : TdiId
  dataFields : Dict TdiTableField
  annotations : List (String × String)

structure TdiTable where
  keyFields : Dict TdiTableField
  actions : Dict ActionDict
  actionIdNameMap : ExtTreeMap TdiId String
  dataFields : Dict TdiTableField
  stringChoices : Dict (List String)

def TdiTable.empty : TdiTable := ⟨.empty, .empty, ∅, .empty, .empty⟩

section Calls

variable {α : Type}

/-- What a call writes, unless its status is an error. -/
def attempt : Outcome α → Except InitError (Option α)
  | .nullDeref => .error .crash
  | .returned .success (some value) => .ok (some value)
  | .returned .success none => .error .unwritten
  | .returned _ _ => .ok none

/-- A call whose errors are raised. -/
def read (failed : InitError) (outcome : Outcome α) : Except InitError α := do
  match ← attempt outcome with
  | none => .error failed
  | some value => .ok value

/-- An array of some elements, to which a call writes. -/
def array (num : UInt32) (values : List α) : Except InitError (List (Option α)) :=
  if num.toNat < values.length then .error .crash
  else .ok (readArray num.toNat (fillFrom 0 (values.map some) fun _ => none))

/-- The ids that two calls write, the first of them their number. -/
def readIds (size : Outcome UInt32) (list : Outcome (List TdiId)) :
    Except InitError (List TdiId) := do
  let numIds ← read .tableError size
  if numIds = 0 then .ok []
  else do
    let fieldIds ← array numIds (← read .tableError list)
    .ok (fieldIds.map (·.getD 0))

/-- Two such calls whose errors are only printed. -/
def attemptList (num : Outcome UInt32) (list : Outcome (List α)) :
    Except InitError (Option (List (Option α))) := do
  match ← attempt num with
  | none => .ok none
  | some num =>
    match ← attempt list with
    | none => .ok none
    | some values => (array num values).map some

/-- `decode('ascii')` -/
def decodeAscii (bytes : String) : Except InitError String :=
  if IsAscii bytes then .ok bytes else .error .unicodeDecodeError

/-- A `c_char_p` is decoded. -/
def decode : Option String → Except InitError String
  | none => .error .noneDecode
  | some text => decodeAscii (cStr text)

def decodeAnnotation : Option Annotation → Except InitError (String × String)
  | none => .error .noneDecode
  | some ann => do
    let name ← decode (some ann.name)
    let value ← decode (some ann.value)
    .ok (name, value)

end Calls

section Fields

/-- The part of `_init_choices` for a field of strings. -/
def initChoices (stringChoices : Dict (List String)) (name : String)
    (nchoices : Outcome UInt32) (getChoices : Outcome (List String)) :
    Except InitError (Dict (List String)) := do
  match ← attemptList nchoices getChoices with
  | none => .ok stringChoices
  | some choicesArr => do
    let choices ← choicesArr.mapM decode
    let name ← decodeAscii name
    .ok (stringChoices.set name choices)

/-- `_init_annotations`, for a data field -/
def initAnnotations (nannotations : Outcome UInt32) (getAnnotations : Outcome (List Annotation)) :
    Except InitError (List (String × String)) := do
  match ← attemptList nannotations getAnnotations with
  | none => .ok []
  | some annotationsArr => annotationsArr.mapM decodeAnnotation

variable (info : TableInfo)

/-- `_init_choices` of a key field -/
def initKeyChoices (stringChoices : Dict (List String)) (name : String) (fieldId : TdiId)
    (dataType : FieldDataType) : Except InitError (Dict (List String)) :=
  if dataType ≠ .string then .ok stringChoices
  else
    initChoices stringChoices name
      (tdiKeyFieldNumAllowedChoicesGet (some info) fieldId .memory)
      (tdiKeyFieldAllowedChoicesGet (some info) fieldId .memory)

/-- `_init_choices` of a data field -/
def initDataChoices (stringChoices : Dict (List String)) (name : String)
    (fieldId actionId : TdiId) (dataType : FieldDataType) :
    Except InitError (Dict (List String)) :=
  if dataType ≠ .string ∧ dataType ≠ .stringArr then .ok stringChoices
  else
    initChoices stringChoices name
      (tdiDataFieldNumAllowedChoicesWithActionGet (some info) fieldId actionId .memory)
      (tdiDataFieldAllowedChoicesWithActionGet (some info) fieldId actionId .memory)

def initKeyField (t : TdiTable) (fieldId : TdiId) : Except InitError TdiTable := do
  let name ← read .tableError (tdiKeyFieldNameGet (some info) fieldId .memory)
  let matchType ← read .tableError (tdiKeyFieldMatchTypeGet (some info) fieldId .memory)
  let dataType ← read .tableError (tdiKeyFieldDataTypeGet (some info) fieldId .memory)
  let size ← read .tableError (tdiKeyFieldSizeGet (some info) fieldId .memory)
  let isPtr ← read .tableError (tdiKeyFieldIsPtrGet (some info) fieldId .memory)
  let _ ← decodeAscii (cStr name)
  let stringChoices ← initKeyChoices info t.stringChoices (cStr name) fieldId dataType
  -- the size is written as a `size_t` and read as a `c_uint`
  .ok { t with
    keyFields := t.keyFields.set (cStr name)
      { name := cStr name, id := fieldId, size := .ofNat size, isPtr := isPtr,
        readOnly := false, required := true, category := .key, actionName := none,
        actionId := none, dataType := dataType, matchType := some matchType, annotations := [] }
    stringChoices := stringChoices }

def initKey (t : TdiTable) : Except InitError TdiTable := do
  let fieldIds ← readIds (tdiKeyFieldIdListSizeGet (some info) .memory)
    (tdiKeyFieldIdListGet (some info) .memory)
  fieldIds.foldlM (initKeyField info) t

/-- The dictionary that data fields are filed in, and the choices. -/
abbrev Filing := Dict TdiTableField × Dict (List String)

/-- `_init_data_fields`. Without an action the id is 0. -/
def initDataFields (actionId : TdiId) (actionName : Option String) (filing : Filing)
    (fieldId : TdiId) : Except InitError Filing := do
  let dataType ← read .nameError
    (tdiDataFieldTypeWithActionGet (some info) fieldId actionId .memory)
  let name ← read .nameError (tdiDataFieldNameWithActionGet (some info) fieldId actionId .memory)
  let size ← read .nameError (tdiDataFieldSizeWithActionGet (some info) fieldId actionId .memory)
  let isPtr ← read .nameError
    (tdiDataFieldIsPtrWithActionGet (some info) fieldId actionId .memory)
  let readOnly ← read .nameError
    (tdiDataFieldIsReadOnlyWithActionGet (some info) fieldId actionId .memory)
  let mandatory ← read .nameError
    (tdiDataFieldIsMandatoryWithActionGet (some info) fieldId actionId .memory)
  let _ ← decodeAscii (cStr name)
  let stringChoices ← initDataChoices info filing.2 (cStr name) fieldId actionId dataType
  let annotations ← initAnnotations
    (tdiDataFieldNumAnnotationsWithActionGet (some info) fieldId actionId .memory)
    (tdiDataFieldAnnotationsWithActionGet (some info) fieldId actionId .memory)
  if dataType = .container then .error .noContainerAccessor
  else .ok (filing.1.set (cStr name)
    { name := cStr name, id := fieldId, size := .ofNat size, isPtr := isPtr,
      readOnly := readOnly, required := mandatory, category := .data, actionName := actionName,
      actionId := some actionId, dataType := dataType, matchType := none,
      annotations := annotations }, stringChoices)

end Fields

section Actions

variable (info : TableInfo)

/-- The statuses of the two calls are not looked at. -/
def actionAnnotations (actionId : TdiId) : Except InitError (List (String × String)) := do
  let numAnnotations ← attempt (tdiActionNumAnnotationsGet (some info) actionId .memory)
  let written ← attempt (tdiActionAnnotationsGet (some info) actionId .memory)
  let annotationsArr ← array (numAnnotations.getD 0) (written.getD [])
  annotationsArr.mapM decodeAnnotation

def initAction (t : TdiTable) (actionId : TdiId) : Except InitError TdiTable := do
  let name ← read .tableError (tdiActionNameGet (some info) actionId .memory)
  let annotations ← actionAnnotations info actionId
  .ok { t with
    actions := t.actions.set (cStr name) ⟨actionId, .empty, annotations⟩
    actionIdNameMap := t.actionIdNameMap.insert actionId (cStr name) }

/-- Where the number of actions is not to be had there are none. -/
def initActions (t : TdiTable) : Except InitError TdiTable := do
  match ← attempt (tdiActionIdListSizeGet (some info) .memory) with
  | none => .ok t
  | some num => do
    let actionIds ← readIds (.returned .success (some num))
      (tdiActionIdListGet (some info) .memory)
    actionIds.foldlM (initAction info) t

/-- One round of the loop over the actions in `_init_data`. -/
def initActionData (t : TdiTable) (p : String × ActionDict) : Except InitError TdiTable := do
  let _ ← decodeAscii p.1
  let fieldIds ← readIds (tdiDataFieldIdListSizeWithActionGet (some info) p.2.id .memory)
    (tdiDataFieldListWithActionGet (some info) p.2.id .memory)
  let filing ← fieldIds.foldlM (initDataFields info p.2.id (some p.1))
    (p.2.dataFields, t.stringChoices)
  .ok { t with
    actions := t.actions.set p.1 { p.2 with dataFields := filing.1 }
    stringChoices := filing.2 }

def initData (t : TdiTable) : Except InitError TdiTable :=
  if t.actions.entries.length = 0 then do
    let fieldIds ← readIds (tdiDataFieldIdListSizeGet (some info) .memory)
      (tdiDataFieldListGet (some info) .memory)
    let filing ← fieldIds.foldlM (initDataFields info 0 none) (t.dataFields, t.stringChoices)
    .ok { t with dataFields := filing.1, stringChoices := filing.2 }
  else t.actions.entries.foldlM (initActionData info) t

/-- The part of `__init__` that reads the fields. -/
def initTable : Except InitError TdiTable := do
  let t ← initKey info .empty
  let t ← initActions info t
  initData info t

end Actions

section Calls

variable {α : Type}

/-- The errors that a table can be the reason of. -/
def Unreadable (e : InitError) : Prop := e = .unicodeDecodeError ∨ e = .noContainerAccessor

theorem read_success (failed : InitError) (value : α) :
    read failed (.returned .success (some value)) = .ok value := rfl

theorem array_length {values : List α} (h : values.length < 2 ^ 32) :
    array (.ofNat values.length) values = .ok (values.map some) := by
  have hnum : (UInt32.ofNat values.length).toNat = (values.map some).length := by
    rw [List.length_map, UInt32.toNat_ofNat_of_lt' h]
  rw [array, hnum, if_neg (by simp), readArray_fillFrom]

theorem attemptList_length {values : List α} (h : values.length < 2 ^ 32) :
    attemptList (.returned .success (some (.ofNat values.length)))
      (.returned .success (some values)) = .ok (some (values.map some)) := by
  have hrun : attemptList (.returned .success (some (.ofNat values.length)))
      (.returned .success (some values)) = (array (.ofNat values.length) values).map some := rfl
  rw [hrun, array_length h]
  rfl

theorem readIds_length {ids : List TdiId} (h : ids.length < 2 ^ 32) :
    readIds (.returned .success (some (.ofNat ids.length))) (.returned .success (some ids)) =
      .ok ids := by
  have hrun : readIds (.returned .success (some (.ofNat ids.length)))
      (.returned .success (some ids)) = if UInt32.ofNat ids.length = 0 then .ok [] else
        array (.ofNat ids.length) ids >>= fun fieldIds => .ok (fieldIds.map (·.getD 0)) := rfl
  rw [hrun, array_length h]
  split_ifs with hzero
  · have hlen : ids.length = 0 := by
      rw [← UInt32.toNat_ofNat_of_lt' h, hzero]
      rfl
    rw [List.length_eq_zero_iff.mp hlen]
  · have hids : (ids.map some).map (·.getD 0) = ids := by simp
    change Except.ok ((ids.map some).map (·.getD 0)) = _
    rw [hids]

theorem decodeAscii_guarded (bytes : String) :
    Guarded Unreadable (IsAscii bytes) (decodeAscii bytes) bytes := by
  constructor
  · intro h
    exact if_pos h
  · intro h
    exact ⟨_, .inl rfl, if_neg h⟩

theorem decode_guarded (text : String) :
    Guarded Unreadable (IsAscii (cStr text)) (decode (some text)) (cStr text) :=
  decodeAscii_guarded (cStr text)

/-- The texts of a list, as they are read from an array. -/
theorem mapM_decode_guarded (texts : List String) :
    Guarded Unreadable (∀ s ∈ texts, IsAscii (cStr s)) ((texts.map some).mapM decode)
      (texts.map cStr) := by
  rw [List.mapM_map]
  apply Guarded.mapM
  intro s _
  rw [Function.comp_apply]
  exact decode_guarded s

def AnnotationReadable (a : Annotation) : Prop := IsAscii (cStr a.name) ∧ IsAscii (cStr a.value)

def annotationView (a : Annotation) : String × String := (cStr a.name, cStr a.value)

theorem mapM_decodeAnnotation_guarded (annotations : List Annotation) :
    Guarded Unreadable (∀ a ∈ annotations, AnnotationReadable a)
      ((annotations.map some).mapM decodeAnnotation) (annotations.map annotationView) := by
  rw [List.mapM_map]
  apply Guarded.mapM
  intro a _
  have hrun : decodeAnnotation (some a) = decode (some a.name) >>= fun name =>
      decode (some a.value) >>= fun value => .ok (name, value) := rfl
  have hvalue : Guarded Unreadable (IsAscii (cStr a.value))
      (decode (some a.value) >>= fun value => .ok (cStr a.name, value)) (annotationView a) :=
    (decode_guarded a.value).map (cStr a.name, ·)
  rw [Function.comp_apply, hrun]
  exact (decode_guarded a.name).bind fun _ => hvalue

end Calls

section Fields

theorem initChoices_guarded (stringChoices : Dict (List String)) (name : String)
    {choices : List String} (h : choices.length < 2 ^ 32) :
    Guarded Unreadable ((∀ s ∈ choices, IsAscii (cStr s)) ∧ IsAscii name)
      (initChoices stringChoices name (.returned .success (some (.ofNat choices.length)))
        (.returned .success (some choices)))
      (stringChoices.set name (choices.map cStr)) := by
  have hrun : initChoices stringChoices name (.returned .success (some (.ofNat choices.length)))
      (.returned .success (some choices)) =
        (choices.map some).mapM decode >>= fun choices =>
          decodeAscii name >>= fun name => .ok (stringChoices.set name choices) := by
    rw [initChoices, attemptList_length h]
    rfl
  rw [hrun]
  exact (mapM_decode_guarded choices).bind fun _ =>
    (decodeAscii_guarded name).map (stringChoices.set · (choices.map cStr))

theorem initAnnotations_guarded {annotations : List Annotation}
    (h : annotations.length < 2 ^ 32) :
    Guarded Unreadable (∀ a ∈ annotations, AnnotationReadable a)
      (initAnnotations (.returned .success (some (.ofNat annotations.length)))
        (.returned .success (some annotations)))
      (annotations.map annotationView) := by
  have hrun : initAnnotations (.returned .success (some (.ofNat annotations.length)))
      (.returned .success (some annotations)) =
        (annotations.map some).mapM decodeAnnotation := by
    rw [initAnnotations, attemptList_length h]
    rfl
  rw [hrun]
  exact mapM_decodeAnnotation_guarded annotations

variable {info : TableInfo}

def keyView (f : KeyFieldInfo) : TdiTableField :=
  { name := cStr f.name, id := f.fieldId, size := .ofNat f.sizeBits, isPtr := f.isPtr,
    readOnly := false, required := true, category := .key, actionName := none, actionId := none,
    dataType := f.dataType, matchType := some f.matchType, annotations := [] }

/-- What is filed in `string_choices` for a key field. -/
def keyChoices (f : KeyFieldInfo) : List (String × List String) :=
  if f.dataType ≠ .string then [] else [(cStr f.name, f.enumChoices.map cStr)]

structure KeyReadable (f : KeyFieldInfo) : Prop where
  name : IsAscii (cStr f.name)
  choices : f.dataType = .string → ∀ s ∈ f.enumChoices, IsAscii (cStr s)

theorem initKeyChoices_guarded {f : KeyFieldInfo} (hget : info.keyFieldGet f.fieldId = some f)
    (hlen : f.enumChoices.length < 2 ^ 32) (hname : IsAscii (cStr f.name))
    (stringChoices : Dict (List String)) :
    Guarded Unreadable (f.dataType = .string → ∀ s ∈ f.enumChoices, IsAscii (cStr s))
      (initKeyChoices info stringChoices (cStr f.name) f.fieldId f.dataType)
      (stringChoices.setAll (keyChoices f)) := by
  have hnum : tdiKeyFieldNumAllowedChoicesGet (some info) f.fieldId .memory =
      .returned .success (some (.ofNat f.enumChoices.length)) := by
    simp only [tdiKeyFieldNumAllowedChoicesGet, keyFieldAllowedChoicesGetHelper, keyFieldRead,
      Outcome.checkOut, Outcome.deref, hget, Outcome.write]
  have hlist : tdiKeyFieldAllowedChoicesGet (some info) f.fieldId .memory =
      .returned .success (some f.enumChoices) := by
    simp only [tdiKeyFieldAllowedChoicesGet, keyFieldAllowedChoicesGetHelper, keyFieldRead,
      Outcome.checkOut, Outcome.deref, hget, Outcome.writeAll]
  unfold initKeyChoices keyChoices
  split_ifs with hstring
  · exact (Guarded.ok _).of_iff (by simp [hstring])
  · rw [not_not] at hstring
    rw [hnum, hlist]
    exact (initChoices_guarded stringChoices (cStr f.name) hlen).of_iff (by simp [hstring, hname])

theorem initKeyField_eq {f : KeyFieldInfo} (hget : info.keyFieldGet f.fieldId = some f)
    (t : TdiTable) :
    initKeyField info t f.fieldId =
      decodeAscii (cStr f.name) >>= fun _ =>
        initKeyChoices info t.stringChoices (cStr f.name) f.fieldId f.dataType >>=
          fun stringChoices => .ok { t with
            keyFields := t.keyFields.set (cStr f.name) (keyView f)
            stringChoices := stringChoices } := by
  simp -implicitDefEqProofs only [initKeyField, tdiKeyFieldNameGet, tdiKeyFieldMatchTypeGet,
    tdiKeyFieldDataTypeGet, tdiKeyFieldSizeGet, tdiKeyFieldIsPtrGet, keyFieldRead,
    Outcome.checkOut, Outcome.checkHdl, Outcome.deref, hget, Outcome.write, read_success, ok_bind,
    keyView]

theorem initKeyField_guarded {f : KeyFieldInfo} (hget : info.keyFieldGet f.fieldId = some f)
    (hlen : f.enumChoices.length < 2 ^ 32) (t : TdiTable) :
    Guarded Unreadable (KeyReadable f) (initKeyField info t f.fieldId)
      { t with
        keyFields := t.keyFields.set (cStr f.name) (keyView f)
        stringChoices := t.stringChoices.setAll (keyChoices f) } := by
  rw [initKeyField_eq hget]
  apply Guarded.of_iff
  · apply Guarded.bind (decodeAscii_guarded _)
    intro hname
    exact (initKeyChoices_guarded hget hlen hname t.stringChoices).map fun stringChoices =>
      { t with
        keyFields := t.keyFields.set (cStr f.name) (keyView f)
        stringChoices := stringChoices }
  constructor
  · intro h
    exact ⟨h.1, h.2⟩
  · intro h
    exact ⟨h.name, h.choices⟩

def dataView (actionId : TdiId) (actionName : Option String) (f : DataFieldInfo) :
    TdiTableField :=
  { name := cStr f.name, id := f.fieldId, size := .ofNat f.sizeBits, isPtr := f.isPtr,
    readOnly := f.readOnly, required := f.mandatory, category := .data, actionName := actionName,
    actionId := some actionId, dataType := f.dataType, matchType := none,
    annotations := f.annotations.values.map annotationView }

/-- What is filed in `string_choices` for a data field. -/
def dataChoices (f : DataFieldInfo) : List (String × List String) :=
  if f.dataType ≠ .string ∧ f.dataType ≠ .stringArr then []
  else [(cStr f.name, f.enumChoices.map cStr)]

structure DataReadable (f : DataFieldInfo) : Prop where
  name : IsAscii (cStr f.name)
  choices : f.dataType = .string ∨ f.dataType = .stringArr →
    ∀ s ∈ f.enumChoices, IsAscii (cStr s)
  annotations : ∀ a ∈ f.annotations.values, AnnotationReadable a
  flat : f.dataType ≠ .container

variable {actionId : TdiId} {actionName : Option String} {f : DataFieldInfo}

theorem initDataChoices_guarded (hget : info.dataFieldGet f.fieldId actionId = some f)
    (hlen : f.enumChoices.length < 2 ^ 32) (hname : IsAscii (cStr f.name))
    (stringChoices : Dict (List String)) :
    Guarded Unreadable (f.dataType = .string ∨ f.dataType = .stringArr →
        ∀ s ∈ f.enumChoices, IsAscii (cStr s))
      (initDataChoices info stringChoices (cStr f.name) f.fieldId actionId f.dataType)
      (stringChoices.setAll (dataChoices f)) := by
  have hnum : tdiDataFieldNumAllowedChoicesWithActionGet (some info) f.fieldId actionId .memory =
      .returned .success (some (.ofNat f.enumChoices.length)) := by
    simp only [tdiDataFieldNumAllowedChoicesWithActionGet, dataFieldAllowedChoicesGetHelper,
      dataFieldRead, Outcome.checkOut, Outcome.deref, hget, Outcome.write]
  have hlist : tdiDataFieldAllowedChoicesWithActionGet (some info) f.fieldId actionId .memory =
      .returned .success (some f.enumChoices) := by
    simp only [tdiDataFieldAllowedChoicesWithActionGet, dataFieldAllowedChoicesGetHelper,
      dataFieldRead, Outcome.checkOut, Outcome.deref, hget, Outcome.writeAll]
  unfold initDataChoices dataChoices
  split_ifs with hstrings
  · exact (Guarded.ok _).of_iff (by simp [hstrings])
  · have hstrings' : f.dataType = .string ∨ f.dataType = .stringArr := by tauto
    rw [hnum, hlist]
    exact (initChoices_guarded stringChoices (cStr f.name) hlen).of_iff
      (by simp [hstrings', hname])

theorem initDataAnnotations_guarded (hget : info.dataFieldGet f.fieldId actionId = some f)
    (hlen : f.annotations.values.length < 2 ^ 32) :
    Guarded Unreadable (∀ a ∈ f.annotations.values, AnnotationReadable a)
      (initAnnotations
        (tdiDataFieldNumAnnotationsWithActionGet (some info) f.fieldId actionId .memory)
        (tdiDataFieldAnnotationsWithActionGet (some info) f.fieldId actionId .memory))
      (f.annotations.values.map annotationView) := by
  have hnum : tdiDataFieldNumAnnotationsWithActionGet (some info) f.fieldId actionId .memory =
      .returned .success (some (.ofNat f.annotations.values.length)) := by
    simp only [tdiDataFieldNumAnnotationsWithActionGet, dataFieldRead, Outcome.deref, hget,
      Outcome.write]
  have hlist : tdiDataFieldAnnotationsWithActionGet (some info) f.fieldId actionId .memory =
      .returned .success (some f.annotations.values) := by
    simp only [tdiDataFieldAnnotationsWithActionGet, dataFieldRead, Outcome.deref, hget,
      Outcome.writeAll]
  rw [hnum, hlist]
  exact initAnnotations_guarded hlen

theorem initDataFields_eq (hget : info.dataFieldGet f.fieldId actionId = some f)
    (filing : Filing) :
    initDataFields info actionId actionName filing f.fieldId =
      decodeAscii (cStr f.name) >>= fun _ =>
        initDataChoices info filing.2 (cStr f.name) f.fieldId actionId f.dataType >>=
          fun stringChoices => initAnnotations
            (tdiDataFieldNumAnnotationsWithActionGet (some info) f.fieldId actionId .memory)
            (tdiDataFieldAnnotationsWithActionGet (some info) f.fieldId actionId .memory) >>=
            fun annotations =>
              if f.dataType = .container then .error .noContainerAccessor
              else .ok (filing.1.set (cStr f.name)
                { dataView actionId actionName f with annotations := annotations },
                stringChoices) := by
  simp -implicitDefEqProofs only [initDataFields, tdiDataFieldTypeWithActionGet,
    tdiDataFieldNameWithActionGet, tdiDataFieldSizeWithActionGet, tdiDataFieldIsPtrWithActionGet,
    tdiDataFieldIsReadOnlyWithActionGet, tdiDataFieldIsMandatoryWithActionGet, dataFieldRead,
    Outcome.checkOut, Outcome.checkHdl, Outcome.deref, hget, Outcome.write, read_success, ok_bind,
    dataView]

/-- What a data field adds to what is filed. -/
def fileData (actionId : TdiId) (actionName : Option String) (filing : Filing)
    (f : DataFieldInfo) : Filing :=
  (filing.1.set (cStr f.name) (dataView actionId actionName f),
    filing.2.setAll (dataChoices f))

theorem initDataFields_guarded (hget : info.dataFieldGet f.fieldId actionId = some f)
    (hchoices : f.enumChoices.length < 2 ^ 32)
    (hannotations : f.annotations.values.length < 2 ^ 32) (filing : Filing) :
    Guarded Unreadable (DataReadable f)
      (initDataFields info actionId actionName filing f.fieldId)
      (fileData actionId actionName filing f) := by
  rw [initDataFields_eq hget]
  apply Guarded.of_iff
  · apply Guarded.bind (decodeAscii_guarded _)
    intro hname
    apply Guarded.bind (initDataChoices_guarded hget hchoices hname filing.2)
    intro _
    apply Guarded.bind (initDataAnnotations_guarded hget hannotations)
    intro _
    have hcontainer : Guarded Unreadable (f.dataType ≠ .container)
        (if f.dataType = .container then .error .noContainerAccessor
          else .ok (fileData actionId actionName filing f))
        (fileData actionId actionName filing f) := by
      constructor
      · intro h
        exact if_neg h
      · intro h
        rw [not_not] at h
        exact ⟨_, .inr rfl, if_pos h⟩
    exact hcontainer
  constructor
  · intro h
    exact ⟨h.1, h.2.1, h.2.2.1, h.2.2.2⟩
  · intro h
    exact ⟨h.name, h.choices, h.annotations, h.flat⟩

end Fields

section Listings

variable {info : TableInfo}

theorem pairwise_lt_keys {α : Type*} {key : α → TdiId} (m : KeyedMap key) :
    m.keys.Pairwise (· < ·) :=
  m.toMap.ordered_keys.imp fun h => Std.compare_eq_lt.mp h

/-- A keyed map lists its ids as they are sorted. -/
theorem sortIds_keys {α : Type*} {key : α → TdiId} (m : KeyedMap key) :
    TableInfo.sortIds m.keys = m.keys :=
  ((pairwise_lt_keys m).imp fun h => UInt32.le_of_lt h).insertionSort_eq

theorem keyFieldIdListGet_eq :
    info.keyFieldIdListGet = info.tableKeyMap.values.map KeyFieldInfo.fieldId := by
  rw [KeyedMap.map_key_values]
  exact sortIds_keys _

theorem actionIdListGet_eq :
    info.actionIdListGet = info.tableActionMap.values.map ActionInfo.actionId := by
  rw [KeyedMap.map_key_values]
  exact sortIds_keys _

/-- The data fields that the metadata lists with an action. -/
def dataFieldsOf (info : TableInfo) (actionId : TdiId) : List DataFieldInfo :=
  (info.dataFieldIdListGet actionId).filterMap (info.dataFieldGet · actionId)

theorem fieldId_of_dataFieldGet {i actionId : TdiId} {f : DataFieldInfo}
    (h : info.dataFieldGet i actionId = some f) : f.fieldId = i := by
  unfold TableInfo.dataFieldGet at h
  split at h
  next hscope =>
    obtain ⟨action, -, haction⟩ := Option.bind_eq_some_iff.mp hscope
    cases h
    exact KeyedMap.key_of_get? haction
  next => exact KeyedMap.key_of_get? h

theorem map_fieldId_dataFieldsOf (actionId : TdiId) :
    (dataFieldsOf info actionId).map DataFieldInfo.fieldId = info.dataFieldIdListGet actionId := by
  rw [dataFieldsOf, List.map_filterMap]
  conv_rhs => rw [← List.filterMap_some (l := info.dataFieldIdListGet actionId)]
  apply List.filterMap_congr
  intro i hi
  obtain ⟨f, hf⟩ := Option.isSome_iff_exists.mp (TableInfo.mem_dataFieldIdListGet.mp hi)
  rw [hf, Option.map_some, fieldId_of_dataFieldGet hf]

theorem dataFieldGet_of_mem {actionId : TdiId} {f : DataFieldInfo}
    (h : f ∈ dataFieldsOf info actionId) : info.dataFieldGet f.fieldId actionId = some f := by
  obtain ⟨i, -, hi⟩ := List.mem_filterMap.mp h
  rwa [fieldId_of_dataFieldGet hi]

end Listings

section View

variable (info : TableInfo)

/-- The action that a name stands for is the last in the order of the ids. -/
def actionsOf : Dict ActionInfo :=
  Dict.ofList (info.tableActionMap.values.map fun a => (cStr a.name, a))

def dataFieldsView (actionId : TdiId) (actionName : Option String) : Dict TdiTableField :=
  Dict.ofList ((dataFieldsOf info actionId).map fun f =>
    (cStr f.name, dataView actionId actionName f))

def actionView (name : String) (a : ActionInfo) : ActionDict :=
  ⟨a.actionId, dataFieldsView info a.actionId (some name),
    a.annotations.values.map annotationView⟩

/-- The data fields that the shell asks for, in turn. -/
def shownDataFields : List DataFieldInfo :=
  if info.tableActionMap.values = [] then dataFieldsOf info 0
  else (actionsOf info).entries.flatMap fun p => dataFieldsOf info p.2.actionId

def view : TdiTable where
  keyFields := Dict.ofList (info.tableKeyMap.values.map fun f => (cStr f.name, keyView f))
  actions := (actionsOf info).mapVals (actionView info)
  actionIdNameMap :=
    info.tableActionMap.values.foldl (fun m a => m.insert a.actionId (cStr a.name)) ∅
  dataFields := if info.tableActionMap.values = [] then dataFieldsView info 0 none else .empty
  stringChoices := Dict.ofList (info.tableKeyMap.values.flatMap keyChoices ++
    (shownDataFields info).flatMap dataChoices)

/-- The numbers of elements are written as 32-bit integers. -/
structure Counted : Prop where
  keyFields : info.keyFieldIdListGet.length < 2 ^ 32
  keyChoices : ∀ f ∈ info.tableKeyMap.values, f.enumChoices.length < 2 ^ 32
  actions : info.actionIdListGet.length < 2 ^ 32
  actionAnnotations : ∀ a ∈ info.tableActionMap.values, a.annotations.values.length < 2 ^ 32
  dataFields : ∀ actionId, (info.dataFieldIdListGet actionId).length < 2 ^ 32
  dataChoices : ∀ actionId, ∀ f ∈ dataFieldsOf info actionId, f.enumChoices.length < 2 ^ 32
  dataAnnotations : ∀ actionId, ∀ f ∈ dataFieldsOf info actionId,
    f.annotations.values.length < 2 ^ 32

/-- All texts that are decoded are ASCII, and no data field is a container. -/
structure Readable : Prop where
  keyFields : ∀ f ∈ info.tableKeyMap.values, KeyReadable f
  actionAnnotations : ∀ a ∈ info.tableActionMap.values,
    ∀ ann ∈ a.annotations.values, AnnotationReadable ann
  actionNames : ∀ a ∈ info.tableActionMap.values, IsAscii (cStr a.name)
  dataFields : ∀ f ∈ shownDataFields info, DataReadable f

end View

section Loops

variable {info : TableInfo}

theorem get?_of_mem_keys {f : KeyFieldInfo} (hf : f ∈ info.tableKeyMap.values) :
    info.keyFieldGet f.fieldId = some f :=
  KeyedMap.mem_values.mp hf

theorem foldl_keyFields (fields : List KeyFieldInfo) (t : TdiTable) :
    fields.foldl (fun t f => { t with
        keyFields := t.keyFields.set (cStr f.name) (keyView f)
        stringChoices := t.stringChoices.setAll (keyChoices f) }) t =
      { t with
        keyFields := t.keyFields.setAll (fields.map fun f => (cStr f.name, keyView f))
        stringChoices := t.stringChoices.setAll (fields.flatMap keyChoices) } := by
  induction fields generalizing t with
  | nil => rfl
  | cons f fields ih =>
    rw [List.foldl_cons, ih, List.flatMap_cons, Dict.setAll_append]
    rfl

theorem initKey_guarded (h : Counted info) (t : TdiTable) :
    Guarded Unreadable (∀ f ∈ info.tableKeyMap.values, KeyReadable f) (initKey info t)
      { t with
        keyFields := t.keyFields.setAll
          (info.tableKeyMap.values.map fun f => (cStr f.name, keyView f))
        stringChoices := t.stringChoices.setAll (info.tableKeyMap.values.flatMap keyChoices) } := by
  have hrun : initKey info t =
      info.tableKeyMap.values.foldlM (fun t f => initKeyField info t f.fieldId) t := by
    have hids : readIds (tdiKeyFieldIdListSizeGet (some info) .memory)
        (tdiKeyFieldIdListGet (some info) .memory) = .ok info.keyFieldIdListGet :=
      readIds_length h.keyFields
    rw [initKey, hids, ok_bind, keyFieldIdListGet_eq, List.foldlM_map]
  rw [hrun, ← foldl_keyFields]
  exact Guarded.foldlM (fun f hf t =>
    initKeyField_guarded (get?_of_mem_keys hf) (h.keyChoices f hf) t) t

theorem foldl_fileData (actionId : TdiId) (actionName : Option String)
    (fields : List DataFieldInfo) (filing : Filing) :
    fields.foldl (fileData actionId actionName) filing =
      (filing.1.setAll (fields.map fun f => (cStr f.name, dataView actionId actionName f)),
        filing.2.setAll (fields.flatMap dataChoices)) := by
  induction fields generalizing filing with
  | nil => rfl
  | cons f fields ih =>
    rw [List.foldl_cons, ih, List.flatMap_cons, Dict.setAll_append]
    rfl

/-- The loop over the data fields of an action, or over those of the table. -/
theorem foldlM_initDataFields_guarded (h : Counted info) (actionId : TdiId)
    (actionName : Option String) (stringChoices : Dict (List String)) :
    Guarded Unreadable (∀ f ∈ dataFieldsOf info actionId, DataReadable f)
      ((info.dataFieldIdListGet actionId).foldlM (initDataFields info actionId actionName)
        (.empty, stringChoices))
      (dataFieldsView info actionId actionName,
        stringChoices.setAll ((dataFieldsOf info actionId).flatMap dataChoices)) := by
  have hfiled := foldl_fileData actionId actionName (dataFieldsOf info actionId)
    (.empty, stringChoices)
  rw [← map_fieldId_dataFieldsOf, List.foldlM_map]
  refine Eq.mp (congrArg _ hfiled) ?_
  exact Guarded.foldlM (fun f hf filing => initDataFields_guarded (dataFieldGet_of_mem hf)
    (h.dataChoices actionId f hf) (h.dataAnnotations actionId f hf) filing) _

/-- What `_init_actions` files under the name of an action. -/
def bareAction (a : ActionInfo) : ActionDict :=
  ⟨a.actionId, .empty, a.annotations.values.map annotationView⟩

theorem actionAnnotations_guarded {a : ActionInfo} (hget : info.actionGet a.actionId = some a)
    (hlen : a.annotations.values.length < 2 ^ 32) :
    Guarded Unreadable (∀ ann ∈ a.annotations.values, AnnotationReadable ann)
      (actionAnnotations info a.actionId) (a.annotations.values.map annotationView) := by
  have hrun : actionAnnotations info a.actionId =
      (a.annotations.values.map some).mapM decodeAnnotation := by
    simp only [actionAnnotations, tdiActionNumAnnotationsGet, tdiActionAnnotationsGet,
      actionRead, Outcome.deref, hget, Outcome.write, Outcome.writeAll, attempt, ok_bind,
      Option.getD_some, array_length hlen]
  rw [hrun]
  exact mapM_decodeAnnotation_guarded _

theorem initAction_guarded {a : ActionInfo} (hget : info.actionGet a.actionId = some a)
    (hlen : a.annotations.values.length < 2 ^ 32) (t : TdiTable) :
    Guarded Unreadable (∀ ann ∈ a.annotations.values, AnnotationReadable ann)
      (initAction info t a.actionId)
      { t with
        actions := t.actions.set (cStr a.name) (bareAction a)
        actionIdNameMap := t.actionIdNameMap.insert a.actionId (cStr a.name) } := by
  have hrun : initAction info t a.actionId = actionAnnotations info a.actionId >>=
      fun annotations => .ok { t with
        actions := t.actions.set (cStr a.name) ⟨a.actionId, .empty, annotations⟩
        actionIdNameMap := t.actionIdNameMap.insert a.actionId (cStr a.name) } := by
    simp -implicitDefEqProofs only [initAction, tdiActionNameGet, Outcome.checkOut,
      Outcome.checkHdl, Outcome.deref, hget, Outcome.write, read_success, ok_bind]
  rw [hrun]
  exact (actionAnnotations_guarded hget hlen).map fun annotations => { t with
    actions := t.actions.set (cStr a.name) ⟨a.actionId, .empty, annotations⟩
    actionIdNameMap := t.actionIdNameMap.insert a.actionId (cStr a.name) }

theorem foldl_actions (actions : List ActionInfo) (t : TdiTable) :
    actions.foldl (fun t a => { t with
        actions := t.actions.set (cStr a.name) (bareAction a)
        actionIdNameMap := t.actionIdNameMap.insert a.actionId (cStr a.name) }) t =
      { t with
        actions := t.actions.setAll (actions.map fun a => (cStr a.name, bareAction a))
        actionIdNameMap :=
          actions.foldl (fun m a => m.insert a.actionId (cStr a.name)) t.actionIdNameMap } := by
  induction actions generalizing t with
  | nil => rfl
  | cons a actions ih =>
    rw [List.foldl_cons, ih]
    rfl

theorem initActions_guarded (h : Counted info) (t : TdiTable) :
    Guarded Unreadable
      (∀ a ∈ info.tableActionMap.values, ∀ ann ∈ a.annotations.values, AnnotationReadable ann)
      (initActions info t)
      { t with
        actions := t.actions.setAll
          (info.tableActionMap.values.map fun a => (cStr a.name, bareAction a))
        actionIdNameMap := info.tableActionMap.values.foldl
          (fun m a => m.insert a.actionId (cStr a.name)) t.actionIdNameMap } := by
  have hrun : initActions info t =
      info.tableActionMap.values.foldlM (fun t a => initAction info t a.actionId) t := by
    have hsize : attempt (tdiActionIdListSizeGet (some info) .memory) =
        .ok (some (.ofNat info.actionIdListGet.length)) := rfl
    have hids : readIds (.returned .success (some (.ofNat info.actionIdListGet.length)))
        (tdiActionIdListGet (some info) .memory) = .ok info.actionIdListGet :=
      readIds_length h.actions
    simp only [initActions, hsize, ok_bind, hids]
    rw [actionIdListGet_eq, List.foldlM_map]
  rw [hrun, ← foldl_actions]
  exact Guarded.foldlM (fun a ha t =>
    initAction_guarded (KeyedMap.mem_values.mp ha) (h.actionAnnotations a ha) t) t

theorem initActionData_guarded (h : Counted info) (p : String × ActionInfo) (t : TdiTable) :
    Guarded Unreadable
      (IsAscii p.1 ∧ ∀ f ∈ dataFieldsOf info p.2.actionId, DataReadable f)
      (initActionData info t (p.1, bareAction p.2))
      { t with
        actions := t.actions.set p.1 (actionView info p.1 p.2)
        stringChoices :=
          t.stringChoices.setAll ((dataFieldsOf info p.2.actionId).flatMap dataChoices) } := by
  have hids : readIds (tdiDataFieldIdListSizeWithActionGet (some info) p.2.actionId .memory)
      (tdiDataFieldListWithActionGet (some info) p.2.actionId .memory) =
        .ok (info.dataFieldIdListGet p.2.actionId) :=
    readIds_length (h.dataFields p.2.actionId)
  have hrun : initActionData info t (p.1, bareAction p.2) =
      decodeAscii p.1 >>= fun _ =>
        (info.dataFieldIdListGet p.2.actionId).foldlM
            (initDataFields info p.2.actionId (some p.1)) (.empty, t.stringChoices) >>=
          fun filing => .ok { t with
            actions := t.actions.set p.1 { bareAction p.2 with dataFields := filing.1 }
            stringChoices := filing.2 } := by
    simp only [initActionData, bareAction, hids, ok_bind]
  rw [hrun]
  apply Guarded.bind (decodeAscii_guarded p.1)
  intro _
  exact (foldlM_initDataFields_guarded h p.2.actionId (some p.1) t.stringChoices).map
    fun filing => { t with
      actions := t.actions.set p.1 { bareAction p.2 with dataFields := filing.1 }
      stringChoices := filing.2 }

variable (info) in
theorem foldl_actionData (entries : List (String × ActionInfo)) (t : TdiTable) :
    entries.foldl (fun t p => { t with
        actions := t.actions.set p.1 (actionView info p.1 p.2)
        stringChoices := t.stringChoices.setAll
          ((dataFieldsOf info p.2.actionId).flatMap dataChoices) }) t =
      { t with
        actions := entries.foldl (fun d p => d.set p.1 (actionView info p.1 p.2)) t.actions
        stringChoices := t.stringChoices.setAll
          ((entries.flatMap fun p => dataFieldsOf info p.2.actionId).flatMap dataChoices) } := by
  induction entries generalizing t with
  | nil => rfl
  | cons p entries ih =>
    rw [List.foldl_cons, ih, List.flatMap_cons, List.flatMap_append, Dict.setAll_append]
    rfl

theorem entries_actionsOf_eq_nil_iff :
    (actionsOf info).entries = [] ↔ info.tableActionMap.values = [] := by
  rw [actionsOf, Dict.entries_ofList_eq_nil_iff, List.map_eq_nil_iff]

theorem actionNames_iff :
    (∀ a ∈ info.tableActionMap.values, IsAscii (cStr a.name)) ↔
      ∀ p ∈ (actionsOf info).entries, IsAscii p.1 := by
  have hkeys : ∀ name, name ∈ (actionsOf info).keys ↔
      name ∈ (info.tableActionMap.values.map fun a => (cStr a.name, a)).map Prod.fst := by
    intro name
    rw [← lastValue_isSome_iff, ← Dict.get?_ofList, Dict.mem_keys_iff, Option.isSome_iff_exists]
    rfl
  constructor
  · intro h p hp
    obtain ⟨q, hq, hname⟩ := List.mem_map.mp ((hkeys p.1).mp (List.mem_map_of_mem hp))
    obtain ⟨a, ha, rfl⟩ := List.mem_map.mp hq
    rw [← hname]
    exact h a ha
  · intro h a ha
    have hmem : cStr a.name ∈ (info.tableActionMap.values.map fun a => (cStr a.name, a)).map
        Prod.fst := List.mem_map_of_mem (List.mem_map_of_mem ha)
    obtain ⟨p, hp, hname⟩ := List.mem_map.mp ((hkeys _).mpr hmem)
    rw [← hname]
    exact h p hp

theorem initData_guarded (h : Counted info) {t : TdiTable}
    (hactions : t.actions = (actionsOf info).mapVals fun _ a => bareAction a)
    (hdata : t.dataFields = .empty) :
    Guarded Unreadable ((∀ a ∈ info.tableActionMap.values, IsAscii (cStr a.name)) ∧
        ∀ f ∈ shownDataFields info, DataReadable f)
      (initData info t)
      { t with
        actions := (actionsOf info).mapVals (actionView info)
        dataFields := if info.tableActionMap.values = [] then dataFieldsView info 0 none else .empty
        stringChoices := t.stringChoices.setAll ((shownDataFields info).flatMap dataChoices) } := by
  have hentries : t.actions.entries =
      (actionsOf info).entries.map fun p => (p.1, bareAction p.2) := by
    rw [hactions]
    rfl
  unfold initData shownDataFields
  by_cases hnil : info.tableActionMap.values = []
  · -- the table has data fields of its own
    have hnone : (actionsOf info).entries = [] := entries_actionsOf_eq_nil_iff.mpr hnil
    have hviews : (actionsOf info).mapVals (actionView info) = t.actions :=
      Dict.ext (by simp [hentries, Dict.mapVals, hnone])
    have hids : readIds (tdiDataFieldIdListSizeGet (some info) .memory)
        (tdiDataFieldListGet (some info) .memory) = .ok (info.dataFieldIdListGet 0) :=
      readIds_length (h.dataFields 0)
    have hzero : t.actions.entries.length = 0 := by simp [hentries, hnone]
    rw [if_pos hzero, if_pos hnil, if_pos hnil, hids, ok_bind, hdata, hviews]
    apply Guarded.of_iff
    · exact (foldlM_initDataFields_guarded h 0 none t.stringChoices).map fun filing =>
        { t with dataFields := filing.1, stringChoices := filing.2 }
    · simp [hnil]
  · have hsome : ¬ t.actions.entries.length = 0 := by
      rw [hentries, List.length_map, List.length_eq_zero_iff, entries_actionsOf_eq_nil_iff]
      exact hnil
    have hviews := Dict.foldl_set_mapVals (fun _ a => bareAction a) (actionView info)
      (actionsOf info)
    have hloop := foldl_actionData info (actionsOf info).entries t
    rw [if_neg hsome, if_neg hnil, if_neg hnil, hentries, List.foldlM_map, ← hdata, ← hviews,
      ← hactions, ← hloop]
    apply Guarded.of_iff
    · exact Guarded.foldlM (fun p _ t => initActionData_guarded h p t) t
    · rw [actionNames_iff]
      simp only [List.mem_flatMap]
      constructor
      · intro hall
        refine ⟨fun p hp => (hall p hp).1, ?_⟩
        intro f hf
        obtain ⟨p, hp, hmem⟩ := hf
        exact (hall p hp).2 f hmem
      · intro hall p hp
        exact ⟨hall.1 p hp, fun f hf => hall.2 f ⟨p, hp, hf⟩⟩

/-- The shell makes of a table what the metadata says, exactly if it can read the texts and no
data field is a container, and otherwise it fails for one of these. -/
theorem initTable_guarded (h : Counted info) :
    Guarded Unreadable (Readable info) (initTable info) (view info) := by
  have hbare : Dict.empty.setAll (info.tableActionMap.values.map fun a =>
      (cStr a.name, bareAction a)) = (actionsOf info).mapVals fun _ a => bareAction a := by
    rw [actionsOf, Dict.mapVals_ofList, List.map_map]
    rfl
  apply Guarded.of_iff
  · apply Guarded.bind (initKey_guarded h .empty)
    intro _
    apply Guarded.bind (initActions_guarded h _)
    intro _
    have hlast := initData_guarded h (t := { TdiTable.empty with
        keyFields := TdiTable.empty.keyFields.setAll
          (info.tableKeyMap.values.map fun f => (cStr f.name, keyView f))
        actions := TdiTable.empty.actions.setAll
          (info.tableActionMap.values.map fun a => (cStr a.name, bareAction a))
        actionIdNameMap := info.tableActionMap.values.foldl
          (fun m a => m.insert a.actionId (cStr a.name)) TdiTable.empty.actionIdNameMap
        stringChoices := TdiTable.empty.stringChoices.setAll
          (info.tableKeyMap.values.flatMap keyChoices) }) hbare rfl
    rw [← Dict.setAll_append] at hlast
    exact hlast
  · constructor
    · intro hall
      exact ⟨hall.1, hall.2.1, hall.2.2.1, hall.2.2.2⟩
    · intro hall
      exact ⟨hall.keyFields, hall.actionAnnotations, hall.actionNames, hall.dataFields⟩

end Loops

end Tdi.Cli.TableInit
