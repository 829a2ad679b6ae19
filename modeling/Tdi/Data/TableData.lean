import Tdi.Defs

/-!
# Active fields of a data object

The part of `TableData` that says which fields an object was allocated for: the
action and container ids, the flag for "all fields", the set of active fields and
the set of fields removed one by one. The table is a pointer the object only
passes on. `resetDerived` is the hook of the base class; a derived class cannot
reach these members through it.
-/
namespace Tdi.Data

structure TableData (Table : Type) where
  table : Option Table
  actionId : TdiId
  containerId : TdiId
  allFieldsSet : Bool
  activeFields : Finset TdiId
  removedOneOfs : Finset TdiId
  deriving DecidableEq

/-- The overloads of the constructor. -/
inductive Constructor (Table : Type) where
  | ofTable (table : Option Table)
  | ofFields (table : Option Table) (activeFields : List TdiId)
  | ofAction (table : Option Table) (actionId : TdiId)
  | ofActionFields (table : Option Table) (actionId : TdiId) (activeFields : List TdiId)
  | ofContainer (table : Option Table) (actionId containerId : TdiId) (activeFields : List TdiId)

/-- The calls that change which fields are active. -/
inductive Op where
  | reset
  | resetAction (actionId : TdiId)
  | resetFields (actionId : TdiId) (fields : List TdiId)
  | resetContainer (actionId containerId : TdiId) (fields : List TdiId)
  | activeFieldsSet (fields : List TdiId)
  | removeActiveField (fieldId : TdiId)
  deriving DecidableEq

namespace TableData

variable {Table : Type}

/-- The constructor the others delegate to. -/
def new (table : Option Table) (actionId containerId : TdiId) (activeFields : List TdiId) :
    TableData Table :=
  if activeFields.length = 0 then ⟨table, actionId, containerId, true, ∅, ∅⟩
  else ⟨table, actionId, containerId, false, activeFields.toFinset, ∅⟩

def construct : Constructor Table → TableData Table
  | .ofTable table => new table 0 0 []
  | .ofFields table activeFields => new table 0 0 activeFields
  | .ofAction table actionId => new table actionId 0 []
  | .ofActionFields table actionId activeFields => new table actionId 0 activeFields
  | .ofContainer table actionId containerId activeFields =>
    new table actionId containerId activeFields

variable (data : TableData Table)

def resetDerived (_ : TableData Table) : TdiStatus := .success

def actionIdSet (actionId : TdiId) : TableData Table := { data with actionId }

def activeFieldsSet (fields : List TdiId) : TableData Table :=
  let data := { data with removedOneOfs := ∅, activeFields := ∅ }
  if fields.isEmpty then { data with allFieldsSet := true }
  else { data with allFieldsSet := false, activeFields := data.activeFields ∪ fields.toFinset }

def resetContainer (actionId containerId : TdiId) (fields : List TdiId) :
    TableData Table × TdiStatus :=
  let data := data.actionIdSet actionId
  let data := { data with containerId }
  let data := data.activeFieldsSet fields
  (data, data.resetDerived)

def reset : TableData Table × TdiStatus := data.resetContainer 0 0 []

def resetAction (actionId : TdiId) : TableData Table × TdiStatus :=
  data.resetContainer actionId 0 []

def resetFields (actionId : TdiId) (fields : List TdiId) : TableData Table × TdiStatus :=
  data.resetContainer actionId 0 fields

/-- The removed set is kept apart because an empty active set need not list the fields. -/
def removeActiveField (fieldId : TdiId) : TableData Table :=
  let data := { data with removedOneOfs := insert fieldId data.removedOneOfs }
  if data.activeFields.Nonempty then
    { data with activeFields := data.activeFields.erase fieldId, allFieldsSet := false }
  else data

def isActive (fieldId : TdiId) : TdiStatus × Bool :=
  if fieldId ∈ data.removedOneOfs then (.success, false)
  else if data.allFieldsSet then (.success, true)
  else if fieldId ∈ data.activeFields then (.success, true)
  else (.success, false)

def allFieldsSetGet : Bool := data.allFieldsSet

def activeFieldsGet : Finset TdiId := data.activeFields

def step (data : TableData Table) : Op → TableData Table
  | .reset => data.reset.1
  | .resetAction actionId => (data.resetAction actionId).1
  | .resetFields actionId fields => (data.resetFields actionId fields).1
  | .resetContainer actionId containerId fields =>
    (data.resetContainer actionId containerId fields).1
  | .activeFieldsSet fields => data.activeFieldsSet fields
  | .removeActiveField fieldId => data.removeActiveField fieldId

end TableData
end Tdi.Data
